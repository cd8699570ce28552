import Chronicle.Json.Document

/-!
# Decoding

Records are decoded alike from values and from documents. A `Source` shows one level of a value at a
time and knows what to report: for a document that is a line, for a value a `Mismatch`.

* `asText`, `asOptional`, `asVariant`, `asEach`: readers for the parts of a record.
* `asRecord`: a record given as members by name or as a list in the order of its fields. A field
  given twice is refused, by whatever of its names; other members are passed over.
-/

namespace Chronicle.Json

/-- An item of a list. An error noticed right after it is reported as `resume`. -/
structure Item (ν ε : Type) where
  value : ν
  resume : ε

/-- A member of a record. Errors about its name are reported as `atName`, errors noticed right after
the name as `resume`, and errors noticed right after the value as `after`. -/
structure Member (ν ε : Type) where
  name : String
  atName : ε
  resume : ε
  value : ν
  after : ε

/-- How a container ends. Errors about the container as a whole are reported as `atEnd`. -/
inductive Ending (ε : Type) where
  | closed (atEnd : ε)
  | fault (error : ε)

/-- One level of a value. -/
inductive View (ν ε : Type) where
  | null
  | bool (b : Bool)
  | number (n : Number)
  | text (s : String)
  | list (items : List (Item ν ε)) (ending : Ending ε)
  | record (members : List (Member ν ε)) (ending : Ending ε)
  /-- No value, though it begins as this. -/
  | fault (error : ε) (opening : Opening)

/-- Something that can be decoded. -/
class Source (ν : Type) (ε : outParam Type) where
  /-- The error for a value that is not what was expected. -/
  unexpected : ν → ε
  view : ν → View ν ε
  /-- The whole value. -/
  value : ν → Except ε Json
  /-- Passes over a value. -/
  skip : ν → Except ε Unit

/-! ## Sources -/

inductive Mismatch where
  /-- It has the wrong shape. -/
  | shape
  /-- It is refused for a reason that is told. -/
  | refused (reason : String)
deriving DecidableEq

def view : Json → View Json Mismatch
  | null => .null
  | bool b => .bool b
  | number n => .number n
  | text s => .text s
  | list items => .list (items.map fun v => ⟨v, .shape⟩) (.closed .shape)
  | record members =>
    .record (members.map fun m => ⟨m.1, .shape, .shape, m.2, .shape⟩) (.closed .shape)

instance : Source Json Mismatch where
  unexpected _ := .shape
  view := view
  value := .ok
  skip _ := .ok ()

/-- The line on which a tree begins. -/
def Node.line : Node → Nat
  | .null line => line
  | .bool line _ => line
  | .number line _ => line
  | .text line _ => line
  | .list line _ _ => line
  | .record line _ _ => line
  | .fault b => b.start

/-- The items that can be read, and how they end. -/
def Items.view : Items → List (Item Node Nat) × Ending Nat
  | .closed line => ([], .closed line)
  | .fault line => ([], .fault line)
  | .item node resume rest =>
    let (items, ending) := rest.view
    (⟨node, resume⟩ :: items, ending)

/-- The members that can be read, and how they end. A name with a lone surrogate cannot. -/
def Members.view : Members → List (Member Node Nat) × Ending Nat
  | .closed line => ([], .closed line)
  | .fault b => ([], .fault b.shownAsName)
  | .member none line _ _ _ _ => ([], .fault line)
  | .member (some name) line resume node after rest =>
    let (members, ending) := rest.view
    (⟨name, line, resume, node, after⟩ :: members, ending)

def Node.view : Node → View Node Nat
  | .null _ => .null
  | .bool _ b => .bool b
  | .number _ (some n) => .number n
  | .number line none => .fault line .other
  | .text _ (some s) => .text s
  | .text line none => .fault line .text
  | .list line depth items =>
    if depth ≤ depthLimit then .list items.view.1 items.view.2 else .fault line .other
  | .record line depth members =>
    if depth ≤ depthLimit then .record members.view.1 members.view.2 else .fault line .other
  | .fault b => .fault b.shown b.opening

instance : Source Node Nat where
  unexpected := Node.line
  view := Node.view
  value := Node.value
  skip := Node.skip

/-! ## Readers -/

variable {ν ε : Type} [Source ν ε]

def asText (v : ν) : Except ε String :=
  match Source.view v with
  | .text s => .ok s
  | .fault e _ => .error e
  | _ => .error (Source.unexpected v)

def asValue (v : ν) : Except ε Json := Source.value v

/-- Null, or what `read` reads. What begins as null is not left to `read`. -/
def asOptional (read : ν → Except ε α) (v : ν) : Except ε (Option α) :=
  match Source.view v with
  | .null => .ok none
  | .fault e .null => .error e
  | _ => some <$> read v

def asNat (v : ν) : Except ε Nat :=
  match Source.view v with
  | .number (.int (.ofNat n)) => .ok n
  | .fault e _ => .error e
  | _ => .error (Source.unexpected v)

/-- A number, as binary64. -/
def asBinary64 (v : ν) : Except ε Binary64 :=
  match Source.view v with
  | .number n => .ok n.toBinary64
  | .fault e _ => .error e
  | _ => .error (Source.unexpected v)

/-- One of several named constants: its name, or a record of that name alone over nothing. -/
def asVariant (ofName : String → Option α) (v : ν) : Except ε α :=
  match Source.view v with
  | .text s =>
    match ofName s with
    | some a => .ok a
    | none => .error (Source.unexpected v)
  | .record [] (.closed e) => .error e
  | .record (m :: more) ending =>
    match ofName m.name with
    | none => .error m.atName
    | some a =>
      match Source.view m.value, more, ending with
      | .fault e _, _, _ => .error e
      | .null, [], .closed _ => .ok a
      | .null, _, _ => .error m.after
      | _, _, _ => .error (Source.unexpected m.value)
  | .record [] (.fault e) => .error e
  | .fault e .text => .error e
  | _ => .error (Source.unexpected v)

/-- Reads the items in turn; `read` is also told how to report what it notices after its item. -/
def readEach (read : ν → ε → Except ε α) : List (Item ν ε) → Except ε (List α)
  | [] => .ok []
  | i :: more => do
    let a ← read i.value i.resume
    let as ← readEach read more
    return a :: as

/-- A list of what `read` reads. -/
def asEach (read : ν → ε → Except ε α) (v : ν) : Except ε (List α) :=
  match Source.view v with
  | .list items ending => do
    let as ← readEach read items
    match ending with
    | .closed _ => return as
    | .fault e => .error e
  | .fault e _ => .error e
  | _ => .error (Source.unexpected v)

/-! ## Records -/

/-- How a record of type `α` is put together from fields `φ`, by way of a draft `δ`. -/
structure Layout (φ δ α ν ε : Type) where
  /-- The field that a name stands for. -/
  fieldOf : String → Option φ
  /-- The fields in the order in which a list gives them. -/
  fields : List φ
  /-- Reads a field into the draft. -/
  store : φ → ν → δ → Except ε δ
  /-- The draft without any field. -/
  draft : δ
  /-- The record of a draft, when nothing that it needs is missing. -/
  finish : δ → Option α
  /-- The record of a draft that a list gave, where that asks for more. -/
  finishList : δ → Option α := finish

def storeMembers [DecidableEq φ] (layout : Layout φ δ α ν ε) (seen : List φ) :
    List (Member ν ε) → δ → Except ε δ
  | [], draft => .ok draft
  | m :: more, draft =>
    match layout.fieldOf m.name with
    | none => do
      Source.skip m.value
      storeMembers layout seen more draft
    | some field =>
      if field ∈ seen then .error m.resume
      else do
        let draft ← layout.store field m.value draft
        storeMembers layout (field :: seen) more draft

/-- Stores the items in the order of the fields. -/
def storeItems (layout : Layout φ δ α ν ε) : List φ → List (Item ν ε) → δ → Except ε δ
  | _, [], draft => .ok draft
  | [], i :: _, _ => .error (Source.unexpected i.value)
  | field :: fields, i :: more, draft => do
    let draft ← layout.store field i.value draft
    storeItems layout fields more draft

/-- The record at the end of a container. -/
def conclude (finished : Option α) : Ending ε → Except ε α
  | .fault e => .error e
  | .closed e =>
    match finished with
    | some a => .ok a
    | none => .error e

def asRecord [DecidableEq φ] (layout : Layout φ δ α ν ε) (v : ν) : Except ε α :=
  match Source.view v with
  | .record members ending => do
    let draft ← storeMembers layout [] members layout.draft
    conclude (layout.finish draft) ending
  | .list items ending => do
    let draft ← storeItems layout layout.fields items layout.draft
    conclude (layout.finishList draft) ending
  | .fault e _ => .error e
  | _ => .error (Source.unexpected v)

end Chronicle.Json
