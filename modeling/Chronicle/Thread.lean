import Chronicle.Json.Decode
import Chronicle.Text.Blank

/-!
# Threads

Records that name themselves and the record they reply to form threads.

* `Thread.links`: the reply each id makes, by the first record that carries the id.
* `Thread.depthFrom`: how many replies lead from an id towards the root of its thread.
* `Thread.inOrder`, `Thread.byId`: the nodes by first appearance, and by id.
-/

namespace Chronicle

open Json (Source)

structure ThreadRecord where
  id : Option String := none
  parent : Option String := none
deriving DecidableEq

namespace ThreadRecord

inductive Field where
  | id
  | parent
deriving DecidableEq, Repr

def Field.ofName? : String → Option Field
  | "id" => some id
  | "parent_id" => some parent
  | "parentId" => some parent
  | "parent" => some parent
  | _ => none

section

variable {ν ε : Type} [Source ν ε]

def store (field : Field) (v : ν) (r : ThreadRecord) : Except ε ThreadRecord :=
  match field with
  | .id => do return { r with id := ← Json.asOptional Json.asText v }
  | .parent => do return { r with parent := ← Json.asOptional Json.asText v }

/-- How a record is laid out. No field is needed. -/
def layout : Json.Layout Field ThreadRecord ThreadRecord ν ε where
  fieldOf := Field.ofName?
  fields := [.id, .parent]
  store := store
  draft := {}
  finish := some

def decode (v : ν) : Except ε ThreadRecord := Json.asRecord layout v

end

def toJson (r : ThreadRecord) : Json :=
  .record [("id", .ofOption (r.id.map .text)), ("parent_id", .ofOption (r.parent.map .text))]

/-- A name without surrounding blanks, unless it is blank. -/
def nameOf (text : Option String) : Option String :=
  text.bind fun s => if Text.allBlank s then none else some (Text.trimmed s)

/-- The id of a record that has one. -/
def id? (r : ThreadRecord) : Option String := nameOf r.id

/-- The id that a record replies to. -/
def parent? (r : ThreadRecord) : Option String := nameOf r.parent

end ThreadRecord

/-- A record's place in its thread. -/
structure ThreadNode where
  id : String
  parent : Option String
  indent : Nat
deriving DecidableEq

namespace ThreadNode

def isChild (n : ThreadNode) : Bool := 0 < n.indent

def toJson (n : ThreadNode) : Json :=
  .record [("id", .text n.id), ("parent_id", .ofOption (n.parent.map .text)),
    ("indent_level", .ofNat n.indent), ("is_child", .bool n.isChild)]

end ThreadNode

namespace Thread

/-- The greatest indentation unless another is chosen. -/
def defaultDepth : Nat := 5

/-- Ids with the id that each replies to. -/
abbrev Links := List (String × Option String)

/-- Adds the reply of an id that has none yet. -/
def addLink (links : Links) (id : String) (parent : Option String) : Links :=
  if (links.lookup id).isSome then links else links ++ [(id, parent)]

/-- Adds a record's reply; a record without an id makes none. -/
def addRecord (links : Links) (r : ThreadRecord) : Links :=
  match r.id? with
  | some id => addLink links id r.parent?
  | none => links

/-- The ids of the records in order of first appearance, with their replies. -/
def links (records : List ThreadRecord) : Links :=
  records.foldl addRecord []

/-- How many replies lead on to `parent` and further, at most `most`. The walk stops at an id that
no record carries and at one that it has visited. -/
def climb (links : Links) :
    (most : Nat) → (visited : List String) → (parent : Option String) → Nat
  | 0, _, _ => 0
  | _ + 1, _, none => 0
  | most + 1, visited, some parent =>
    match links.lookup parent with
    | none => 0
    | some next =>
      if parent ∈ visited then 0 else climb links most (parent :: visited) next + 1

/-- How many replies lead from an id towards the root of its thread, at most `most`. -/
def depthFrom (links : Links) (most : Nat) (id : String) (parent : Option String) : Nat :=
  climb links most [id] parent

def node (links : Links) (most : Nat) (link : String × Option String) : ThreadNode where
  id := link.1
  parent := link.2
  indent := depthFrom links most link.1 link.2

/-- The nodes of the records, each id once, in order of first appearance. -/
def inOrder (records : List ThreadRecord) (most : Nat) : List ThreadNode :=
  (links records).map (node (links records) most)

/-- The nodes of the records, each id once, in order of the ids. -/
def byId (records : List ThreadRecord) (most : Nat) : List ThreadNode :=
  (inOrder records most).mergeSort fun a b => !decide (b.id < a.id)

end Thread

end Chronicle
