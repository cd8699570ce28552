import Chronicle.Json.Token

/-!
# JSON documents

A `Node` is what a text says, with the lines on which its parts stand. Every text has one: where it
stops being JSON the tree ends in a fault, and what stood before is kept. A reader that walks the
tree in order thus meets the first thing that is wrong, be it a fault or a value it did not expect.

* `Document.ofText`: the tree of a text.
* `Node.value`: the value of a tree, for which its text has to be JSON through and through.
* `Node.skip`: passes over a tree whose value nobody asks for. Its nesting has no limit, its numbers
  no range and its texts may leave surrogates alone.
* `parse`: the value of a text.
-/

namespace Chronicle.Json

mutual

/-- A value in a text. -/
inductive Node where
  | null (line : Nat)
  | bool (line : Nat) (b : Bool)
  | number (line : Nat) (value : Option Number)
  | text (line : Nat) (value : Option String)
  /-- A list and the number of containers that it is in, itself included. -/
  | list (line depth : Nat) (items : Items)
  /-- A record and the number of containers that it is in, itself included. -/
  | record (line depth : Nat) (members : Members)
  | fault (b : Break)

/-- The rest of a list. -/
inductive Items where
  | closed (line : Nat)
  | fault (line : Nat)
  /-- An item; the next token, past a comma if there is one, stands on line `resume`. -/
  | item (node : Node) (resume : Nat) (rest : Items)

/-- The rest of a record. -/
inductive Members where
  | closed (line : Nat)
  | fault (b : Break)
  /-- A member; the token after its name stands on line `resume`, and that after its value on line
  `after`. -/
  | member (name : Option String) (line resume : Nat) (node : Node) (after : Nat) (rest : Members)

end

/-- The greatest number of containers that a value may be in. -/
def depthLimit : Nat := 127

/-! ## From tokens -/

mutual

/-- Reads a value that is inside `depth` containers. Without a rest of tokens the reading has
stopped at a fault. `steps` bounds the recursion; twice the number of tokens suffices. -/
def readNode (depth : Nat) : (steps : Nat) → Tokens → Node × Option Tokens
  | 0, ts => (.fault (.ofLine ts.line), none)
  | _ + 1, .ends line => (.fault (.ofLine line), none)
  | _ + 1, .breaks b => (.fault b, none)
  | steps + 1, .token t line rest =>
    match t with
    | .null => (.null line, some rest)
    | .bool b => (.bool line b, some rest)
    | .number n => (.number line n, some rest)
    | .text s => (.text line s, some rest)
    | .openList =>
      match rest with
      | .token .closeList close rest => (.list line (depth + 1) (.closed close), some rest)
      | rest =>
        let (items, rest) := readItems (depth + 1) steps rest
        (.list line (depth + 1) items, rest)
    | .openRecord =>
      match rest with
      | .token .closeRecord close rest => (.record line (depth + 1) (.closed close), some rest)
      | rest =>
        let (members, rest) := readMembers (depth + 1) steps rest
        (.record line (depth + 1) members, rest)
    | .closeList | .closeRecord | .colon | .comma => (.fault (.ofLine line), none)

def readItems (depth : Nat) : (steps : Nat) → Tokens → Items × Option Tokens
  | 0, ts => (.fault ts.line, none)
  | steps + 1, ts =>
    match readNode depth steps ts with
    | (node, none) => (.item node ts.line (.fault ts.line), none)
    | (node, some (.token .closeList line rest)) =>
      (.item node line (.closed line), some rest)
    | (node, some (.token .comma _ rest)) =>
      match rest with
      | .token .closeList line _ => (.item node line (.fault line), none)
      | rest =>
        let (items, more) := readItems depth steps rest
        (.item node rest.line items, more)
    | (node, some rest) => (.item node rest.line (.fault rest.line), none)

def readMembers (depth : Nat) : (steps : Nat) → Tokens → Members × Option Tokens
  | 0, ts => (.fault (.ofLine ts.line), none)
  | steps + 1, .token (.text name) line (.token .colon colon rest) =>
    match readNode depth steps rest with
    | (node, none) => (.member name line colon node rest.line (.fault (.ofLine rest.line)), none)
    | (node, some (.token .closeRecord close rest)) =>
      (.member name line colon node close (.closed close), some rest)
    | (node, some (.token .comma after rest)) =>
      match rest with
      | .token .closeRecord close _ =>
        (.member name line colon node after (.fault (.ofLine close)), none)
      | rest =>
        let (members, more) := readMembers depth steps rest
        (.member name line colon node after members, more)
    | (node, some rest) =>
      (.member name line colon node rest.line (.fault (.ofLine rest.line)), none)
  | _ + 1, .token (.text name) line rest =>
    let fault := Break.ofLine rest.line
    (.member name line rest.line (.fault fault) rest.line (.fault fault), none)
  | _ + 1, .breaks b => (.fault b, none)
  | _ + 1, ts => (.fault (.ofLine ts.line), none)

end

/-- The tree of a text and the line of what follows it, if anything does. -/
structure Document where
  root : Node
  trailing : Option Nat

def Document.ofText (cs : List Char) : Document :=
  let ts := Tokens.ofChars cs
  match readNode 0 (2 * ts.size + 2) ts with
  | (node, none) => ⟨node, none⟩
  | (node, some (.ends _)) => ⟨node, none⟩
  | (node, some rest) => ⟨node, some rest.line⟩

/-! ## Values -/

/-- What has a value, or the line of its fault. -/
def orFault (line : Nat) : Option α → Except Nat α
  | some a => .ok a
  | none => .error line

mutual

/-- The value of a tree, or the line of the first fault. -/
def Node.value : Node → Except Nat Json
  | .null _ => .ok .null
  | .bool _ b => .ok (.bool b)
  | .number line n => (orFault line n).map .number
  | .text line s => (orFault line s).map .text
  | .list line depth items =>
    if depth ≤ depthLimit then items.values.map .list else .error line
  | .record line depth members =>
    if depth ≤ depthLimit then members.values.map ofMembers else .error line
  | .fault b => .error b.shown

def Items.values : Items → Except Nat (List Json)
  | .closed _ => .ok []
  | .fault line => .error line
  | .item node _ rest => do
    let v ← node.value
    let vs ← rest.values
    return v :: vs

def Members.values : Members → Except Nat (List (String × Json))
  | .closed _ => .ok []
  | .fault b => .error b.shownAsName
  | .member name line _ node _ rest => do
    let k ← orFault line name
    let v ← node.value
    let vs ← rest.values
    return (k, v) :: vs

end

mutual

/-- Passes over a tree; fails only at a fault of its tokens. -/
def Node.skip : Node → Except Nat Unit
  | .list _ _ items => items.skip
  | .record _ _ members => members.skip
  | .fault b => .error b.passed
  | _ => .ok ()

def Items.skip : Items → Except Nat Unit
  | .closed _ => .ok ()
  | .fault line => .error line
  | .item node _ rest => do
    node.skip
    rest.skip

def Members.skip : Members → Except Nat Unit
  | .closed _ => .ok ()
  | .fault b => .error b.passedAsName
  | .member _ _ _ node _ rest => do
    node.skip
    rest.skip

end

/-- What a reader makes of the whole document. Anything after the value is a fault. -/
def Document.read (read : Node → Except Nat α) (d : Document) : Except Nat α := do
  let a ← read d.root
  match d.trailing with
  | none => return a
  | some line => .error line

/-- The value of a text. -/
def parse (cs : List Char) : Option Json :=
  ((Document.ofText cs).read Node.value).toOption

end Chronicle.Json
