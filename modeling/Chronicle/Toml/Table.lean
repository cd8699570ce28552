/-!
# TOML tables

* `Toml`: a value. Of numbers with a fraction and of dates only their kind is kept.
* `Entries.descend`: the table under a path, to be changed there.
* `Entries.define`, `Entries.enter`, `Entries.append`: what a line of a document does, where the
  rules of TOML let it. No key and no table is defined twice.
-/

namespace Chronicle

inductive Toml where
  | text (s : String)
  | int (n : Int)
  | float
  | date
  | bool (b : Bool)
  | list (items : List Toml)
  /-- A table written as a value, which nothing can extend. -/
  | inline (entries : List (String × Toml))
  /-- A table of the document. It is implied until a header names it, and dotted when a dotted key
  has made it. -/
  | table (implied dotted : Bool) (entries : List (String × Toml))
  /-- A list of tables that headers have made. -/
  | tables (items : List Toml)
deriving Inhabited

namespace Toml

/-- The keys of a table with their values. -/
abbrev Entries := List (String × Toml)

namespace Entries

def replace (key : String) (value : Toml) : Entries → Entries
  | [] => []
  | (other, old) :: more =>
    if other == key then (other, value) :: more else (other, old) :: replace key value more

/-- Changes the table under a path. `change` is told whether the table is a dotted one. Tables that
are missing on the way are made, dotted ones if `dotted`; a dotted key may only pass through tables
that are implied. The way through a list of tables is its last one. -/
def descend (dotted : Bool) (change : Bool → Entries → Option Entries) :
    (path : List String) → (isDotted : Bool) → Entries → Option Entries
  | [], isDotted, entries => change isDotted entries
  | key :: path, _, entries =>
    match entries.lookup key with
    | none => do
      let inner ← descend dotted change path dotted []
      return entries ++ [(key, .table true dotted inner)]
    | some (.table implied made inner) =>
      if dotted && !implied then none
      else do
        let inner ← descend dotted change path made inner
        return replace key (.table implied made inner) entries
    | some (.tables items) =>
      match items.reverse with
      | .table implied made inner :: earlier => do
        let inner ← descend dotted change path made inner
        return replace key (.tables (earlier.reverse ++ [.table implied made inner])) entries
      | _ => none
    | some _ => none

/-- Sets a key under a path of a dotted key. -/
def define (path : List String) (key : String) (value : Toml) (entries : Entries) :
    Option Entries :=
  descend true
    (fun isDotted entries =>
      if isDotted == path.isEmpty || (entries.lookup key).isSome then none
      else some (entries ++ [(key, value)]))
    path false entries

/-- Opens the table that a header names, which then stands last. -/
def enter (path : List String) (key : String) (entries : Entries) : Option Entries :=
  descend false
    (fun _ entries =>
      match entries.lookup key with
      | none => some (entries ++ [(key, .table false false [])])
      | some (.table true false inner) =>
        some (entries.filter (·.1 != key) ++ [(key, .table false false inner)])
      | some _ => none)
    path false entries

/-- Appends a table to the list that a header names. -/
def append (path : List String) (key : String) (entries : Entries) : Option Entries :=
  descend false
    (fun _ entries =>
      match entries.lookup key with
      | none => some (entries ++ [(key, .tables [.table false false []])])
      | some (.tables items) =>
        some (replace key (.tables (items ++ [.table false false []])) entries)
      | some _ => none)
    path false entries

end Entries

end Toml

end Chronicle
