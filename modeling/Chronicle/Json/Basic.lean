import Chronicle.Decimal.Binary64

/-!
# JSON values

* `Json`: a value. Numbers are integers or finite binary64 numbers, and the two are told apart.
* `Json.insert`, `Json.ofMembers`: records with ascending names, the last of equal names kept.
* `Json.get?`: the member of a record.

Names ascend by code point, which is also the order of their UTF-8 bytes.
-/

namespace Chronicle

/-- A JSON number: integers that fit 64 bits stay integers, all others are binary64. -/
inductive Number where
  | int (n : Int)
  | float (x : Binary64)
deriving DecidableEq, Inhabited

/-- The binary64 number nearest to a JSON number. -/
def Number.toBinary64 : Number → Binary64
  | .int n => .ofInt n
  | .float x => x

inductive Json where
  | null
  | bool (b : Bool)
  | number (n : Number)
  | text (s : String)
  | list (items : List Json)
  | record (members : List (String × Json))
deriving Inhabited

namespace Json

/-! ## Equality -/

mutual

def same : Json → Json → Bool
  | null, null => true
  | bool a, bool b => a == b
  | number a, number b => a == b
  | text a, text b => a == b
  | list as, list bs => sameItems as bs
  | record as, record bs => sameMembers as bs
  | _, _ => false

def sameItems : List Json → List Json → Bool
  | [], [] => true
  | a :: as, b :: bs => same a b && sameItems as bs
  | _, _ => false

def sameMembers : List (String × Json) → List (String × Json) → Bool
  | [], [] => true
  | (k, a) :: as, (l, b) :: bs => k == l && same a b && sameMembers as bs
  | _, _ => false

end

mutual

theorem same_iff (a b : Json) : same a b = true ↔ a = b := by
  cases a <;> cases b <;> simp [same, sameItems_iff, sameMembers_iff]

theorem sameItems_iff (as bs : List Json) : sameItems as bs = true ↔ as = bs := by
  cases as with
  | nil => cases bs <;> simp [sameItems]
  | cons a as => cases bs <;> simp [sameItems, same_iff a, sameItems_iff as]

theorem sameMembers_iff (as bs : List (String × Json)) : sameMembers as bs = true ↔ as = bs := by
  cases as with
  | nil => cases bs <;> simp [sameMembers]
  | cons a as =>
    obtain ⟨k, a⟩ := a
    cases bs with
    | nil => simp [sameMembers]
    | cons b bs => simp [sameMembers, same_iff a, sameMembers_iff as, Prod.ext_iff]

end

instance : DecidableEq Json := fun a b => decidable_of_iff _ (same_iff a b)

/-! ## Records -/

/-- Sets a member, keeping the names ascending. -/
def insert (name : String) (value : Json) : List (String × Json) → List (String × Json)
  | [] => [(name, value)]
  | (other, old) :: more =>
    if name < other then (name, value) :: (other, old) :: more
    else if name = other then (name, value) :: more
    else (other, old) :: insert name value more

/-- The record of these members: names ascend, and of equal names the last counts. -/
def ofMembers (members : List (String × Json)) : Json :=
  record (members.foldl (fun done m => insert m.1 m.2 done) [])

/-- The member of a record with this name; no other value has members. -/
def get? (name : String) : Json → Option Json
  | record members => members.lookup name
  | _ => none

def text? : Json → Option String
  | text s => some s
  | _ => none

def nat? : Json → Option Nat
  | number (.int (.ofNat n)) => some n
  | _ => none

/-- A number of binary64, or null where JSON has no such number. -/
def ofBinary64 (x : Binary64) : Json :=
  if x.isFinite then number (.float x) else null

def ofNat (n : Nat) : Json := number (.int n)

def ofOption : Option Json → Json := (·.getD null)

/-- A member, if there is a value for it. -/
def member? (name : String) (value : Option Json) : List (String × Json) :=
  value.toList.map (name, ·)

/-! ## Nesting -/

mutual

/-- How many containers deep a value is nested; zero for a scalar. -/
def depth : Json → Nat
  | list items => itemsDepth items + 1
  | record members => membersDepth members + 1
  | _ => 0

def itemsDepth : List Json → Nat
  | [] => 0
  | v :: vs => max (depth v) (itemsDepth vs)

def membersDepth : List (String × Json) → Nat
  | [] => 0
  | (_, v) :: vs => max (depth v) (membersDepth vs)

end

end Json

end Chronicle
