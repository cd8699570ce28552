import Chronicle.Text.Blank

/-!
# Control markup

The agent runtime puts blocks of its own into what people and models say. A block runs from an
opening tag to the nearest closing tag of the same kind, across lines.

* `dropBlocks`: a text without its blocks, the earliest block first.
* `strip`: that text, trimmed.
-/

namespace Chronicle.Markup

inductive Kind where
  | reminder
  | caveat
deriving DecidableEq, Repr

def Kind.name : Kind → String
  | reminder => "system-reminder"
  | caveat => "local-command-caveat"

def Kind.opening (k : Kind) : List Char := ('<' :: k.name.toList) ++ ['>']

def Kind.closing (k : Kind) : List Char := ('<' :: '/' :: k.name.toList) ++ ['>']

/-- What is left of `cs` after `tag`, if `cs` begins with it. -/
def after? (tag cs : List Char) : Option (List Char) :=
  if tag.isPrefixOf cs then some (cs.drop tag.length) else none

/-- What is left of `cs` after the first place where `tag` stands. -/
def afterFirst? (tag : List Char) : List Char → Option (List Char)
  | [] => after? tag []
  | c :: cs =>
    match after? tag (c :: cs) with
    | some rest => some rest
    | none => afterFirst? tag cs

/-- What is left of `cs` after the block of this kind that it begins with. -/
def afterBlockOf? (k : Kind) (cs : List Char) : Option (List Char) :=
  (after? k.opening cs).bind (afterFirst? k.closing)

/-- What is left of `cs` after the block that it begins with. -/
def afterBlock? (cs : List Char) : Option (List Char) :=
  (afterBlockOf? .reminder cs).or (afterBlockOf? .caveat cs)

/-- The text without its blocks, past its first `passing` characters. -/
def dropBlocksPast (passing : Nat) : List Char → List Char
  | [] => []
  | c :: cs =>
    match passing, afterBlock? (c :: cs) with
    | passing + 1, _ => dropBlocksPast passing cs
    | 0, some rest => dropBlocksPast (cs.length - rest.length) cs
    | 0, none => c :: dropBlocksPast 0 cs

def dropBlocks (cs : List Char) : List Char := dropBlocksPast 0 cs

theorem dropBlocksPast_eq (passing : Nat) (cs : List Char) :
    dropBlocksPast passing cs = dropBlocks (cs.drop passing) := by
  induction cs generalizing passing with
  | nil => simp [dropBlocks, dropBlocksPast]
  | cons c cs ih =>
    cases passing with
    | zero => rfl
    | succ passing => rw [dropBlocksPast, ih, List.drop_succ_cons]

/-- The text without its blocks and without surrounding blanks. -/
def strip (text : String) : String :=
  String.ofList (Text.trim (dropBlocks text.toList))

end Chronicle.Markup
