import Chronicle.Text.Blank
import Chronicle.Text.Word

/-!
# Patterns

A small language of text patterns: characters of a class, runs of them, sequence, choice and
conditions on the place between two characters. `Pattern.runs` tries every way to match, so
`occursIn` says whether any part of a text matches.

* `word`, `anyCase`: a fixed text, with or without regard to case.
* `lineStart`, `lineEnd`, `textStart`, `textEnd`, `boundary`: conditions on a place.
-/

namespace Chronicle.Text

inductive Pattern where
  /-- Matches nothing, everywhere. -/
  | empty
  /-- One character of a class. -/
  | one (holds : Char → Bool)
  /-- Any number of characters of a class. -/
  | many (holds : Char → Bool)
  /-- One pattern and then another. -/
  | seq (first second : Pattern)
  /-- Either of two patterns. -/
  | either (left right : Pattern)
  /-- A place, told by the character before it and the one after it. -/
  | place (holds : Option Char → Option Char → Bool)

namespace Pattern

instance : Append Pattern := ⟨seq⟩

/-- A run of the class from here, of any length, after which `goOn` succeeds. -/
def runsMany (holds : Char → Bool) (goOn : Option Char → List Char → Bool)
    (before : Option Char) : List Char → Bool
  | [] => goOn before []
  | c :: cs =>
    (holds c && runsMany holds goOn (some c) cs) || goOn before (c :: cs)

/-- Whether the pattern matches from a place, given the character before it, in a way that lets
`goOn` succeed on the rest. -/
def runs : Pattern → Option Char → List Char → (Option Char → List Char → Bool) → Bool
  | .empty, before, cs, goOn => goOn before cs
  | .one holds, _, cs, goOn =>
    match cs with
    | [] => false
    | c :: rest => holds c && goOn (some c) rest
  | .many holds, before, cs, goOn => runsMany holds goOn before cs
  | .seq first second, before, cs, goOn =>
    first.runs before cs fun before cs => second.runs before cs goOn
  | .either left right, before, cs, goOn => left.runs before cs goOn || right.runs before cs goOn
  | .place holds, before, cs, goOn => holds before cs.head? && goOn before cs

/-- Whether the pattern matches from this place or a later one. -/
def occursAfter (p : Pattern) (before : Option Char) : List Char → Bool
  | [] => p.runs before [] fun _ _ => true
  | c :: cs => p.runs before (c :: cs) (fun _ _ => true) || p.occursAfter (some c) cs

/-- Whether some part of the text matches. -/
def occursIn (p : Pattern) (cs : List Char) : Bool :=
  p.occursAfter none cs

/-! ## Pieces -/

def some1 (holds : Char → Bool) : Pattern :=
  one holds ++ many holds

def optional (p : Pattern) : Pattern :=
  either p empty

def oneOf : List Pattern → Pattern
  | [] => one fun _ => false
  | [p] => p
  | p :: more => either p (oneOf more)

/-- Exactly this text. -/
def word (text : String) : Pattern :=
  text.toList.foldr (fun c p => one (· == c) ++ p) empty

/-- Whether two characters are the same but for case. The long s counts as s and the Kelvin sign as
k; other characters beyond ASCII stand for themselves. -/
def sameLetter (letter c : Char) : Bool :=
  c.toLower == letter.toLower || (letter.toLower == 's' && c == 'ſ') ||
    (letter.toLower == 'k' && c.toNat == 0x212A)

/-- This text in capital or small letters. -/
def anyCase (text : String) : Pattern :=
  text.toList.foldr (fun c p => one (sameLetter c) ++ p) empty

def blanks : Pattern := many isBlank

def blanks1 : Pattern := some1 isBlank

def blank : Pattern := one isBlank

def visible : Pattern := one fun c => !isBlank c

/-- At least one word character. -/
def name : Pattern := some1 isWord

/-- One of these characters. -/
def among (chars : String) : Char → Bool :=
  fun c => chars.toList.contains c

/-- The start of the text or of a line in it. -/
def lineStart : Pattern := place fun before _ => before.all (· == '\n')

/-- The end of the text or of a line in it. -/
def lineEnd : Pattern := place fun _ after => after.all (· == '\n')

def textStart : Pattern := place fun before _ => before.isNone

def textEnd : Pattern := place fun _ after => after.isNone

/-- A place with a word character on exactly one side. -/
def boundary : Pattern := place fun before after => before.any isWord != after.any isWord

end Pattern

end Chronicle.Text
