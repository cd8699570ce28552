import Chronicle.Json.Document
import Chronicle.Text.Line
import Chronicle.Text.Word

/-!
# Shapes of text

What a tool was given or gave back is read as JSON, as a patch, as a listing with line numbers, or
as plain text, in that order.

* `holdsJson`, `isPatch`, `isListing`: the three tests.
* `Shape.of`: the shape of a text.
* `withoutNumbers`: a listing without its line numbers.
* `reportsFailure`: whether the outcome of a tool tells of a failure.

The tests on lines compare counts with tenths of the lines that are not blank.
-/

namespace Chronicle.Content

open Text

/-- How a text is to be read. -/
inductive Shape where
  | json
  | diff
  | lineNumbered
  | text
deriving DecidableEq, Repr

def Shape.tag : Shape → String
  | json => "json"
  | diff => "diff"
  | lineNumbered => "line_numbered"
  | text => "text"

def beginsWith (start : String) (cs : List Char) : Bool := start.toList.isPrefixOf cs

theorem beginsWith_cons_of_ne {start : String} {c d : Char} {cs : List Char}
    (hstart : start.toList.head? = some d) (hne : d ≠ c) : beginsWith start (c :: cs) = false := by
  obtain ⟨more, hmore⟩ := List.head?_eq_some_iff.mp hstart
  rw [beginsWith, hmore]
  show (d == c && more.isPrefixOf cs) = false
  rw [beq_false_of_ne hne, Bool.false_and]

/-- At least `tenths` tenths of `total`, by the arithmetic of binary64: the tenths are the number
nearest to them, and their product with the total is rounded. -/
def isShare (tenths hits total : Nat) : Bool :=
  Float.ofNat total * Float.ofScientific tenths true 1 ≤ Float.ofNat hits

/-- The lines of a text that are not blank. -/
def visibleLines (cs : List Char) : List (List Char) :=
  (linesOf cs).filter fun line => !line.all isBlank

/-! ## JSON -/

/-- A JSON list or record, with any blanks around it. -/
def holdsJson (text : String) : Bool :=
  let cs := trim text.toList
  match cs with
  | c :: _ :: _ => (c == '{' || c == '[') && (Json.parse cs).isSome
  | _ => false

/-! ## Patches -/

/-- How the first line of a patch begins. -/
def patchOpenings : List String := ["diff --git ", "--- ", "+++ ", "@@ ", "Index: "]

/-- A line of a patch: a hunk's header, or one line added or removed. -/
def isPatchLine (line : List Char) : Bool :=
  beginsWith "@@" line || (beginsWith "+" line && !beginsWith "++" line) ||
    (beginsWith "-" line && !beginsWith "--" line)

/-- A text that begins like a patch, or has three lines or more of which three tenths are a
patch's. -/
def isPatch (text : String) : Bool :=
  let cs := text.toList
  let lines := visibleLines cs
  patchOpenings.any (beginsWith · cs) ||
    (3 ≤ (linesOf cs).length && !lines.isEmpty && isShare 3 (lines.countP isPatchLine) lines.length)

/-! ## Line numbers -/

/-- What may stand between a line number and its line. -/
def isSeparator (c : Char) : Bool := c == '→' || c == '\t' || c == ':'

/-- The line after its number: blanks, digits, and a separator. -/
def afterNumber? (line : List Char) : Option (List Char) :=
  let number := line.dropWhile isBlank
  match number.dropWhile isDigit with
  | c :: rest => if (number.head?.any isDigit) && isSeparator c then some rest else none
  | [] => none

/-- A text of two lines or more of which four tenths have a number. -/
def isListing (text : String) : Bool :=
  let cs := text.toList
  let lines := visibleLines cs
  2 ≤ (linesOf cs).length && !lines.isEmpty &&
    isShare 4 (lines.countP fun line => (afterNumber? line).isSome) lines.length

def withoutNumbers (text : String) : String :=
  String.ofList (joinLines ((linesOf text.toList).map fun line => (afterNumber? line).getD line))

/-! ## Classification -/

def Shape.of (text : String) : Shape :=
  if holdsJson text then json
  else if isPatch text then diff
  else if isListing text then lineNumbered
  else Shape.text

def isWithin (part : List Char) : List Char → Bool
  | [] => part.isEmpty
  | c :: cs => part.isPrefixOf (c :: cs) || isWithin part cs

/-- An outcome that tells of a failure: it begins with an error, or mentions an exit code or a
failed command. -/
def reportsFailure (outcome : String) : Bool :=
  let cs := outcome.toList
  beginsWith "Error:" cs || beginsWith "FAILED" cs || isWithin "exit code".toList cs ||
    isWithin "Command failed".toList cs

end Chronicle.Content
