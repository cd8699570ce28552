import Chronicle.Text.Blank

/-!
# Lines

A line ends at a line feed, and a carriage return right before the feed belongs to the end and not
to the line. A last line without a feed counts when it is not empty, and keeps its carriage return.

* `linesOf`: the lines of a text.
* `headline`: the first line that is not blank, without surrounding blanks.
-/

namespace Chronicle.Text

/-- The lines of a text, without their ends. -/
def linesOf : List Char → List (List Char)
  | [] => []
  | '\n' :: cs => [] :: linesOf cs
  | '\r' :: '\n' :: cs => [] :: linesOf cs
  | c :: cs =>
    match linesOf cs with
    | [] => [[c]]
    | line :: more => (c :: line) :: more

def joinLines : List (List Char) → List Char
  | [] => []
  | [line] => line
  | line :: more => line ++ '\n' :: joinLines more

/-- The first line that is not blank, without surrounding blanks; empty for a blank text. -/
def headline (text : String) : String :=
  String.ofList (trim ((linesOf (trimStart text.toList)).headD []))

def lineCount (text : String) : Nat :=
  (linesOf text.toList).length

end Chronicle.Text
