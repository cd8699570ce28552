import Chronicle.Decimal.Notation
import Chronicle.Json.Decode
import Chronicle.Text.Line

/-!
# Files of records

A file holds records as one JSON list, if its first character besides blanks opens one, and else one
record a line, with blank lines between them.

* `readText`: the records of a text.
* `readBytes`: the records of a file's bytes, which have to be UTF-8.
-/

namespace Chronicle.RecordFile

inductive Fault where
  /-- Its bytes are no text. -/
  | notText
  /-- What is wrong with it shows on this line. -/
  | badJson (line : Nat)
deriving DecidableEq

def Fault.message : Fault → String
  | notText => "IO error: stream did not contain valid UTF-8"
  | badJson line => "JSON error at line " ++ String.ofList (digitsOf line)

/-- Reads a record at a place in a document; told where to report what shows after it. -/
abbrev Reader (α : Type) := Json.Node → Nat → Except Nat α

def readLine (read : Reader α) (line : List Char) : Option α :=
  ((Json.Document.ofText line).read fun node => read node 0).toOption

/-- The records of lines of which the first has this number. Blank lines are passed over. -/
def readLines (read : Reader α) (number : Nat) : List (List Char) → Except Fault (List α)
  | [] => .ok []
  | line :: more =>
    let line := Text.trim line
    if line.isEmpty then readLines read (number + 1) more
    else
      match readLine read line with
      | none => .error (.badJson number)
      | some record => do
        let records ← readLines read (number + 1) more
        return record :: records

def isList (cs : List Char) : Bool :=
  (Text.trimStart cs).head? == some '['

/-- The records of a text. -/
def readText (read : Reader α) (text : String) : Except Fault (List α) :=
  let cs := text.toList
  if isList cs then ((Json.Document.ofText cs).read (Json.asEach read)).mapError .badJson
  else readLines read 1 (Text.linesOf cs)

/-- The records of a file. -/
def readBytes (read : Reader α) (bytes : ByteArray) : Except Fault (List α) :=
  match String.fromUTF8? bytes with
  | some text => readText read text
  | none => .error .notText

end Chronicle.RecordFile
