import Chronicle.Decimal.Notation
import Chronicle.Json.Basic

/-!
# Printed JSON

* `Json.compact`: no space between tokens.
* `Json.pretty`: an item or member a line, indented by two spaces a level; empty containers stay on
  one line.

Both write members in the order in which the value holds them.
-/

namespace Chronicle.Json

def hexDigit (n : Nat) : Char := Nat.digitChar n

/-- A character inside a quoted text. Quotes, backslashes and controls are escaped. -/
def escaped (c : Char) : List Char :=
  if c == '\x22' then ['\\', '\x22']
  else if c == '\\' then ['\\', '\\']
  else if c == '\x08' then ['\\', 'b']
  else if c == '\x0c' then ['\\', 'f']
  else if c == '\n' then ['\\', 'n']
  else if c == '\r' then ['\\', 'r']
  else if c == '\t' then ['\\', 't']
  else if c.toNat < 0x20 then
    ['\\', 'u', '0', '0', hexDigit (c.toNat / 16), hexDigit (c.toNat % 16)]
  else [c]

def quoted (s : String) : List Char :=
  '\x22' :: s.toList.flatMap escaped ++ ['\x22']

def numberText : Number → List Char
  | .int n => intDigits n
  | .float x => x.written

/-- The text of a value that holds no others. -/
def scalarText : Json → List Char
  | null => ['n', 'u', 'l', 'l']
  | bool true => ['t', 'r', 'u', 'e']
  | bool false => ['f', 'a', 'l', 's', 'e']
  | number n => numberText n
  | text s => quoted s
  | list _ => []
  | record _ => []

/-! ## Compact -/

mutual

/-- The characters of a value without any space. -/
def compactChars : Json → List Char
  | list items => '[' :: compactItems items ++ [']']
  | record members => '{' :: compactMembers members ++ ['}']
  | scalar => scalarText scalar

def compactItems : List Json → List Char
  | [] => []
  | [v] => compactChars v
  | v :: vs => compactChars v ++ ',' :: compactItems vs

def compactMembers : List (String × Json) → List Char
  | [] => []
  | [(k, v)] => quoted k ++ ':' :: compactChars v
  | (k, v) :: vs => quoted k ++ ':' :: compactChars v ++ ',' :: compactMembers vs

end

def compact (v : Json) : String := String.ofList (compactChars v)

/-! ## Pretty -/

def newLine (level : Nat) : List Char := '\n' :: List.replicate (2 * level) ' '

mutual

/-- The characters of a value whose first line stands at this level. -/
def prettyChars (level : Nat) : Json → List Char
  | list [] => ['[', ']']
  | list (v :: vs) => '[' :: prettyItems (level + 1) (v :: vs) ++ newLine level ++ [']']
  | record [] => ['{', '}']
  | record (m :: ms) => '{' :: prettyMembers (level + 1) (m :: ms) ++ newLine level ++ ['}']
  | scalar => scalarText scalar

def prettyItems (level : Nat) : List Json → List Char
  | [] => []
  | [v] => newLine level ++ prettyChars level v
  | v :: vs => newLine level ++ prettyChars level v ++ ',' :: prettyItems level vs

def prettyMembers (level : Nat) : List (String × Json) → List Char
  | [] => []
  | [(k, v)] => newLine level ++ quoted k ++ ':' :: ' ' :: prettyChars level v
  | (k, v) :: vs =>
    newLine level ++ quoted k ++ ':' :: ' ' :: prettyChars level v ++ ',' :: prettyMembers level vs

end

/-- The text of a value with an item or member a line. -/
def pretty (v : Json) : String := String.ofList (prettyChars 0 v)

end Chronicle.Json
