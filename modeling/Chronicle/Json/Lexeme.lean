import Chronicle.Decimal.Reading
import Chronicle.Json.Basic

/-!
# Written numbers and texts of JSON

* `NumberLexeme`: the parts of a written number, the character that may come next
  (`NumberLexeme.extend`) and the number it stands for (`NumberLexeme.value?`).
* `TextLexeme`: the part of a quoted text read so far, with the escapes that are under way.
-/

namespace Chronicle.Json

/-! ## Numbers -/

/-- Which part of a number was read last. -/
inductive NumberPart where
  | minus
  | zero
  | whole
  | point
  | fraction
  | mark
  | sign
  | exponent
deriving DecidableEq

/-- The digits of a written number, the last digit of each part first. -/
structure NumberLexeme where
  part : NumberPart
  negative : Bool := false
  whole : List Nat := []
  fraction : List Nat := []
  exponentNegative : Bool := false
  exponent : List Nat := []

namespace NumberLexeme

def digit? (c : Char) : Option Nat :=
  if c.isDigit then some (c.toNat - '0'.toNat) else none

/-- A number begins with a minus or a digit. -/
def begin? (c : Char) : Option NumberLexeme :=
  if c == '-' then some { part := .minus, negative := true }
  else (digit? c).map fun d => { part := if d == 0 then .zero else .whole, whole := [d] }

def complete (n : NumberLexeme) : Bool :=
  n.part matches .zero | .whole | .fraction | .exponent

/-- The number with one more character, where the grammar allows that character. -/
def extend (n : NumberLexeme) (c : Char) : Option NumberLexeme :=
  match n.part, digit? c with
  | .minus, some d => some { n with part := if d == 0 then .zero else .whole, whole := [d] }
  | .whole, some d => some { n with whole := d :: n.whole }
  | .point, some d | .fraction, some d =>
    some { n with part := .fraction, fraction := d :: n.fraction }
  | .mark, some d | .sign, some d | .exponent, some d =>
    some { n with part := .exponent, exponent := d :: n.exponent }
  | .zero, none | .whole, none =>
    if c == '.' then some { n with part := .point }
    else if c == 'e' || c == 'E' then some { n with part := .mark }
    else none
  | .fraction, none => if c == 'e' || c == 'E' then some { n with part := .mark } else none
  | .mark, none =>
    if c == '+' then some { n with part := .sign }
    else if c == '-' then some { n with part := .sign, exponentNegative := true }
    else none
  | _, _ => none

def isInteger (n : NumberLexeme) : Bool :=
  n.part matches .zero | .whole

def writtenExponent (n : NumberLexeme) : Int :=
  let size := Decimal.valueOf n.exponent.reverse
  if n.exponentNegative then -size else size

/-- The number as binary64; none when it is beyond the finite numbers. -/
def binary64? (n : NumberLexeme) : Option Binary64 :=
  let (head, raised) := Decimal.gatherWhole 0 n.whole.reverse
  let (significand, exponent) := Decimal.gatherFraction head raised n.fraction.reverse
  let magnitude := Decimal.scaled significand (exponent + n.writtenExponent)
  if n.negative then magnitude.map .neg else magnitude

/-- The number that was written. Integers of 64 bits, signed below zero and unsigned above, stay
integers; minus zero does not. -/
def value? (n : NumberLexeme) : Option Number :=
  let size := Decimal.valueOf n.whole.reverse
  if n.isInteger && !n.negative && size < Decimal.significandLimit then some (.int size)
  else if n.isInteger && n.negative && 0 < size && size ≤ Binary64.signBit then some (.int (-size))
  else n.binary64?.map .float

end NumberLexeme

/-! ## Texts -/

/-- How far an escape under way has come. -/
inductive Escape where
  /-- No escape is under way. -/
  | none
  /-- After a backslash. -/
  | opened
  /-- After `\u` and `taken` bytes, which are digits of value `value` while `sound`. -/
  | code (taken value : Nat) (sound : Bool)
deriving DecidableEq

/-- A quoted text read so far. -/
structure TextLexeme where
  /-- The characters, the last one first. -/
  chars : List Char := []
  /-- A leading surrogate that waits for its trailing one. -/
  leading : Option Nat := none
  /-- Whether no surrogate was left alone. -/
  paired : Bool := true
  escape : Escape := .none

/-- What a character does to a quoted text. -/
inductive TextStep where
  | more (lexeme : TextLexeme)
  | done (text : Option String)
  | broken

namespace TextLexeme

/-- Whether the value is the first half of a surrogate pair. -/
def isLeading (n : Nat) : Bool := 0xD800 ≤ n && n < 0xDC00

/-- Whether the value is the second half of a surrogate pair. -/
def isTrailing (n : Nat) : Bool := 0xDC00 ≤ n && n < 0xE000

/-- The text with one more character; a leading surrogate before it is left alone. -/
def add (t : TextLexeme) (c : Char) : TextLexeme :=
  { t with
    chars := c :: t.chars, leading := none, paired := t.paired && t.leading.isNone,
    escape := .none }

/-- The text with one more escaped 16-bit unit. -/
def addUnit (t : TextLexeme) (unit : Nat) : TextLexeme :=
  match t.leading with
  | some first =>
    if isTrailing unit then
      { t with
        chars := Char.ofNat (0x10000 + (first - 0xD800) * 0x400 + (unit - 0xDC00)) :: t.chars,
        leading := none, escape := .none }
    else if isLeading unit then { t with leading := some unit, paired := false, escape := .none }
    else t.add (Char.ofNat unit)
  | none =>
    if isLeading unit then { t with leading := some unit, escape := .none }
    else if isTrailing unit then { t with paired := false, escape := .none }
    else t.add (Char.ofNat unit)

def shortEscape? (c : Char) : Option Char :=
  if c == '\x22' || c == '\\' || c == '/' then some c
  else if c == 'b' then some '\x08'
  else if c == 'f' then some '\x0c'
  else if c == 'n' then some '\n'
  else if c == 'r' then some '\r'
  else if c == 't' then some '\t'
  else none

def hexValue? (c : Char) : Option Nat :=
  if c.isDigit then some (c.toNat - '0'.toNat)
  else if 'a' ≤ c && c ≤ 'f' then some (c.toNat - 'a'.toNat + 10)
  else if 'A' ≤ c && c ≤ 'F' then some (c.toNat - 'A'.toNat + 10)
  else none

/-- The text when its closing quote is met; none when a surrogate was left alone. -/
def finish (t : TextLexeme) : Option String :=
  if t.paired && t.leading.isNone then some (String.ofList t.chars.reverse) else none

/-- One more character of a quoted text. The four bytes after `\u` are taken before any of them is
judged. -/
def step (t : TextLexeme) (c : Char) : TextStep :=
  match t.escape with
  | .none =>
    if c == '\x22' then .done t.finish
    else if c == '\\' then .more { t with escape := .opened }
    else if c.toNat < 0x20 then .broken
    else .more (t.add c)
  | .opened =>
    if c == 'u' then .more { t with escape := .code 0 0 true }
    else
      match shortEscape? c with
      | some e => .more (t.add e)
      | none => .broken
  | .code taken value sound =>
    let taken := taken + c.utf8Size
    let (value, sound) :=
      match hexValue? c with
      | some d => (value * 16 + d, sound)
      | none => (value, false)
    if taken < 4 then .more { t with escape := .code taken value sound }
    else if sound then .more (t.addUnit value)
    else .broken

end TextLexeme

end Chronicle.Json
