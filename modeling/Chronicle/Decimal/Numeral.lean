import Chronicle.Decimal.Reading

/-!
# Numerals

`numeral?` reads a text as a binary64 number: an optional sign before digits with an optional point
and an optional exponent, or before the words for infinity and NaN in any case. Digits may be
missing on one side of the point but not on both.
-/

namespace Chronicle.Decimal

def digitValue (c : Char) : Nat := c.toNat - '0'.toNat

def splitDigits (cs : List Char) : List Nat × List Char :=
  ((cs.takeWhile Char.isDigit).map digitValue, cs.dropWhile Char.isDigit)

/-- A sign, if there is one: whether it is a minus, and the rest. -/
def splitSign : List Char → Bool × List Char
  | '-' :: cs => (true, cs)
  | '+' :: cs => (false, cs)
  | cs => (false, cs)

/-- The exponent that a whole text is: none of it, or a mark and at least one digit. -/
def exponent? : List Char → Option Int
  | [] => some 0
  | c :: cs =>
    let (negative, cs) := splitSign cs
    let (digits, rest) := splitDigits cs
    if (c == 'e' || c == 'E') && !digits.isEmpty && rest.isEmpty then
      some (if negative then -(valueOf digits) else valueOf digits)
    else none

/-- A number without a sign. -/
def magnitude? (cs : List Char) : Option Binary64 :=
  let lower := cs.map Char.toLower
  if lower == "inf".toList || lower == "infinity".toList then some .infinity
  else if lower == "nan".toList then some .nan
  else
    let (whole, rest) := splitDigits cs
    let (fraction, rest) :=
      match rest with
      | '.' :: rest => splitDigits rest
      | rest => ([], rest)
    if whole.isEmpty && fraction.isEmpty then none
    else (exponent? rest).map fun e => nearest (valueOf (whole ++ fraction)) (e - fraction.length)

/-- The number nearest to a written one. -/
def numeral? (cs : List Char) : Option Binary64 :=
  let (negative, cs) := splitSign cs
  if negative then (magnitude? cs).map .neg else magnitude? cs

end Chronicle.Decimal
