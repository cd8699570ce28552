import Chronicle.Decimal.Shortest

/-!
# Written numbers

* `digitsOf`: a natural number in base ten.
* `Binary64.written`: the text of a finite number. Between `1e-5` and `1e16` it is positional with
  at least one digit after the point, elsewhere it has an exponent with a sign.
-/

namespace Chronicle

def digitsOf (n : Nat) : List Char := Nat.toDigits 10 n

def intDigits (n : Int) : List Char :=
  if n < 0 then '-' :: digitsOf n.natAbs else digitsOf n.natAbs

namespace Decimal

/-- Positional notation, the point set so that a digit stands on either side of it. -/
def positional (digits : List Char) (exponent : Int) : List Char :=
  if 0 ≤ exponent then digits ++ List.replicate exponent.toNat '0' ++ ['.', '0']
  else
    let places := (-exponent).toNat
    if places < digits.length then
      digits.take (digits.length - places) ++ '.' :: digits.drop (digits.length - places)
    else '0' :: '.' :: List.replicate (places - digits.length) '0' ++ digits

/-- One digit before the point, further digits if any after it, and an exponent with its sign. -/
def scientific (digits : List Char) (leading : Int) : List Char :=
  let mantissa :=
    match digits with
    | first :: second :: more => first :: '.' :: second :: more
    | short => short
  mantissa ++ 'e' :: (if leading < 0 then '-' else '+') :: digitsOf leading.natAbs

/-- The text of a decimal: positional when its leading digit counts between `10 ^ -5` and
`10 ^ 15`. -/
def written (d : Decimal) : List Char :=
  let digits := digitsOf d.digits
  let leading := d.exponent + digits.length - 1
  if -5 ≤ leading ∧ leading ≤ 15 then positional digits d.exponent else scientific digits leading

end Decimal

/-- The text of a finite number; zero keeps its sign. -/
def Binary64.written (x : Binary64) : List Char :=
  let magnitude := if x.magnitude == 0 then ['0', '.', '0'] else x.shortest.written
  if x.isNegative then '-' :: magnitude else magnitude

end Chronicle
