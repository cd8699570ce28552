import Chronicle.Decimal.Binary64

/-!
# Reading decimals

Two rules turn decimal digits into a binary64 number.

* `nearest`: the number nearest to `digits * 10 ^ exponent`, ties to even.
* `scaled`: a significand of 64 bits, itself rounded, multiplied or divided once by a rounded power
  of ten. Short decimals come out nearest; long ones may be off by a last bit.
-/

namespace Chronicle.Decimal

def valueOf (digits : List Nat) : Nat :=
  digits.foldl (fun n d => n * 10 + d) 0

/-- The number nearest to `digits * 10 ^ exponent`. Beyond the range of finite numbers that is
infinity, and zero below the smallest. -/
def nearest (digits : Nat) (exponent : Int) : Binary64 :=
  let leading := exponent + (Nat.toDigits 10 digits).length
  if digits == 0 || leading < -400 then .zero
  else if 400 < leading then .infinity
  else if 0 ≤ exponent then .ofFloat (Float.ofScientific digits false exponent.toNat)
  else .ofFloat (Float.ofScientific digits true (-exponent).toNat)

def powerOfTen (n : Nat) : Float := Float.ofScientific 1 false n

/-- `significand / 10 ^ n`; beyond the largest finite power of ten the division is done in steps,
and two of them leave nothing of any significand. -/
def dividedBy (significand : Float) (n : Nat) : Float :=
  if n ≤ 308 then significand / powerOfTen n
  else if n ≤ 616 then significand / powerOfTen 308 / powerOfTen (n - 308)
  else 0

/-- `significand * 10 ^ exponent` with one rounding for each factor; `none` beyond the finite
numbers. -/
def scaled (significand : Nat) (exponent : Int) : Option Binary64 :=
  let f := Float.ofNat significand
  if significand == 0 then some .zero
  else if exponent < 0 then some (.ofFloat (dividedBy f (-exponent).toNat))
  else if 308 < exponent then none
  else
    let x := Binary64.ofFloat (f * powerOfTen exponent.toNat)
    if x.isFinite then some x else none

/-- Two to the sixty-fourth: smaller significands are kept whole. -/
def significandLimit : Nat := 0x10000000000000000

/-- Takes digits before the point into the significand while it stays below the limit. From the
first digit that does not fit on, every digit only raises the exponent. -/
def gatherWhole (significand : Nat) : List Nat → Nat × Int
  | [] => (significand, 0)
  | d :: ds =>
    if significand * 10 + d < significandLimit then gatherWhole (significand * 10 + d) ds
    else (significand, ds.length + 1)

/-- Takes digits after the point into the significand, each lowering the exponent, up to the first
that does not fit. -/
def gatherFraction (significand : Nat) (exponent : Int) : List Nat → Nat × Int
  | [] => (significand, exponent)
  | d :: ds =>
    if significand * 10 + d < significandLimit then
      gatherFraction (significand * 10 + d) (exponent - 1) ds
    else (significand, exponent)

end Chronicle.Decimal
