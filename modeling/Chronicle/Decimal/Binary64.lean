/-!
# Binary floating-point numbers

A number of binary64 is kept as its 64 bits, so that equality is identity of bits (zeros of either
sign and every NaN are told apart) and order is decided by integers.

* `isFinite`, `isPositive`: read off the bits.
* `orderKey`, `compare`: the total order, from the negative NaNs through the finite numbers to the
  positive NaNs.
* `toFloat`, `ofFloat`: arithmetic.
-/

namespace Chronicle

/-- A binary64 number, by its bits: sign, eleven bits of exponent, fifty-two of fraction. -/
structure Binary64 where
  bits : UInt64
deriving DecidableEq, Inhabited, Repr

namespace Binary64

def toFloat (x : Binary64) : Float := Float.ofBits x.bits

def ofFloat (f : Float) : Binary64 := ⟨f.toBits⟩

/-- The nearest number to an integer. -/
def ofInt (n : Int) : Binary64 := ofFloat (Float.ofInt n)

/-- The value of the sign bit, the highest of the sixty-four. -/
def signBit : Nat := 0x8000000000000000

/-- The bits without the sign. -/
def magnitude (x : Binary64) : Nat := x.bits.toNat % signBit

def isNegative (x : Binary64) : Bool := signBit ≤ x.bits.toNat

/-- The bits of positive infinity: an exponent of ones over a fraction of zeros. -/
def infinityBits : Nat := 0x7FF0000000000000

def isFinite (x : Binary64) : Bool := x.magnitude < infinityBits

/-- A NaN, of either sign. -/
def isNaN (x : Binary64) : Bool := infinityBits < x.magnitude

/-- Greater than zero; infinity is and a NaN is not. -/
def isPositive (x : Binary64) : Bool :=
  !x.isNegative && !x.isNaN && x.magnitude != 0

def zero : Binary64 := ⟨0⟩

def infinity : Binary64 := ⟨0x7FF0000000000000⟩

/-- The positive NaN that arithmetic gives. -/
def nan : Binary64 := ⟨0x7FF8000000000000⟩

def neg (x : Binary64) : Binary64 := ⟨x.bits ^^^ 0x8000000000000000⟩

/-- A number's place in the total order: negative numbers by falling magnitude, then the others by
rising magnitude. -/
def orderKey (x : Binary64) : Int :=
  if x.isNegative then -(x.magnitude : Int) - 1 else x.magnitude

/-- The total order of binary64. -/
protected def compare (x y : Binary64) : Ordering := Ord.compare x.orderKey y.orderKey

instance : Ord Binary64 := ⟨Binary64.compare⟩

/-! ## Exact value -/

/-- A finite non-negative number as `mantissa * 2 ^ exponent`. -/
structure Exact where
  mantissa : Nat
  exponent : Int
  /-- Whether the gap to the number below is half the gap to the number above. -/
  narrowBelow : Bool

/-- Two to the fifty-second, the number of fractions. -/
def fractionCount : Nat := 0x10000000000000

/-- The exact magnitude of a finite number. -/
def exact (x : Binary64) : Exact :=
  let field : Nat := x.magnitude / fractionCount
  let fraction : Nat := x.magnitude % fractionCount
  if field == 0 then ⟨fraction, -1074, false⟩
  else ⟨fractionCount + fraction, (field : Int) - 1075, fraction == 0 && 1 < field⟩

/-- The magnitude rounded to the nearest integer, halves upward. -/
def Exact.round (e : Exact) : Nat :=
  if 0 ≤ e.exponent then e.mantissa * Nat.pow 2 e.exponent.toNat
  else
    let unit := Nat.pow 2 (-e.exponent).toNat
    (2 * e.mantissa + unit) / (2 * unit)

end Binary64

end Chronicle
