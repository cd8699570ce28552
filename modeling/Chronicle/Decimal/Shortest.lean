import Chronicle.Decimal.Binary64

/-!
# Shortest decimals

The fewest decimal digits that identify a binary64 number, and of those the nearest to it.

* `Exact.readsBack`: whether a decimal lies among the reals that round to the number.
* `shortest`: grids of one to seventeen digits are tried in turn; on each the two neighbours of the
  number are candidates.
-/

namespace Chronicle

/-- The decimal `digits * 10 ^ exponent`. -/
structure Decimal where
  digits : Nat
  exponent : Int
deriving DecidableEq, Repr

namespace Decimal

/-- `digits * 10 ^ exponent` compared with `n * 2 ^ j`, by cross multiplication. -/
def compareBinary (d : Decimal) (n : Nat) (j : Int) : Ordering :=
  compare (d.digits * Nat.pow 10 d.exponent.toNat * Nat.pow 2 (-j).toNat)
    (n * Nat.pow 2 j.toNat * Nat.pow 10 (-d.exponent).toNat)

/-- Moves trailing zeros of the digits into the exponent, at most `steps` of them. -/
def dropZeros (d : Decimal) : (steps : Nat) → Decimal
  | 0 => d
  | steps + 1 =>
    if d.digits != 0 && d.digits % 10 == 0 then dropZeros ⟨d.digits / 10, d.exponent + 1⟩ steps
    else d

end Decimal

namespace Binary64

/-- Whether the decimal lies among the reals that round to this number: between the halves of the
way to its two neighbours, ends included exactly when the mantissa is even. -/
def Exact.readsBack (x : Exact) (d : Decimal) : Bool :=
  let low := if x.narrowBelow then 4 * x.mantissa - 1 else 4 * x.mantissa - 2
  let high := 4 * x.mantissa + 2
  let ends := x.mantissa % 2 == 0
  let fromLow := d.compareBinary low (x.exponent - 2)
  let toHigh := d.compareBinary high (x.exponent - 2)
  (fromLow == .gt || (ends && fromLow == .eq)) && (toHigh == .lt || (ends && toHigh == .eq))

/-- Rounds the number down to a whole multiple of `10 ^ grid`. -/
def Exact.floorOn (x : Exact) (grid : Int) : Nat :=
  (x.mantissa * Nat.pow 2 x.exponent.toNat * Nat.pow 10 (-grid).toNat) /
    (Nat.pow 2 (-x.exponent).toNat * Nat.pow 10 grid.toNat)

/-- Raises `scale` until the number is below `10 ^ scale`, at most `steps` times. -/
def Exact.raiseScale (x : Exact) (scale : Int) : (steps : Nat) → Int
  | 0 => scale
  | steps + 1 =>
    if (Decimal.mk 1 scale).compareBinary x.mantissa x.exponent == .gt then scale
    else x.raiseScale (scale + 1) steps

/-- The least power of ten above the number, found from its binary logarithm. -/
def Exact.scale (x : Exact) : Int :=
  let log2 := (x.mantissa.log2 : Int) + x.exponent
  x.raiseScale (Int.fdiv (log2 * 30103) 100000 - 1) 4

/-- The better of the number's two neighbours on a grid, if either reads back. Of two that do the
nearer is taken, and the even one if they are equally near. -/
def Exact.onGrid (x : Exact) (grid : Int) : Option Decimal :=
  let floor := x.floorOn grid
  let below : Decimal := ⟨floor, grid⟩
  let above : Decimal := ⟨floor + 1, grid⟩
  match x.readsBack below, x.readsBack above with
  | true, true =>
    match (Decimal.mk (2 * floor + 1) grid).compareBinary (2 * x.mantissa) x.exponent with
    | .gt => some below
    | .lt => some above
    | .eq => if floor % 2 == 0 then some below else some above
  | true, false => some below
  | false, true => some above
  | false, false => none

/-- The exact decimal value of a number that no grid tried can hold. -/
def Exact.decimal (x : Exact) : Decimal :=
  ⟨x.mantissa * Nat.pow 2 x.exponent.toNat * Nat.pow 5 (-x.exponent).toNat, min x.exponent 0⟩

/-- The shortest decimal that reads back as the magnitude of a finite number other than zero. -/
def shortest (x : Binary64) : Decimal :=
  let e := x.exact
  let scale := e.scale
  match (List.range 17).findSome? fun (n : Nat) => e.onGrid (scale - (n + 1)) with
  | some d => d.dropZeros 20
  | none => e.decimal

end Binary64

end Chronicle
