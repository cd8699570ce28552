import Chronicle.Decimal.Binary64
import Mathlib.Algebra.Order.Field.Power
import Mathlib.Data.Rat.Cast.Order
import Mathlib.Order.Monotone.Basic
import Mathlib.Tactic.Ring

/-!
# Values of binary floating-point numbers

The total order of binary64 is decided by the bits, and among numbers it is the order of the values
that the bits stand for.

* `value`: the value of a finite number.
* `units`: a magnitude in units of the least positive number. It grows with the bits
  (`strictMono_units`): from one fraction to the next, and from the last fraction of an exponent to
  the first of the next exponent.
* `value_le_iff_orderKey_le`: values are in the order of the bits, up to the sign of zero.
-/

namespace Chronicle.Binary64

def Exact.value (e : Exact) : ℚ := e.mantissa * 2 ^ e.exponent

def value (x : Binary64) : ℚ := if x.isNegative then -x.exact.value else x.exact.value

/-! ## Magnitudes -/

/-- What an exponent and a fraction stand for, in units of the least positive number. -/
def unitsAt (field fraction : Nat) : Nat :=
  if field = 0 then fraction else (fractionCount + fraction) * 2 ^ (field - 1)

def units (magnitude : Nat) : Nat := unitsAt (magnitude / fractionCount) (magnitude % fractionCount)

/-- The value of the least positive number. -/
def unit : ℚ := 2 ^ (-1074 : ℤ)

theorem unit_pos : 0 < unit := zpow_pos two_pos _

theorem value_exact (x : Binary64) : x.exact.value = units x.magnitude * unit := by
  rw [exact, units, unitsAt]
  generalize x.magnitude / fractionCount = field
  by_cases hfield : field = 0
  · simp only [hfield, beq_self_eq_true, if_true, Exact.value, unit]
  · have hexponent : (field : ℤ) - 1075 = ((field - 1 : Nat) : ℤ) + -1074 := by omega
    simp only [beq_eq_false_iff_ne.mpr hfield, hfield, Bool.false_eq_true, if_false, Exact.value]
    rw [hexponent, zpow_add₀ two_ne_zero, zpow_natCast, ← unit, ← mul_assoc]
    push_cast
    rfl

theorem unitsAt_lt_succ {field fraction : Nat} : unitsAt field fraction < unitsAt field (fraction + 1) := by
  unfold unitsAt
  split
  · exact Nat.lt_succ_self fraction
  · exact Nat.mul_lt_mul_of_pos_right (by omega) (Nat.two_pow_pos _)

theorem unitsAt_last_lt (field : Nat) : unitsAt field (fractionCount - 1) < unitsAt (field + 1) 0 := by
  have hcount : 0 < fractionCount := by decide
  cases field with
  | zero =>
    simp only [unitsAt, if_true, Nat.zero_add, Nat.one_ne_zero, if_false]
    omega
  | succ field =>
    simp only [unitsAt, Nat.succ_ne_zero, if_false, Nat.add_sub_cancel, Nat.add_zero, Nat.pow_succ]
    calc (fractionCount + (fractionCount - 1)) * 2 ^ field
        < (fractionCount * 2) * 2 ^ field :=
          Nat.mul_lt_mul_of_pos_right (by omega) (Nat.two_pow_pos _)
      _ = fractionCount * (2 ^ field * 2) := by ring

theorem units_mul_add {field fraction : Nat} (h : fraction < fractionCount) :
    units (fractionCount * field + fraction) = unitsAt field fraction := by
  rw [units, Nat.mul_add_div (by decide), Nat.div_eq_of_lt h, Nat.add_zero, Nat.mul_add_mod,
    Nat.mod_eq_of_lt h]

/-- **Magnitudes grow with the bits.** -/
theorem strictMono_units : StrictMono units := by
  have hcount : 0 < fractionCount := by decide
  refine strictMono_nat_of_lt_succ fun m => ?_
  obtain ⟨field, fraction, hfraction, rfl⟩ : ∃ field fraction, fraction < fractionCount ∧
      m = fractionCount * field + fraction :=
    ⟨m / fractionCount, m % fractionCount, Nat.mod_lt _ hcount, (Nat.div_add_mod _ _).symm⟩
  rw [units_mul_add hfraction]
  -- the next magnitude has the next fraction, or the first one of the next exponent
  rcases Nat.lt_or_ge (fraction + 1) fractionCount with hnext | hlast
  · rw [Nat.add_assoc, units_mul_add hnext]
    exact unitsAt_lt_succ
  · obtain rfl : fraction = fractionCount - 1 := by omega
    have hnext : fractionCount * field + (fractionCount - 1) + 1 =
        fractionCount * (field + 1) + 0 := by
      rw [Nat.mul_succ]
      omega
    rw [hnext, units_mul_add hcount]
    exact unitsAt_last_lt field

/-! ## Order -/

section order
variable {x y : Binary64}

theorem value_of_isNegative (h : x.isNegative = true) : x.value = -(units x.magnitude * unit) := by
  rw [value, if_pos h, value_exact]

theorem value_of_not_isNegative (h : x.isNegative = false) : x.value = units x.magnitude * unit := by
  rw [value, if_neg (by simp [h]), value_exact]

theorem value_le_of_orderKey_le (h : x.orderKey ≤ y.orderKey) : x.value ≤ y.value := by
  have hpos (m : Nat) : (0 : ℚ) ≤ units m * unit := mul_nonneg (Nat.cast_nonneg _) unit_pos.le
  have hmono {m n : Nat} (hmn : m ≤ n) : (units m : ℚ) * unit ≤ units n * unit :=
    mul_le_mul_of_nonneg_right (Nat.cast_le.mpr (strictMono_units.monotone hmn)) unit_pos.le
  unfold orderKey at h
  cases hx : x.isNegative <;> cases hy : y.isNegative <;>
    simp only [hx, hy, if_true, Bool.false_eq_true, if_false] at h
  · rw [value_of_not_isNegative hx, value_of_not_isNegative hy]
    exact hmono (by omega)
  · omega
  · rw [value_of_isNegative hx, value_of_not_isNegative hy]
    exact (neg_nonpos.mpr (hpos _)).trans (hpos _)
  · rw [value_of_isNegative hx, value_of_isNegative hy]
    exact neg_le_neg (hmono (by omega))

theorem value_lt_of_orderKey_lt (hx : x.isNegative = false) (h : x.orderKey < y.orderKey) :
    x.value < y.value := by
  unfold orderKey at h
  cases hy : y.isNegative <;>
    simp only [hx, hy, if_true, Bool.false_eq_true, if_false] at h
  · rw [value_of_not_isNegative hx, value_of_not_isNegative hy]
    exact mul_lt_mul_of_pos_right (Nat.cast_lt.mpr (strictMono_units (by omega))) unit_pos
  · omega

/-- **Numbers up to one that is not negative are told by their values.** -/
theorem value_le_iff_orderKey_le (hy : y.isNegative = false) :
    x.value ≤ y.value ↔ x.orderKey ≤ y.orderKey := by
  refine ⟨fun h => ?_, value_le_of_orderKey_le⟩
  by_contra hlt
  exact absurd h (not_le.mpr (value_lt_of_orderKey_lt hy (by omega)))

end order

end Chronicle.Binary64
