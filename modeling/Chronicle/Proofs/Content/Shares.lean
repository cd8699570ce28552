import Chronicle.Content.Shape
import Chronicle.Proofs.Decimal.Rounding

/-!
# Shares of lines

Counts are compared with tenths of other counts by arithmetic of binary64, where the tenths are not
exact and the product is rounded. For three, four and eight tenths of fewer than two to the fiftieth
lines the outcome is that of whole numbers: the number nearest to the tenths is so near that the
product rounds to the bound where the bound is met exactly, and otherwise misses it by too much.

* `IsTenths`: how near.
* `isShare_iff`: the comparison is exact.
* `isShare_self`, `isShare_zero`: all lines are any of these shares, and no lines are none, however
  many there are.
-/

namespace Chronicle.Content

open Rounding

/-! ## Tenths -/

def threeTenths : Normal := ⟨5404319552844595, -54, by decide, by decide, by decide⟩

def fourTenths : Normal := ⟨7205759403792794, -54, by decide, by decide, by decide⟩

def eightTenths : Normal := ⟨7205759403792794, -53, by decide, by decide, by decide⟩

/-- A number that stands for some tenths. Ten times the number is below theirs by at most two parts in
two to the fifty-fourth, and above it by at most one such part of it. -/
structure IsTenths (tenths : Nat) (w : Normal) : Prop where
  holds : Holds (Float.ofScientific tenths true 1) w
  lower : tenths - 2 / 2 ^ 54 ≤ 10 * w.value
  upper : 10 * w.value ≤ tenths * (1 + 1 / 2 ^ 54)
  exponent : -54 ≤ w.exponent ∧ w.exponent ≤ -53

theorem isTenths_three : IsTenths 3 threeTenths where
  holds := rfl
  lower := by norm_num [threeTenths, Normal.value]
  upper := by norm_num [threeTenths, Normal.value]
  exponent := by decide

theorem isTenths_four : IsTenths 4 fourTenths where
  holds := rfl
  lower := by norm_num [fourTenths, Normal.value]
  upper := by norm_num [fourTenths, Normal.value]
  exponent := by decide

theorem isTenths_eight : IsTenths 8 eightTenths where
  holds := rfl
  lower := by norm_num [eightTenths, Normal.value]
  upper := by norm_num [eightTenths, Normal.value]
  exponent := by decide

section
variable {tenths hits total : Nat} {w : Normal}

theorem IsTenths.pos (hw : IsTenths tenths w) : 0 < tenths := by
  have hvalue := w.value_pos
  have hupper := hw.upper
  by_contra hzero
  rw [Nat.eq_zero_of_not_pos hzero, Nat.cast_zero, zero_mul] at hupper
  linarith

theorem IsTenths.value_le_one (hw : IsTenths tenths w) : w.value ≤ 1 := by
  have hpow : (2 : ℚ) ^ w.exponent ≤ 2 ^ (-53 : Int) :=
    zpow_le_zpow_right₀ one_le_two hw.exponent.2
  have hvalue := w.value_lt
  norm_num at hpow hvalue
  linarith

theorem IsTenths.mul_lt (hw : IsTenths tenths w) {y : Normal} (hy : y.value = hits)
    (h : tenths * total ≤ 10 * hits) : total * w.value < y.value + 2 ^ y.exponent / 2 := by
  have hcast : (tenths * total : ℚ) ≤ 10 * hits := by exact_mod_cast h
  have hplace := y.value_lt
  have hupper := mul_le_mul_of_nonneg_left hw.upper (Nat.cast_nonneg (α := ℚ) total)
  rw [hy] at hplace ⊢
  linarith

theorem IsTenths.lt_mul (hw : IsTenths tenths w) {y : Normal} (hy : y.value = hits)
    (hhits : hits < 2 ^ 50) (hbound : total < 2 ^ 50) (h : 10 * hits < tenths * total) :
    y.value + 2 ^ y.exponent / 2 < total * w.value := by
  have hcast : (10 * hits + 1 : ℚ) ≤ tenths * total := by exact_mod_cast h
  have htotal : (total : ℚ) < 2 ^ 50 := by exact_mod_cast hbound
  have hplace : (2 : ℚ) ^ y.exponent ≤ 2 ^ (-3 : Int) := by
    refine zpow_le_zpow_right₀ one_le_two ?_
    by_contra hlt
    have hlarge := y.le_exponent_iff.mp (by omega : -2 ≤ y.exponent)
    have hfew : (hits : ℚ) < 2 ^ 50 := by exact_mod_cast hhits
    rw [hy] at hlarge
    norm_num at hlarge hfew
    linarith
  have hlower := mul_le_mul_of_nonneg_left hw.lower (Nat.cast_nonneg (α := ℚ) total)
  rw [hy]
  norm_num at hplace
  linarith

/-! ## Comparisons -/

/-- **Shares are told exactly**, at the bound as well. -/
theorem IsTenths.isShare_iff (hw : IsTenths tenths w) (htotal : 0 < total) (hbound : total < 2 ^ 50)
    (hhits : hits < 2 ^ 50) : isShare tenths hits total = true ↔ tenths * total ≤ 10 * hits := by
  have hexponent := hw.exponent
  obtain ⟨v, hv, hvtotal, hleast, hmost⟩ :=
    exists_holds_ofNat_of_lt htotal (hbound.trans (by decide))
  obtain ⟨u, hu, hnearest⟩ := hv.mul hw.holds (by omega) (by omega) (by omega)
  rw [hvtotal] at hnearest
  rw [isShare, decide_eq_true_eq]
  rcases Nat.eq_zero_or_pos hits with rfl | hpos
  · have hproduct := Nat.mul_pos hw.pos htotal
    exact iff_of_false hu.not_le_zero (by omega)
  · obtain ⟨y, hy, hyhits, -, hysmall⟩ :=
      exists_holds_ofNat_of_lt hpos (hhits.trans (by decide))
    rw [hu.le_iff hy (by omega)]
    refine ⟨fun hle => ?_, fun hle => hnearest.value_le (hw.mul_lt hyhits hle)⟩
    by_contra hlt
    exact absurd hle (not_le.mpr (hnearest.lt_value (hw.lt_mul hyhits hhits hbound (by omega))))

theorem IsTenths.exists_holds_product (hw : IsTenths tenths w) (htotal : 0 < total) :
    ∃ v u, Holds (Float.ofNat total) v ∧
      Holds (Float.ofNat total * Float.ofScientific tenths true 1) u ∧ u.value ≤ v.value := by
  have hexponent := hw.exponent
  obtain ⟨v, hv, hnearest⟩ := exists_holds_ofNat htotal
  have hone : (1 : ℚ) ≤ v.value := by
    rw [← value_one]
    refine hnearest.le_value ?_
    rw [value_one]
    exact_mod_cast htotal
  have hleast := Normal.le_exponent_of_one_le hone
  obtain ⟨u, hu, hle⟩ := hv.exists_mul_le hw.holds (by omega) (by omega) hw.value_le_one
  exact ⟨v, u, hv, hu, hle⟩

theorem IsTenths.isShare_self (hw : IsTenths tenths w) (htotal : 0 < total) :
    isShare tenths total total = true := by
  obtain ⟨v, u, hv, hu, hle⟩ := hw.exists_holds_product htotal
  exact decide_eq_true (hu.le_of_value_le hv hle)

theorem IsTenths.isShare_zero (hw : IsTenths tenths w) (htotal : 0 < total) :
    isShare tenths 0 total = false := by
  obtain ⟨-, u, -, hu, -⟩ := hw.exists_holds_product htotal
  exact decide_eq_false hu.not_le_zero

end

end Chronicle.Content
