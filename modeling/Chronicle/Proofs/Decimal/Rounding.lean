import Chronicle.Decimal.Binary64
import Mathlib

/-!
# Rounding of positive numbers

Arithmetic of binary64 works a product out in full and rounds it to 53 significant bits. For positive
numbers that are not too small the outcome is the nearest number that has so many bits.

* `Normal`: a number of 53 significant bits. Such numbers are compared by their exponents first, and
  that is the order of their values (`Normal.le_unpacked_iff`).
* `Represents`: what a mantissa stands for together with the two bits that tell what was cut off.
  Halving keeps it, and the rounded mantissa is at most one half away.
* `IsNearest`, `exists_isNearest`: what is rounded becomes a nearest number.
* `Holds`: a float and the number in it, infinite if the number is too large. Natural numbers,
  products and comparisons of floats are told by it.
-/

namespace Chronicle.Rounding

open Float.Model Float.Model.UnpackedFloat

theorem two_zpow_pos (e : Int) : (0 : ℚ) < 2 ^ e := zpow_pos two_pos e

/-! ## Numbers of 53 bits -/

/-- A positive number of 53 significant bits. Unlike a float it may be as large as it likes. -/
structure Normal where
  mantissa : Nat
  exponent : Int
  full : 2 ^ 52 ≤ mantissa
  short : mantissa < 2 ^ 53
  large : -1074 ≤ exponent

namespace Normal

def value (v : Normal) : ℚ := v.mantissa * 2 ^ v.exponent

theorem mantissa_pos (v : Normal) : 0 < v.mantissa := Nat.lt_of_lt_of_le (by decide) v.full

def unpacked (v : Normal) : UnpackedFloat :=
  .finite .positive v.mantissa v.exponent v.mantissa_pos

/-- The number as it is kept: beyond the largest exponent it is infinite. -/
def stored (v : Normal) : UnpackedFloat :=
  if v.exponent ≤ 971 then v.unpacked else .infinity .positive

theorem le_value (v : Normal) : 2 ^ 52 * 2 ^ v.exponent ≤ v.value :=
  mul_le_mul_of_nonneg_right (by exact_mod_cast v.full) (two_zpow_pos _).le

theorem value_lt (v : Normal) : v.value < 2 ^ 53 * 2 ^ v.exponent :=
  mul_lt_mul_of_pos_right (by exact_mod_cast v.short) (two_zpow_pos _)

theorem value_pos (v : Normal) : 0 < v.value :=
  mul_pos (by exact_mod_cast v.mantissa_pos) (two_zpow_pos _)

theorem value_lt_of_exponent_lt (v : Normal) {e : Int} (h : v.exponent < e) :
    v.value < 2 ^ 52 * 2 ^ e := by
  have hpow : (2 : ℚ) ^ (v.exponent + 1) ≤ 2 ^ e := zpow_le_zpow_right₀ one_le_two h
  rw [zpow_add_one₀ two_ne_zero] at hpow
  linarith [v.value_lt]

theorem le_exponent_iff (v : Normal) {e : Int} : e ≤ v.exponent ↔ 2 ^ 52 * 2 ^ e ≤ v.value := by
  refine ⟨fun h => ?_, fun h => ?_⟩
  · have hpow : (2 : ℚ) ^ e ≤ 2 ^ v.exponent := zpow_le_zpow_right₀ one_le_two h
    linarith [v.le_value]
  · by_contra hlt
    exact absurd h (not_le.mpr (v.value_lt_of_exponent_lt (not_le.mp hlt)))

variable {v w : Normal}

theorem le_exponent_of_one_le (h : 1 ≤ v.value) : -52 ≤ v.exponent := by
  have hone : (2 ^ 52 * 2 ^ (-52 : Int) : ℚ) = 1 := by norm_num
  exact v.le_exponent_iff.mpr (hone.trans_le h)

theorem exponent_le_of_value_lt (h : v.value < 2 ^ 53) : v.exponent ≤ 0 := by
  have htop : (2 ^ 52 * 2 ^ (1 : Int) : ℚ) = 2 ^ 53 := by norm_num
  by_contra hlt
  exact absurd h (not_lt.mpr (htop.symm.trans_le (v.le_exponent_iff.mp (by omega))))

theorem le_unpacked_iff : v.unpacked.le w.unpacked = true ↔ v.value ≤ w.value := by
  have hcompare : v.unpacked.le w.unpacked =
      ((compare v.exponent w.exponent).then (compare v.mantissa w.mantissa)).isLE := rfl
  rw [hcompare]
  rcases lt_trichotomy v.exponent w.exponent with hlt | heq | hgt
  · rw [Int.compare_eq_lt.mpr hlt]
    exact iff_of_true rfl ((v.value_lt_of_exponent_lt hlt).le.trans w.le_value)
  · rw [Int.compare_eq_eq.mpr heq, value, value, heq, mul_le_mul_iff_left₀ (two_zpow_pos _),
      Nat.cast_le]
    exact Nat.isLE_compare
  · rw [Int.compare_eq_gt.mpr hgt]
    have hvalue := (w.value_lt_of_exponent_lt hgt).trans_le v.le_value
    exact iff_of_false Bool.false_ne_true (not_le.mpr hvalue)

theorem exists_value_eq (v : Normal) {e : Int} (h : e ≤ v.exponent) :
    ∃ k : Nat, v.value = k * 2 ^ e := by
  refine ⟨v.mantissa * 2 ^ (v.exponent - e).toNat, ?_⟩
  have hexponent : v.exponent = ((v.exponent - e).toNat : Int) + e := by omega
  rw [value]
  conv => lhs; rw [hexponent]
  rw [zpow_add₀ two_ne_zero, zpow_natCast]
  push_cast
  ring

theorem add_unit_le (h : v.value < w.value) : v.value + 2 ^ v.exponent ≤ w.value := by
  rcases le_or_gt v.exponent w.exponent with hle | hgt
  · obtain ⟨k, hk⟩ := w.exists_value_eq hle
    rw [hk, value] at h ⊢
    have hlt : v.mantissa < k := by exact_mod_cast lt_of_mul_lt_mul_right h (two_zpow_pos _).le
    have hsucc : (v.mantissa + 1 : ℚ) ≤ k := by exact_mod_cast hlt
    calc (v.mantissa : ℚ) * 2 ^ v.exponent + 2 ^ v.exponent
      _ = (v.mantissa + 1) * 2 ^ v.exponent := by ring
      _ ≤ k * 2 ^ v.exponent := mul_le_mul_of_nonneg_right hsucc (two_zpow_pos _).le
  · have hbelow := (w.value_lt_of_exponent_lt hgt).trans_le v.le_value
    exact absurd h hbelow.not_gt

theorem exists_value_eq_add_unit (v : Normal) :
    ∃ w : Normal, w.value = v.value + 2 ^ v.exponent := by
  rcases Nat.lt_or_ge (v.mantissa + 1) (2 ^ 53) with hlt | hge
  · refine ⟨⟨v.mantissa + 1, v.exponent, by have := v.full; omega, hlt, v.large⟩, ?_⟩
    simp only [value]
    push_cast
    ring
  · -- the mantissas are used up, and the next number has the least one of the next exponent
    have hlast : v.mantissa = 2 ^ 53 - 1 := by have := v.short; omega
    refine ⟨⟨2 ^ 52, v.exponent + 1, le_rfl, by decide, by have := v.large; omega⟩, ?_⟩
    simp only [value, hlast]
    rw [zpow_add_one₀ two_ne_zero]
    norm_num
    ring

end Normal

/-! ## Nearest numbers -/

/-- No number is nearer to this value. -/
def IsNearest (x : ℚ) (v : Normal) : Prop := ∀ w : Normal, |v.value - x| ≤ |w.value - x|

section
variable {x : ℚ} {v w : Normal}

theorem IsNearest.value_eq (h : IsNearest w.value v) : v.value = w.value := by
  have hzero := h w
  rw [sub_self, abs_zero] at hzero
  exact sub_eq_zero.mp (abs_nonpos_iff.mp hzero)

theorem IsNearest.value_le (h : IsNearest x v) (hx : x < w.value + 2 ^ w.exponent / 2) :
    v.value ≤ w.value := by
  by_contra hlt
  have hnext := Normal.add_unit_le (not_le.mp hlt)
  have hpos := two_zpow_pos w.exponent
  have hnear := h w
  rw [abs_of_pos (by linarith), le_abs] at hnear
  rcases hnear with hnear | hnear <;> linarith

theorem IsNearest.le_value (h : IsNearest x v) (hx : w.value ≤ x) : w.value ≤ v.value := by
  by_contra hlt
  have hnear := h w
  rw [abs_of_neg (by linarith), abs_of_nonpos (by linarith)] at hnear
  linarith

theorem IsNearest.lt_value (h : IsNearest x v) (hx : w.value + 2 ^ w.exponent / 2 < x) :
    w.value < v.value := by
  by_contra hle
  rw [not_lt] at hle
  obtain ⟨next, hnext⟩ := w.exists_value_eq_add_unit
  have hpos := two_zpow_pos w.exponent
  have hnear := h next
  rw [hnext, abs_of_neg (by linarith), le_abs] at hnear
  rcases hnear with hnear | hnear <;> linarith

end

/-! ## Mantissas that were cut -/

/-- What a mantissa stands for with its two bits: the first is the bit after the mantissa, and the
second tells whether anything comes after that. -/
def Represents (em : ExtendedMantissa) (x : ℚ) : Prop :=
  match em.roundBit, em.stickyBit with
  | false, false => x = em.mantissa
  | false, true => em.mantissa < x ∧ x < em.mantissa + 1 / 2
  | true, false => x = em.mantissa + 1 / 2
  | true, true => em.mantissa + 1 / 2 < x ∧ x < em.mantissa + 1

section
variable {em : ExtendedMantissa} {x : ℚ}

theorem Represents.shiftRightOne (h : Represents em x) : Represents em.shiftRightOne (x / 2) := by
  obtain ⟨m, round, sticky⟩ := em
  have hmantissa : (m : ℚ) = 2 * (m / 2 : Nat) + (m % 2 : Nat) := by
    exact_mod_cast (Nat.div_add_mod m 2).symm
  rcases Nat.mod_two_eq_zero_or_one m with hbit | hbit <;> rw [hbit] at hmantissa <;>
    cases round <;> cases sticky <;>
    simp only [Represents, ExtendedMantissa.shiftRightOne, hbit] at h ⊢ <;>
    grind

theorem Represents.shiftRight (h : Represents em x) (n : Nat) :
    Represents (em >>> n) (x / 2 ^ n) := by
  induction n with
  | zero =>
    rw [pow_zero, div_one]
    exact h
  | succ n ih =>
    rw [pow_succ, ← div_div]
    exact ih.shiftRightOne

theorem Represents.abs_roundedMantissa_sub_le (h : Represents em x) :
    |(em.roundedMantissa : ℚ) - x| ≤ 1 / 2 := by
  obtain ⟨m, round, sticky⟩ := em
  have hbit : ((m % 2 : Nat) : ℚ) = 0 ∨ ((m % 2 : Nat) : ℚ) = 1 := by
    exact_mod_cast Nat.mod_two_eq_zero_or_one m
  rw [abs_le]
  cases round <;> cases sticky <;>
    simp only [Represents, ExtendedMantissa.roundedMantissa, ExtendedMantissa.accuracy,
      Accuracy.roundToNearestEven] at h ⊢ <;>
    push_cast <;>
    grind

theorem abs_sub_le_of_abs_sub_le_half {r : Nat} (h : |(r : ℚ) - x| ≤ 1 / 2) (k : Nat) :
    |(r : ℚ) - x| ≤ |(k : ℚ) - x| := by
  rcases eq_or_ne r k with rfl | hne
  · exact le_rfl
  · have hapart : (1 : ℚ) ≤ |(r : ℚ) - k| := by
      have hint : (1 : Int) ≤ |(r : Int) - k| := Int.one_le_abs (by omega)
      exact_mod_cast hint
    have htriangle := abs_sub_le (r : ℚ) x k
    rw [abs_sub_comm x] at htriangle
    linarith

end

/-! ## Rounding -/

section
variable {m s : Nat} {e : Int}

theorem shiftToTargetExponent_eq (hlog : m.log2 = 52 + s) (he : -1074 ≤ e + s) :
    shiftToTargetExponent .binary64 m e .exact =
      ((⟨m, false, false⟩ : ExtendedMantissa) >>> s, e + s) := by
  have hshift : (Format.binary64.targetExponent (totalExponent m e) - e).toNat = s := by
    have htarget : Format.binary64.targetExponent (totalExponent m e) =
        max ((m.log2 : Int) + 1 + e - 53) (-1074) := rfl
    omega
  rw [shiftToTargetExponent, shiftToExponent, hshift]
  rfl

theorem exists_roundWithAccuracy_eq (hlog : m.log2 = 52 + s) (he : -1074 ≤ e + s) {r : Nat}
    (hr : ((⟨m, false, false⟩ : ExtendedMantissa) >>> s).roundedMantissa = r) (hfull : 2 ^ 52 ≤ r)
    (hmost : r ≤ 2 ^ 53) :
    ∃ v : Normal, roundWithAccuracy .binary64 .positive m e .exact = v.unpacked ∧
      v.value = r * 2 ^ (e + s) := by
  rw [roundWithAccuracy, shiftToTargetExponent_eq hlog he]
  simp only [hr]
  rcases Nat.lt_or_eq_of_le hmost with hlt | rfl
  · refine ⟨⟨r, e + s, hfull, hlt, he⟩, ?_, rfl⟩
    have hlog' : r.log2 = 52 + 0 := (Nat.log2_eq_iff (by omega)).mpr ⟨hfull, hlt⟩
    simp only [shiftToTargetExponent_eq hlog' (e := e + s) (by omega), Nat.cast_zero, add_zero]
    exact dif_neg (Nat.pos_iff_ne_zero.mp (Nat.lt_of_lt_of_le (by decide) hfull))
  · have hlog' : (2 ^ 53).log2 = 52 + 1 := by decide
    refine ⟨⟨2 ^ 52, e + s + 1, le_rfl, by decide, by omega⟩, ?_, ?_⟩
    · simp only [shiftToTargetExponent_eq hlog' (e := e + s) (by omega)]
      rfl
    · simp only [Normal.value]
      rw [zpow_add_one₀ two_ne_zero]
      norm_num
      ring

end

theorem isNearest_of_abs_sub_le_half {v : Normal} {r : Nat} {unit : Int} {x : ℚ}
    (hv : v.value = r * 2 ^ unit) (hhalf : |(r : ℚ) - x| ≤ 1 / 2) (hx : 2 ^ 52 ≤ x) :
    IsNearest (x * 2 ^ unit) v := by
  intro w
  have hunit := two_zpow_pos unit
  have hgrid (k : Nat) : |v.value - x * 2 ^ unit| ≤ |(k : ℚ) * 2 ^ unit - x * 2 ^ unit| := by
    rw [hv, ← sub_mul, ← sub_mul, abs_mul, abs_mul, abs_of_pos hunit]
    exact mul_le_mul_of_nonneg_right (abs_sub_le_of_abs_sub_le_half hhalf k) hunit.le
  -- the other number is a multiple of the unit, or it lies below the least multiple in question
  rcases le_or_gt unit w.exponent with hle | hgt
  · obtain ⟨k, hk⟩ := w.exists_value_eq hle
    rw [hk]
    exact hgrid k
  · have hlow := w.value_lt_of_exponent_lt hgt
    have hleast : 2 ^ 52 * 2 ^ unit ≤ x * 2 ^ unit := mul_le_mul_of_nonneg_right hx hunit.le
    have hnear := hgrid (2 ^ 52)
    rw [Nat.cast_pow, Nat.cast_ofNat] at hnear
    rw [abs_of_nonpos (sub_nonpos.mpr hleast)] at hnear
    rw [abs_of_neg (sub_neg.mpr (hlow.trans_le hleast))]
    linarith

section
variable {m s : Nat} {e : Int}

theorem div_two_pow_bounds (hlog : m.log2 = 52 + s) :
    2 ^ 52 ≤ (m : ℚ) / 2 ^ s ∧ (m : ℚ) / 2 ^ s < 2 ^ 53 := by
  have hm : m ≠ 0 := by
    rintro rfl
    rw [Nat.log2_zero] at hlog
    omega
  obtain ⟨hlower, hupper⟩ := (Nat.log2_eq_iff hm).mp hlog
  rw [Nat.add_right_comm] at hupper
  have hpow : (0 : ℚ) < 2 ^ s := pow_pos two_pos s
  rw [le_div_iff₀ hpow, div_lt_iff₀ hpow, ← pow_add, ← pow_add]
  exact ⟨by exact_mod_cast hlower, by exact_mod_cast hupper⟩

/-- **What is rounded becomes a nearest number.** -/
theorem exists_isNearest (hlog : m.log2 = 52 + s) (he : -1074 ≤ e + s) :
    ∃ v : Normal, roundWithAccuracy .binary64 .positive m e .exact = v.unpacked ∧
      IsNearest (m * 2 ^ e) v := by
  obtain ⟨hleast, hmost⟩ := div_two_pow_bounds hlog
  obtain ⟨r, hr⟩ : ∃ r, ((⟨m, false, false⟩ : ExtendedMantissa) >>> s).roundedMantissa = r := ⟨_, rfl⟩
  have hhalf : |(r : ℚ) - m / 2 ^ s| ≤ 1 / 2 := by
    have hrepresents : Represents ⟨m, false, false⟩ m := rfl
    rw [← hr]
    exact (hrepresents.shiftRight s).abs_roundedMantissa_sub_le
  obtain ⟨hbelow, habove⟩ := abs_le.mp hhalf
  have hrfull : 2 ^ 52 < r + 1 := by
    have hcast : (2 ^ 52 : ℚ) < r + 1 := by linarith
    exact_mod_cast hcast
  have hrmost : r < 2 ^ 53 + 1 := by
    have hcast : (r : ℚ) < 2 ^ 53 + 1 := by linarith
    exact_mod_cast hcast
  obtain ⟨v, hv, hvalue⟩ := exists_roundWithAccuracy_eq hlog he hr (by omega) (by omega)
  have hunits : (m * 2 ^ e : ℚ) = m / 2 ^ s * 2 ^ (e + s) := by
    rw [zpow_add₀ two_ne_zero, zpow_natCast, mul_comm (2 ^ e : ℚ), ← mul_assoc,
      div_mul_cancel₀ _ (pow_ne_zero s two_ne_zero)]
  refine ⟨v, hv, ?_⟩
  rw [hunits]
  exact isNearest_of_abs_sub_le_half hvalue hhalf hleast

end

/-! ## Packed numbers -/

theorem toNat_append_one {m : Nat} (hfull : 2 ^ 52 ≤ m) (hshort : m < 2 ^ 53) :
    (1#1 ++ BitVec.ofNat 52 m).toNat = m := by
  rw [BitVec.toNat_append, ← Nat.shiftLeft_add_eq_or_of_lt (BitVec.isLt _), Nat.shiftLeft_eq,
    BitVec.toNat_ofNat, BitVec.toNat_ofNat]
  omega

theorem unpack_packComponents (v : Normal) (h : v.exponent ≤ 971) :
    UnpackedFloat.unpack .binary64 (packComponents .binary64 .positive
      (.ofNat 11 (v.exponent + 1075).toNat) (.ofNat 52 v.mantissa)) = v.unpacked := by
  have hlarge := v.large
  have hexponent : (BitVec.ofNat 11 (v.exponent + 1075).toNat).toNat = (v.exponent + 1075).toNat := by
    rw [BitVec.toNat_ofNat, Nat.mod_eq_of_lt (by omega)]
  -- neither zero nor the infinite numbers have such an exponent
  have hne (b : BitVec 11) (hb : b.toNat = 0 ∨ b.toNat = 2047) :
      BitVec.ofNat 11 (v.exponent + 1075).toNat ≠ b := by
    rintro rfl
    rw [hexponent] at hb
    omega
  rw [UnpackedFloat.unpack]
  simp only [unpackExponent_packComponents, unpackMantissa_packComponents,
    unpackSign_packComponents, Sign.ofBitVec_toBitVec, if_neg (hne (-1#11) (.inr rfl)),
    if_neg (hne 0#11 (.inl rfl)), Normal.unpacked]
  congr 1
  · exact toNat_append_one v.full v.short
  · rw [hexponent]
    show ((v.exponent + 1075).toNat : Int) - 1075 = v.exponent
    omega

theorem unpack_pack (v : Normal) : (Float.Model.pack v.unpacked).unpack = v.stored := by
  have hlog : v.mantissa.log2 = 52 :=
    (Nat.log2_eq_iff (Nat.pos_iff_ne_zero.mp v.mantissa_pos)).mpr ⟨v.full, v.short⟩
  have hbiased : v.exponent + (Format.binary64.exponentBias : Int) +
      (Format.binary64.mantissaBitsWithoutImplicit : Int) = v.exponent + 1075 := by
    have hbias : (Format.binary64.exponentBias : Int) = 1023 := rfl
    have hbits : (Format.binary64.mantissaBitsWithoutImplicit : Int) = 52 := rfl
    rw [hbias, hbits]
    omega
  have hpack : UnpackedFloat.pack .binary64 v.unpacked =
      if 2 ^ 11 ≤ (v.exponent + 1075).toNat + 1 then packedInfinity .binary64 .positive
      else packComponents .binary64 .positive (.ofNat 11 (v.exponent + 1075).toNat)
        (.ofNat 52 v.mantissa) := by
    rw [Normal.unpacked, UnpackedFloat.pack]
    simp only [hlog, hbiased]
    rfl
  show UnpackedFloat.unpack .binary64 (UnpackedFloat.pack .binary64 v.unpacked) = v.stored
  rw [hpack, Normal.stored]
  have hlarge := v.large
  rcases le_or_gt v.exponent 971 with hle | hgt
  · rw [if_pos hle, if_neg (by omega)]
    exact unpack_packComponents v hle
  · rw [if_neg hgt.not_ge, if_pos (by omega)]
    rfl

/-! ## Floats -/

def Holds (f : Float) (v : Normal) : Prop := f.toModel.unpack = v.stored

section
variable {f g : Float} {v w : Normal}

theorem Holds.le_of_value_le (hf : Holds f v) (hg : Holds g w) (h : v.value ≤ w.value) : f ≤ g := by
  show decide (f.toModel.unpack.le g.toModel.unpack = true) = true
  rw [hf, hg, decide_eq_true_eq, Normal.stored, Normal.stored]
  have hexponent : v.exponent ≤ w.exponent := w.le_exponent_iff.mpr (v.le_value.trans h)
  rcases le_or_gt w.exponent 971 with hw | hw
  · rw [if_pos (hexponent.trans hw), if_pos hw]
    exact Normal.le_unpacked_iff.mpr h
  · rw [if_neg hw.not_ge]
    split <;> rfl

theorem Holds.le_iff (hf : Holds f v) (hg : Holds g w) (hw : w.exponent ≤ 971) :
    f ≤ g ↔ v.value ≤ w.value := by
  refine ⟨fun h => ?_, hf.le_of_value_le hg⟩
  have hle : f.toModel.unpack.le g.toModel.unpack = true := of_decide_eq_true h
  rw [hf, hg, Normal.stored, Normal.stored, if_pos hw] at hle
  rcases le_or_gt v.exponent 971 with hv | hv
  · rw [if_pos hv] at hle
    exact Normal.le_unpacked_iff.mp hle
  · rw [if_neg hv.not_ge] at hle
    cases hle

theorem Holds.not_le_zero (hf : Holds f v) : ¬ f ≤ Float.ofNat 0 := by
  intro h
  have hle : f.toModel.unpack.le (.zero .positive) = true := of_decide_eq_true h
  rw [hf, Normal.stored] at hle
  split at hle <;> cases hle

theorem log2_mul_mantissa (v w : Normal) :
    (v.mantissa * w.mantissa).log2 = 52 + 52 ∨ (v.mantissa * w.mantissa).log2 = 52 + 53 := by
  have hlower := Nat.mul_le_mul v.full w.full
  have hupper := Nat.mul_lt_mul'' v.short w.short
  have hpos : v.mantissa * w.mantissa ≠ 0 := by omega
  rw [Nat.log2_eq_iff hpos, Nat.log2_eq_iff hpos]
  omega

theorem Holds.mul (hf : Holds f v) (hg : Holds g w) (hv : v.exponent ≤ 971) (hw : w.exponent ≤ 971)
    (hsum : -1126 ≤ v.exponent + w.exponent) :
    ∃ u, Holds (f * g) u ∧ IsNearest (v.value * w.value) u := by
  have hmul : (f * g).toModel = Float.Model.pack (roundWithAccuracy .binary64 .positive
      (v.mantissa * w.mantissa) (v.exponent + w.exponent) .exact) := by
    show Float.Model.pack (UnpackedFloat.mul .binary64 f.toModel.unpack g.toModel.unpack) = _
    rw [hf, hg, Normal.stored, Normal.stored, if_pos hv, if_pos hw]
    rfl
  have hvalue : v.value * w.value =
      (v.mantissa * w.mantissa : Nat) * 2 ^ (v.exponent + w.exponent) := by
    rw [Normal.value, Normal.value, zpow_add₀ two_ne_zero]
    push_cast
    ring
  obtain ⟨s, hs, hlog⟩ : ∃ s, 52 ≤ s ∧ (v.mantissa * w.mantissa).log2 = 52 + s := by
    rcases log2_mul_mantissa v w with hlog | hlog
    · exact ⟨52, le_rfl, hlog⟩
    · exact ⟨53, by omega, hlog⟩
  obtain ⟨u, hu, hnearest⟩ := exists_isNearest (e := v.exponent + w.exponent) hlog (by omega)
  refine ⟨u, ?_, by rwa [hvalue]⟩
  rw [Holds, hmul, hu, unpack_pack]

theorem Holds.mul_of_infinite (hf : Holds f v) (hg : Holds g w) (hv : 971 < v.exponent)
    (hw : w.exponent ≤ 971) : Holds (f * g) v := by
  have hmul : UnpackedFloat.mul .binary64 (.infinity .positive) w.unpacked =
      .infinity .positive := rfl
  show (Float.Model.pack (UnpackedFloat.mul .binary64 f.toModel.unpack g.toModel.unpack)).unpack = _
  rw [hf, hg, Normal.stored, Normal.stored, if_neg hv.not_ge, if_pos hw, hmul]
  rfl

theorem Holds.exists_mul_le (hf : Holds f v) (hg : Holds g w) (hw : w.exponent ≤ 971)
    (hsum : -1126 ≤ v.exponent + w.exponent) (hone : w.value ≤ 1) :
    ∃ u, Holds (f * g) u ∧ u.value ≤ v.value := by
  rcases le_or_gt v.exponent 971 with hv | hv
  · obtain ⟨u, hu, hnearest⟩ := hf.mul hg hv hw hsum
    have hle : v.value * w.value ≤ v.value := mul_le_of_le_one_right v.value_pos.le hone
    have hhalf : (0 : ℚ) < 2 ^ v.exponent / 2 := div_pos (two_zpow_pos _) two_pos
    exact ⟨u, hu, hnearest.value_le (by linarith)⟩
  · exact ⟨v, hf.mul_of_infinite hg hv hw, le_rfl⟩

end

/-! ## Natural numbers -/

section
variable {n : Nat}

theorem log2_mul_two_pow (hn : 0 < n) (k : Nat) : (n * 2 ^ k).log2 = n.log2 + k := by
  have hpow := Nat.two_pow_pos k
  have hlower := Nat.mul_le_mul_right (2 ^ k) (Nat.log2_self_le hn.ne')
  have hupper := Nat.mul_lt_mul_of_pos_right (Nat.lt_log2_self (n := n)) hpow
  rw [← Nat.pow_add] at hlower hupper
  rw [Nat.add_right_comm] at hupper
  exact (Nat.log2_eq_iff (Nat.mul_pos hn hpow).ne').mpr ⟨hlower, hupper⟩

theorem mul_two_pow_mul_zpow_neg (n k : Nat) : ((n * 2 ^ k : Nat) : ℚ) * 2 ^ (-k : Int) = n := by
  simp

theorem exists_value_eq_natCast (hn : 0 < n) (h : n < 2 ^ 53) : ∃ v : Normal, v.value = n := by
  have hlog : n.log2 ≤ 52 := Nat.le_of_lt_succ ((Nat.log2_lt hn.ne').mpr h)
  have hfull : (n * 2 ^ (52 - n.log2)).log2 = 52 := by
    rw [log2_mul_two_pow hn]
    omega
  obtain ⟨hlower, hupper⟩ :=
    (Nat.log2_eq_iff (Nat.mul_pos hn (Nat.two_pow_pos _)).ne').mp hfull
  exact ⟨⟨_, -(52 - n.log2 : Nat), hlower, hupper, by omega⟩, mul_two_pow_mul_zpow_neg n _⟩

theorem ofNat_eq (hn : 0 < n) (h : n < 2 ^ 53) :
    UnpackedFloat.ofNat .binary64 n = roundWithAccuracy .binary64 .positive
      (n * 2 ^ (52 - n.log2)) (-(52 - n.log2 : Nat)) .exact := by
  have hlog : n.log2 ≤ 52 := Nat.le_of_lt_succ ((Nat.log2_lt hn.ne').mpr h)
  have hshift : (0 - Format.binary64.targetExponent (totalExponent n 0)).toNat = 52 - n.log2 := by
    have htarget : Format.binary64.targetExponent (totalExponent n 0) =
        max ((n.log2 : Int) + 1 + 0 - 53) (-1074) := rfl
    omega
  rw [UnpackedFloat.ofNat, UnpackedFloat.ofInt, UnpackedFloat.normalize,
    Int.compare_eq_gt.mpr (by omega)]
  show UnpackedFloat.round .binary64 .positive n 0 = _
  rw [UnpackedFloat.round, decreaseExponent, hshift]
  simp only [Nat.shiftLeft_eq, Int.zero_sub]

theorem exists_holds_toFloat (hn : 0 < n) (h : n < 2 ^ 53) :
    ∃ v, Holds n.toUInt64.toFloat v ∧ v.value = n := by
  have hlog : n.log2 ≤ 52 := Nat.le_of_lt_succ ((Nat.log2_lt hn.ne').mpr h)
  obtain ⟨w, hw⟩ := exists_value_eq_natCast hn h
  obtain ⟨v, hv, hnearest⟩ := exists_isNearest (m := n * 2 ^ (52 - n.log2)) (s := 0)
    (e := -(52 - n.log2 : Nat)) (by rw [log2_mul_two_pow hn]; omega) (by omega)
  rw [mul_two_pow_mul_zpow_neg, ← hw] at hnearest
  refine ⟨v, ?_, hnearest.value_eq.trans hw⟩
  have hnat : n.toUInt64.toNat = n := UInt64.toNat_ofNat_of_lt' (Nat.lt_trans h (by decide))
  have hmodel : n.toUInt64.toFloat.toModel =
      Float.Model.pack (UnpackedFloat.ofNat .binary64 n.toUInt64.toNat) := rfl
  rw [Holds, hmodel, hnat, ofNat_eq hn h, hv, unpack_pack]

theorem ofScientific_eq (hn : 0 < n) :
    Float.Model.ofScientific n 0 = Float.Model.pack (roundWithAccuracy .binary64 .positive
      (n * 2 ^ 53) (-(53 : Nat)) .exact) := by
  have hpow : (0 : Int) < 2 ^ Format.binary64.exponentBits := by decide
  rw [Float.Model.ofScientific, UnpackedFloat.ofScientific, dif_neg hn.ne', if_neg (by omega),
    if_neg (by omega), if_pos le_rfl]
  simp only [UnpackedFloat.mul, Nat.shiftLeft_eq, Int.toNat_zero, pow_zero, mul_one, add_zero]
  rfl

def one : Normal := ⟨2 ^ 52, -52, le_rfl, by decide, by decide⟩

theorem value_one : one.value = 1 := by
  simp only [one, Normal.value]
  norm_num

theorem exists_holds_ofNat (hn : 0 < n) : ∃ v, Holds (Float.ofNat n) v ∧ IsNearest n v := by
  have hfloat : Float.ofNat n = Float.ofScientific n false 0 := rfl
  rw [hfloat, Float.ofScientific]
  -- a number that fits into a mantissa is multiplied by one, and others are rounded once
  split
  · rename_i hshort
    obtain ⟨v, hv, hvalue⟩ := exists_holds_toFloat hn hshort.1
    have hone : Holds Float.exactlyRepresentablePowersOfTen[0] one := rfl
    have hleast : -52 ≤ v.exponent :=
      Normal.le_exponent_of_one_le (by rw [hvalue]; exact_mod_cast hn)
    have hmost : v.exponent ≤ 0 :=
      Normal.exponent_le_of_value_lt (by rw [hvalue]; exact_mod_cast hshort.1)
    have hexponent : one.exponent = -52 := rfl
    obtain ⟨u, hu, hnearest⟩ := hv.mul hone (by omega) (by omega) (by omega)
    rw [hvalue, value_one, mul_one] at hnearest
    exact ⟨u, hu, hnearest⟩
  · obtain ⟨v, hv, hnearest⟩ := exists_isNearest (m := n * 2 ^ 53) (s := n.log2 + 1)
      (e := -(53 : Nat)) (by rw [log2_mul_two_pow hn]; omega) (by omega)
    rw [mul_two_pow_mul_zpow_neg] at hnearest
    refine ⟨v, ?_, hnearest⟩
    have hmodel := ofScientific_eq hn
    rw [hv] at hmodel
    show (Float.Model.ofScientific n 0).unpack = v.stored
    rw [hmodel, unpack_pack]

theorem exists_holds_ofNat_of_lt (hn : 0 < n) (h : n < 2 ^ 53) :
    ∃ v, Holds (Float.ofNat n) v ∧ v.value = n ∧ -52 ≤ v.exponent ∧ v.exponent ≤ 0 := by
  obtain ⟨v, hv, hnearest⟩ := exists_holds_ofNat hn
  obtain ⟨w, hw⟩ := exists_value_eq_natCast hn h
  rw [← hw] at hnearest
  have hvalue : v.value = n := hnearest.value_eq.trans hw
  refine ⟨v, hv, hvalue, Normal.le_exponent_of_one_le ?_, Normal.exponent_le_of_value_lt ?_⟩
  · rw [hvalue]
    exact_mod_cast hn
  · rw [hvalue]
    exact_mod_cast h

end

end Chronicle.Rounding
