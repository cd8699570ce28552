import Chronicle.Decimal.Notation
import Chronicle.Decimal.Numeral

/-!
# Digits of written numbers

* `head?_digitsOf_ne_zero`: no number other than zero is written with a zero in front.
* `valueOf_digitsOf`: the digits of a number have its value.
* `Binary64.digits_shortest_ne_zero`: no number other than zero has a decimal of value zero.
-/

namespace Chronicle

theorem head?_digitsOf_ne_zero {n : Nat} (hn : n ≠ 0) : (digitsOf n).head? ≠ some '0' := by
  induction n using Nat.strongRecOn with
  | ind n ih =>
    unfold digitsOf at ih ⊢
    by_cases hlt : n < 10
    · rw [Nat.toDigits_of_lt_base hlt]
      intro h
      exact hn (Nat.digitChar_eq_zero.mp (Option.some.inj h))
    · have hrest := ih (n / 10) (by omega) (by omega)
      obtain ⟨c, cs, hcs⟩ := List.exists_cons_of_ne_nil (Nat.toDigits_ne_nil (n := n / 10) (b := 10))
      rw [Nat.toDigits_of_base_le (by decide) (Nat.not_lt.mp hlt)]
      rw [hcs] at hrest ⊢
      exact hrest

theorem valueOf_digitsOf (n : Nat) :
    Decimal.valueOf ((digitsOf n).map Decimal.digitValue) = n := by
  have hstep : (fun (value : Nat) (c : Char) => value * 10 + Decimal.digitValue c) =
      fun value c => 10 * value + (c.toNat - '0'.toNat) := by
    funext value c
    rw [Nat.mul_comm]
    rfl
  rw [Decimal.valueOf, List.foldl_map, hstep]
  exact Nat.ofDigitChars_ten_toDigits

/-! ## Decimals of numbers other than zero -/

theorem Decimal.digits_dropZeros_ne_zero {d : Decimal} (hd : d.digits ≠ 0) (steps : Nat) :
    (d.dropZeros steps).digits ≠ 0 := by
  induction steps generalizing d with
  | zero => exact hd
  | succ steps ih =>
    unfold dropZeros
    split
    · rename_i h
      simp only [Bool.and_eq_true, beq_iff_eq] at h
      apply ih
      simp only
      omega
    · exact hd

namespace Binary64

theorem exact_mantissa_ne_zero {x : Binary64} (hx : x.magnitude ≠ 0) : x.exact.mantissa ≠ 0 := by
  unfold exact
  simp only
  split
  · rename_i hfield
    have hdiv : x.magnitude / fractionCount = 0 := beq_iff_eq.mp hfield
    have hmod := Nat.div_add_mod x.magnitude fractionCount
    rw [hdiv] at hmod
    show x.magnitude % fractionCount ≠ 0
    omega
  · show fractionCount + _ ≠ 0
    have : 0 < fractionCount := by decide
    omega

theorem Exact.digits_ne_zero_of_readsBack {x : Exact} (hx : x.mantissa ≠ 0) {d : Decimal}
    (hd : x.readsBack d = true) : d.digits ≠ 0 := by
  intro hzero
  have hlow (n : Nat) (hn : n ≠ 0) : d.compareBinary n (x.exponent - 2) = .lt := by
    rw [Decimal.compareBinary, hzero, Nat.zero_mul, Nat.zero_mul, Nat.compare_eq_lt]
    exact Nat.mul_pos (Nat.mul_pos (Nat.pos_of_ne_zero hn) (Nat.pow_pos (by decide)))
      (Nat.pow_pos (by decide))
  unfold readsBack at hd
  simp only at hd
  rw [hlow _ (by split <;> omega)] at hd
  simp at hd

theorem Exact.digits_onGrid_ne_zero {x : Exact} (hx : x.mantissa ≠ 0) {grid : Int} {d : Decimal}
    (hd : x.onGrid grid = some d) : d.digits ≠ 0 := by
  apply digits_ne_zero_of_readsBack hx
  unfold onGrid at hd
  simp only at hd
  split at hd
  · rename_i hbelow habove
    split at hd
    · cases hd
      exact hbelow
    · cases hd
      exact habove
    · split at hd
      · cases hd
        exact hbelow
      · cases hd
        exact habove
  · rename_i hbelow habove
    cases hd
    exact hbelow
  · rename_i hbelow habove
    cases hd
    exact habove
  · cases hd

theorem Exact.digits_decimal_ne_zero {x : Exact} (hx : x.mantissa ≠ 0) : x.decimal.digits ≠ 0 := by
  have hpos : 0 < x.mantissa * Nat.pow 2 x.exponent.toNat * Nat.pow 5 (-x.exponent).toNat :=
    Nat.mul_pos (Nat.mul_pos (Nat.pos_of_ne_zero hx) (Nat.pow_pos (by decide)))
      (Nat.pow_pos (by decide))
  exact Nat.pos_iff_ne_zero.mp hpos

/-- **A number other than zero has no decimal of value zero.** -/
theorem digits_shortest_ne_zero {x : Binary64} (hx : x.magnitude ≠ 0) : x.shortest.digits ≠ 0 := by
  have hmantissa := exact_mantissa_ne_zero hx
  unfold shortest
  simp only
  split
  · rename_i d hd
    obtain ⟨n, -, hgrid⟩ := List.exists_of_findSome?_eq_some hd
    exact Decimal.digits_dropZeros_ne_zero (Exact.digits_onGrid_ne_zero hmantissa hgrid) 20
  · exact Exact.digits_decimal_ne_zero hmantissa

end Binary64

end Chronicle
