import Chronicle.Event.Stream
import Chronicle.Hook.Record

/-!
# Order of timestamps and of hook records

* `notAfter`: the order by which streams are merged. It goes by `Binary64.orderKey`, and missing
  timestamps are latest.
* `HookRecord.compare`: the order of hook records, transitive and total.
* `Timestamp.isKnown`, `Timestamp.isEarly`: a known time lies strictly between the early numbers
  (zeros, and all that have the sign bit set) and the late ones (positive infinity and the positive
  NaNs). Neither of these counts as a time, so forgetting them keeps the order of two timestamps
  unless an early one stands before a known one (`notAfter_known`).
-/

namespace Chronicle

open Std (TransCmp OrientedCmp)

/-! ## Numbers -/

namespace Binary64

theorem isLE_compare (x y : Binary64) : (x.compare y).isLE ↔ x.orderKey ≤ y.orderKey :=
  Std.LawfulOrderOrd.isLE_compare _ _

instance : TransCmp Binary64.compare where
  eq_swap := Std.OrientedOrd.eq_swap
  isLE_trans := Std.TransOrd.isLE_trans

theorem orderKey_of_isNegative {x : Binary64} (h : x.isNegative) :
    x.orderKey = -(x.magnitude : Int) - 1 :=
  if_pos h

theorem orderKey_of_not_isNegative {x : Binary64} (h : ¬ x.isNegative) :
    x.orderKey = x.magnitude :=
  if_neg h

theorem isFinite_and_isPositive (x : Binary64) :
    (x.isFinite && x.isPositive) = true ↔ 0 < x.orderKey ∧ x.orderKey < infinityBits := by
  by_cases h : x.isNegative
  · rw [orderKey_of_isNegative h, isPositive, h]
    simp only [Bool.not_true, Bool.false_and, Bool.and_false, Bool.false_eq_true, false_iff]
    omega
  · rw [orderKey_of_not_isNegative h]
    simp only [isFinite, isPositive, h, isNaN, Bool.not_false, Bool.true_and, Bool.and_eq_true,
      Bool.not_eq_eq_eq_not, Bool.not_true, decide_eq_true_eq, decide_eq_false_iff_not, bne_iff_ne]
    omega

theorem isNegative_or_zero (x : Binary64) :
    (x.isNegative || x.magnitude == 0) = true ↔ x.orderKey ≤ 0 := by
  by_cases h : x.isNegative
  · rw [orderKey_of_isNegative h, h]
    simp only [Bool.true_or, true_iff]
    omega
  · rw [orderKey_of_not_isNegative h]
    simp only [h, Bool.false_or, beq_iff_eq]
    omega

end Binary64

/-! ## Timestamps -/

namespace Timestamp

instance : TransCmp Timestamp.compare where
  eq_swap {a b} := by
    cases a <;> cases b <;> simp [Timestamp.compare, ← OrientedCmp.eq_swap]
  isLE_trans {a b c} hab hbc := by
    cases a <;> cases b <;> cases c <;> simp_all [Timestamp.compare]
    exact TransCmp.isLE_trans hab hbc

/-- Whether a timestamp is a known time: finite and greater than zero. -/
def isKnown (t : Timestamp) : Bool := t.any fun x => x.isFinite && x.isPositive

/-- Whether a timestamp is told but comes before all known times: a zero, or a number with the sign
bit set. -/
def isEarly (t : Timestamp) : Bool := t.any fun x => x.isNegative || x.magnitude == 0

theorem isKnown_iff {t : Timestamp} :
    t.isKnown ↔ ∃ x, t = some x ∧ 0 < x.orderKey ∧ x.orderKey < Binary64.infinityBits := by
  simp only [isKnown, Option.any_eq_true, Binary64.isFinite_and_isPositive]

theorem isEarly_iff {t : Timestamp} : t.isEarly ↔ ∃ x, t = some x ∧ x.orderKey ≤ 0 := by
  simp only [isEarly, Option.any_eq_true, Binary64.isNegative_or_zero]

theorem known_of_isKnown {t : Timestamp} (h : t.isKnown) : t.known = t := by
  obtain ⟨x, rfl, hx⟩ := (Option.any_eq_true ..).mp h
  exact Option.filter_eq_some_iff.mpr ⟨rfl, hx⟩

theorem known_of_not_isKnown {t : Timestamp} (h : ¬ t.isKnown) : t.known = none := by
  rw [known, Option.filter_eq_none_iff]
  intro x hx hp
  exact h ((Option.any_eq_true ..).mpr ⟨x, hx, hp⟩)

theorem not_isKnown_of_isEarly {t : Timestamp} (h : t.isEarly) : ¬ t.isKnown := by
  obtain ⟨x, rfl, hx⟩ := isEarly_iff.mp h
  intro hk
  obtain ⟨y, hy, hpos, -⟩ := isKnown_iff.mp hk
  cases hy
  omega

theorem isSome_known (t : Timestamp) : t.known.isSome = t.isKnown := by
  by_cases h : t.isKnown
  · obtain ⟨x, rfl, -⟩ := isKnown_iff.mp h
    rw [known_of_isKnown h, h]
    rfl
  · rw [known_of_not_isKnown h, Bool.eq_false_iff.mpr h]
    rfl

end Timestamp

/-! ## The order of merging -/

@[simp] theorem notAfter_some_some (x y : Binary64) :
    notAfter (some x) (some y) = true ↔ x.orderKey ≤ y.orderKey :=
  Binary64.isLE_compare x y

@[simp] theorem notAfter_none (t : Timestamp) : notAfter t none = true := by
  cases t <;> rfl

@[simp] theorem notAfter_none_some (y : Binary64) : notAfter none (some y) = false := rfl

theorem notAfter_trans (a b c : Timestamp) (hab : notAfter a b) (hbc : notAfter b c) :
    notAfter a c :=
  TransCmp.isLE_trans hab hbc

theorem notAfter_refl (a : Timestamp) : notAfter a a := by
  cases a with
  | none => exact notAfter_none none
  | some x => exact (notAfter_some_some x x).mpr (Int.le_refl _)

theorem notAfter_total (a b : Timestamp) : notAfter a b || notAfter b a := by
  cases a with
  | none => rw [notAfter_none b, Bool.or_true]
  | some x =>
    cases b with
    | none => rfl
    | some y =>
      rw [Bool.or_eq_true, notAfter_some_some, notAfter_some_some]
      omega

theorem not_notAfter_of_isEarly {a b : Timestamp} (ha : a.isEarly) (hb : b.isKnown) :
    ¬ notAfter b a := by
  obtain ⟨x, rfl, hx⟩ := Timestamp.isEarly_iff.mp ha
  obtain ⟨y, rfl, hy, -⟩ := Timestamp.isKnown_iff.mp hb
  rw [notAfter_some_some]
  omega

theorem notAfter_known {a b : Timestamp} (h : notAfter a b) (hab : ¬ (a.isEarly ∧ b.isKnown)) :
    notAfter a.known b.known := by
  by_cases hb : b.isKnown
  · have ha : a.isKnown := by
      obtain ⟨y, rfl, -, hy⟩ := Timestamp.isKnown_iff.mp hb
      cases a with
      | none => exact absurd h (by simp)
      | some x =>
        have hx : ¬ x.orderKey ≤ 0 := fun hx => hab ⟨Timestamp.isEarly_iff.mpr ⟨x, rfl, hx⟩, hb⟩
        rw [notAfter_some_some] at h
        exact Timestamp.isKnown_iff.mpr ⟨x, rfl, by omega, by omega⟩
    rwa [Timestamp.known_of_isKnown ha, Timestamp.known_of_isKnown hb]
  · rw [Timestamp.known_of_not_isKnown hb]
    exact notAfter_none _

/-! ## Hook records -/

instance : TransCmp fun a b : HookRecord => a.timestamp.compare b.timestamp where
  eq_swap {a b} := @OrientedCmp.eq_swap _ Timestamp.compare _ a.timestamp b.timestamp
  isLE_trans := fun hab hbc => notAfter_trans _ _ _ hab hbc

instance : TransCmp HookRecord.compare :=
  inferInstanceAs (TransCmp (compareLex
    (fun a b : HookRecord => a.timestamp.compare b.timestamp) (compareOn HookRecord.id)))

theorem HookRecord.notAfter_of_isLE_compare {a b : HookRecord} (h : (a.compare b).isLE) :
    notAfter a.timestamp b.timestamp :=
  Ordering.isLE_left_of_isLE_then h

theorem HookRecord.isLE_compare_trans (a b c : HookRecord) :
    (a.compare b).isLE → (b.compare c).isLE → (a.compare c).isLE :=
  TransCmp.isLE_trans

theorem HookRecord.isLE_compare_total (a b : HookRecord) :
    (a.compare b).isLE || (b.compare a).isLE := by
  rw [@OrientedCmp.eq_swap _ HookRecord.compare _ b a]
  cases a.compare b <;> rfl

theorem HookRecord.pairwise_sort (records : List HookRecord) :
    (sort records).Pairwise fun a b => (a.compare b).isLE :=
  List.pairwise_mergeSort isLE_compare_trans isLE_compare_total records

end Chronicle
