import Chronicle.Event.Live
import Chronicle.Proofs.Decimal.Value
import Mathlib.Tactic.NormNum

/-!
# Times that are written

JSON has no infinity and no NaN, so a time that is neither is written as a number, and any other as
null, like one that is missing.

* `writable`: what is left of a time that was written.
* `reread`: what is read of it where a great number is taken for milliseconds. A number of seconds is
  read as itself (`reread_eq_self`).
-/

namespace Chronicle.Timestamp

def writable (t : Timestamp) : Timestamp := t.filter Binary64.isFinite

/-- What is read of a time that was written, if it may have been in milliseconds. -/
def reread (t : Timestamp) : Timestamp := t.writable.map seconds

/-- A time that is taken for a number of seconds, if any. -/
def InSeconds (t : Timestamp) : Prop := ∀ x ∈ t, x.isFinite = true ∧ x.value ≤ 100000000000

theorem writable_eq_self_iff (t : Timestamp) : t.writable = t ↔ ∀ x ∈ t, x.isFinite = true := by
  cases t with
  | none => simp [writable]
  | some x => simp [writable, Option.filter]

theorem toJson_eq (t : Timestamp) : t.toJson = t.writable.elim .null fun x => .number (.float x) := by
  cases t with
  | none => rfl
  | some x =>
    rw [toJson, Json.ofBinary64, writable, Option.filter]
    split
    · rfl
    · rfl

theorem asOptional_toJson (t : Timestamp) :
    Json.asOptional Json.asBinary64 t.toJson = .ok t.writable := by
  rw [toJson_eq]
  cases t.writable <;> rfl

theorem decode_toJson (t : Timestamp) : decode t.toJson = .ok t.reread := by
  rw [toJson_eq, reread]
  cases t.writable <;> rfl

theorem value_millisBound : millisBound.value = 100000000000 := by
  have hexact : millisBound.exact = ⟨6553600000000000, -16, false⟩ := rfl
  rw [Binary64.value, if_neg (by decide), hexact, Binary64.Exact.value]
  norm_num

theorem value_le_iff {x : Binary64} :
    x.value ≤ 100000000000 ↔ x.orderKey ≤ millisBound.orderKey := by
  rw [← value_millisBound, Binary64.value_le_iff_orderKey_le (by decide)]

theorem inSeconds_iff {t : Timestamp} :
    t.InSeconds ↔ ∀ x ∈ t, x.isFinite = true ∧ x.orderKey ≤ millisBound.orderKey := by
  simp only [InSeconds, value_le_iff]

instance (t : Timestamp) : Decidable t.InSeconds := decidable_of_iff _ inSeconds_iff.symm

theorem seconds_eq_self {x : Binary64} (h : x.value ≤ 100000000000) : seconds x = x := by
  rw [value_le_iff] at h
  rw [seconds, if_neg]
  simp only [Bool.and_eq_true, decide_eq_true_eq, not_and]
  omega

/-- **A time in seconds is read as it was written.** -/
theorem reread_eq_self {t : Timestamp} (h : t.InSeconds) : t.reread = t := by
  cases t with
  | none => rfl
  | some x =>
    obtain ⟨hfinite, hvalue⟩ := h x rfl
    rw [reread, writable, Option.filter, if_pos hfinite, Option.map_some, seconds_eq_self hvalue]

end Chronicle.Timestamp
