import Chronicle.CommandLine.Run
import Chronicle.Proofs.Decimal.Value
import Chronicle.Proofs.Event.RunningKey
import Chronicle.Proofs.Text.Bytes
import Chronicle.Proofs.Time.Order
import Mathlib.Data.List.Nodup

/-!
# Sorted hook records stand in a canonical order

* `Binary64.Precedes`, `Timestamp.Precedes`, `HookRecord.Precedes`: what stands before what. Numbers
  go by sign and bits, missing times are last, and at one time records go by the bytes of their ids.
* `HookRecord.compare_eq_lt_iff`, `HookRecord.compare_eq_eq_iff`: records are compared by just that,
  so those that are level have the same time and the same id.
* `HookRecord.sort_eq_sort_iff`: a sort shows of the arrangement how level records follow one
  another, and nothing else. Where no two are level, it shows nothing of it.
* `SortedCanonically`, `canonicalHookOrder`: what that means for the sort, for timelines and for what
  is printed of files.
-/

namespace Chronicle

open Std (OrientedCmp TransCmp)

/-! ## Numbers -/

namespace Binary64

/-- The total order of binary64. Numbers with the sign bit set come first, by falling bits, and the
others by rising bits. -/
inductive Precedes (x y : Binary64) : Prop where
  | sign (left : x.isNegative = true) (right : y.isNegative = false)
  | falling (left : x.isNegative = true) (right : y.isNegative = true)
      (magnitude : y.magnitude < x.magnitude)
  | rising (left : x.isNegative = false) (right : y.isNegative = false)
      (magnitude : x.magnitude < y.magnitude)

variable {x y : Binary64}

theorem precedes_iff_orderKey_lt : x.Precedes y ↔ x.orderKey < y.orderKey := by
  constructor
  · rintro (⟨hx, hy⟩ | ⟨hx, hy, h⟩ | ⟨hx, hy, h⟩) <;>
    · simp only [orderKey, hx, hy, if_true, Bool.false_eq_true, if_false]
      omega
  · intro h
    cases hx : x.isNegative <;> cases hy : y.isNegative <;>
      simp only [orderKey, hx, hy, if_true, Bool.false_eq_true, if_false] at h
    · exact .rising hx hy (by omega)
    · omega
    · exact .sign hx hy
    · exact .falling hx hy (by omega)

theorem compare_eq_lt_iff : x.compare y = .lt ↔ x.Precedes y :=
  Int.compare_eq_lt.trans precedes_iff_orderKey_lt.symm

theorem isNegative_iff (x : Binary64) : x.isNegative = true ↔ signBit ≤ x.bits.toNat :=
  decide_eq_true_iff

theorem orderKey_inj : x.orderKey = y.orderKey ↔ x = y := by
  refine ⟨fun h => ?_, congrArg orderKey⟩
  have hbits : x.bits.toNat = y.bits.toNat := by
    have hx := x.bits.toNat_lt
    have hy := y.bits.toNat_lt
    have hsign : signBit = 2 ^ 63 := rfl
    simp only [orderKey, magnitude, isNegative_iff, hsign] at h
    split_ifs at h <;> omega
  cases x
  cases y
  exact congrArg mk (UInt64.toNat_inj.mp hbits)

theorem compare_eq_eq_iff : x.compare y = .eq ↔ x = y := by
  rw [Binary64.compare, Std.compare_eq_iff_eq, orderKey_inj]

end Binary64

/-! ## Timestamps -/

namespace Timestamp

/-- By the order of numbers, missing timestamps last. -/
inductive Precedes : Timestamp → Timestamp → Prop where
  | told {x y : Binary64} (number : x.Precedes y) : Precedes (some x) (some y)
  | missing (x : Binary64) : Precedes (some x) none

variable {s t : Timestamp}

theorem compare_eq_lt_iff : s.compare t = .lt ↔ s.Precedes t := by
  cases s with
  | none =>
    refine ⟨fun h => ?_, fun h => by cases h⟩
    cases t <;> cases h
  | some x =>
    cases t with
    | none => exact ⟨fun _ => .missing x, fun _ => rfl⟩
    | some y =>
      rw [Timestamp.compare, Binary64.compare_eq_lt_iff]
      exact ⟨.told, fun | .told h => h⟩

theorem compare_eq_eq_iff : s.compare t = .eq ↔ s = t := by
  cases s <;> cases t <;> simp [Timestamp.compare, Binary64.compare_eq_eq_iff]

end Timestamp

/-! ## Records -/

namespace HookRecord

/-- By time, and at one time by the bytes of the ids. -/
inductive Precedes (a b : HookRecord) : Prop where
  | time (earlier : a.timestamp.Precedes b.timestamp)
  | id (same : a.timestamp = b.timestamp) (less : Text.bytes a.id < Text.bytes b.id)

/-- What a record is sorted by. -/
def place (r : HookRecord) : Timestamp × String := (r.timestamp, r.id)

variable {a b : HookRecord} {records others : List HookRecord}

theorem compare_eq_lt_iff : a.compare b = .lt ↔ a.Precedes b := by
  rw [HookRecord.compare, Ordering.then_eq_lt, Timestamp.compare_eq_lt_iff,
    Timestamp.compare_eq_eq_iff, Text.compare_eq_lt_iff_bytes]
  constructor
  · rintro (h | ⟨hs, h⟩)
    · exact .time h
    · exact .id hs h
  · rintro (h | ⟨hs, h⟩)
    · exact .inl h
    · exact .inr ⟨hs, h⟩

theorem compare_eq_eq_iff : a.compare b = .eq ↔ a.place = b.place := by
  rw [HookRecord.compare, Ordering.then_eq_eq, Timestamp.compare_eq_eq_iff, Std.compare_eq_iff_eq,
    place, place, Prod.mk.injEq]

theorem isLE_compare_iff : (a.compare b).isLE ↔ a.Precedes b ∨ a.place = b.place := by
  rw [Ordering.isLE_iff_eq_lt_or_eq_eq, compare_eq_lt_iff, compare_eq_eq_iff]

theorem Precedes.not_isLE (h : a.Precedes b) : ¬ (b.compare a).isLE := by
  rw [OrientedCmp.gt_iff_lt.mpr (compare_eq_lt_iff.mpr h)]
  decide

theorem place_eq_of_isLE (hab : (a.compare b).isLE) (hba : (b.compare a).isLE) :
    a.place = b.place :=
  (isLE_compare_iff.mp hab).resolve_left fun h => h.not_isLE hba

theorem tied_eq (a b : HookRecord) :
    tied (fun a b : HookRecord => (a.compare b).isLE) a b = decide (b.place = a.place) := by
  rw [Bool.eq_iff_iff, tied, Bool.and_eq_true, decide_eq_true_iff]
  constructor
  · rintro ⟨hab, hba⟩
    exact place_eq_of_isLE hba hab
  · intro h
    exact ⟨isLE_compare_iff.mpr (.inr h.symm), isLE_compare_iff.mpr (.inr h)⟩

/-! ## Sorting -/

theorem filter_sort (records : List HookRecord) (place : Timestamp × String) :
    (sort records).filter (·.place = place) = records.filter (·.place = place) := by
  refine filter_mergeSort isLE_compare_trans isLE_compare_total (fun a b ha hb => ?_) records
  rw [decide_eq_true_iff] at ha hb
  exact isLE_compare_iff.mpr (.inr (ha.trans hb.symm))

theorem eq_sort_of_filter {out : List HookRecord}
    (hordered : out.Pairwise fun a b => (a.compare b).isLE)
    (h : ∀ place, out.filter (·.place = place) = records.filter (·.place = place)) :
    out = sort records := by
  refine eq_of_filter_tied isLE_compare_total hordered (pairwise_sort records) fun a => ?_
  rw [funext (tied_eq a), filter_sort, h]

/-- **A sort shows how level records follow one another, and nothing else of the arrangement.** -/
theorem sort_eq_sort_iff : sort records = sort others ↔
    ∀ place, records.filter (·.place = place) = others.filter (·.place = place) := by
  constructor
  · intro h place
    rw [← filter_sort records, ← filter_sort others, h]
  · intro h
    apply eq_sort_of_filter (pairwise_sort records)
    intro place
    rw [filter_sort, h]

theorem sort_eq_sort_of_perm (h : others.Perm records) (hplaces : (records.map place).Nodup) :
    sort others = sort records := by
  have hperm : (sort others).Perm (sort records) :=
    (List.mergeSort_perm ..).trans (h.trans (List.mergeSort_perm ..).symm)
  refine hperm.eq_of_pairwise (fun a b ha hb hab hba => ?_) (pairwise_sort _) (pairwise_sort _)
  -- two that may stand either way have one place, and so they are one record
  have ha : a ∈ records := h.mem_iff.mp (List.mem_mergeSort.mp ha)
  have hb : b ∈ records := List.mem_mergeSort.mp hb
  exact List.inj_on_of_nodup_map hplaces ha hb (place_eq_of_isLE hab hba)

theorem value_le_of_isLE {x y : Binary64} (h : (a.compare b).isLE) (hx : a.timestamp = some x)
    (hy : b.timestamp = some y) : x.value ≤ y.value := by
  have hnot := notAfter_of_isLE_compare h
  rw [hx, hy, notAfter_some_some] at hnot
  exact Binary64.value_le_of_orderKey_le hnot

end HookRecord

/-! ## Histories -/

section histories
variable {files : Files} {path path' : String} {records : List HookRecord}

theorem hookEvents_of_recordsOf
    (h : recordsOf files "hook records" path HookRecord.ofNode = .ok records) :
    hookEvents files (some path) = .ok ((HookRecord.sort records).map HookRecord.toEvent) := by
  rw [hookEvents, h]
  rfl

theorem eventsOf_hooks_congr (source : EventSource)
    (h : hookEvents files (some path') = hookEvents files (some path)) :
    eventsOf files { source with hooks := some path' } =
      eventsOf files { source with hooks := some path } := by
  simp only [eventsOf, h, primaryEvents]

/-- The sort of these records is one order of them, whatever their arrangement. -/
structure SortedCanonically (records : List HookRecord) : Prop where
  /-- The sort has every record once. -/
  perm : (HookRecord.sort records).Perm records
  /-- Records go by time and then by the bytes of their ids. -/
  ordered : (HookRecord.sort records).Pairwise fun a b => a.Precedes b ∨ a.place = b.place
  /-- Times that are finite numbers do not fall. -/
  values : (HookRecord.sort records).Pairwise fun a b => ∀ x y : Binary64,
    a.timestamp = some x → b.timestamp = some y → x.isFinite → y.isFinite → x.value ≤ y.value
  /-- Records that are level keep their order. -/
  stable (place : Timestamp × String) :
    (HookRecord.sort records).filter (·.place = place) = records.filter (·.place = place)
  /-- No other list has them in this order with the level ones as they were. -/
  only (out : List HookRecord) : (out.Pairwise fun a b => a.Precedes b ∨ a.place = b.place) →
    (∀ place, out.filter (·.place = place) = records.filter (·.place = place)) →
      out = HookRecord.sort records
  /-- Records are sorted alike if the level ones follow one another alike. -/
  arrangement (others : List HookRecord) : HookRecord.sort others = HookRecord.sort records ↔
    ∀ place, others.filter (·.place = place) = records.filter (·.place = place)
  /-- Where no two are level, no arrangement of them shows in the sort. -/
  arranged (others : List HookRecord) : others.Perm records →
    (records.map HookRecord.place).Nodup → HookRecord.sort others = HookRecord.sort records
  /-- Nor does it show in a timeline into which they are merged. -/
  timeline (others : List HookRecord) : others.Perm records →
    (records.map HookRecord.place).Nodup → ∀ limits primary,
      timelineOf limits
          (mergeStreams primary ((HookRecord.sort others).map HookRecord.toEvent)) =
        timelineOf limits
          (mergeStreams primary ((HookRecord.sort records).map HookRecord.toEvent))
  /-- Nor in what is printed where a file has them in one order and a file has them in another. -/
  output (files : Files) (path path' : String) (others : List HookRecord) :
    recordsOf files "hook records" path HookRecord.ofNode = .ok records →
    recordsOf files "hook records" path' HookRecord.ofNode = .ok others →
    others.Perm records → (records.map HookRecord.place).Nodup →
      ∀ settings form (source : EventSource) chosen,
        Command.output files settings form
            (.timeline { source with hooks := some path' } chosen) =
          Command.output files settings form
            (.timeline { source with hooks := some path } chosen)

theorem sortedCanonically (records : List HookRecord) : SortedCanonically records := by
  have hpairwise := HookRecord.pairwise_sort records
  constructor
  · exact List.mergeSort_perm ..
  · exact hpairwise.imp HookRecord.isLE_compare_iff.mp
  · exact hpairwise.imp fun h x y hx hy _ _ => HookRecord.value_le_of_isLE h hx hy
  · exact HookRecord.filter_sort records
  · intro out hordered hlevel
    exact HookRecord.eq_sort_of_filter (hordered.imp HookRecord.isLE_compare_iff.mpr) hlevel
  · intro others
    exact HookRecord.sort_eq_sort_iff
  · intro others hperm hplaces
    exact HookRecord.sort_eq_sort_of_perm hperm hplaces
  · intro others hperm hplaces limits primary
    rw [HookRecord.sort_eq_sort_of_perm hperm hplaces]
  · intro files path path' others hread hread' hperm hplaces settings form source chosen
    have hhooks : hookEvents files (some path') = hookEvents files (some path) := by
      rw [hookEvents_of_recordsOf hread, hookEvents_of_recordsOf hread',
        HookRecord.sort_eq_sort_of_perm hperm hplaces]
    rw [Command.output, Command.output, eventsOf_hooks_congr source hhooks]

/-- **Records are compared by a total preorder, and their sort is a canonical order.** -/
theorem canonicalHookOrder (records : List HookRecord) :
    TransCmp HookRecord.compare ∧
    (∀ a b : HookRecord, a.compare b = .lt ↔ a.Precedes b) ∧
    (∀ a b : HookRecord, a.compare b = .eq ↔ a.timestamp = b.timestamp ∧ a.id = b.id) ∧
    SortedCanonically records := by
  refine ⟨inferInstance, fun a b => HookRecord.compare_eq_lt_iff, fun a b => ?_,
    sortedCanonically records⟩
  rw [HookRecord.compare_eq_eq_iff, HookRecord.place, HookRecord.place, Prod.mk.injEq]

/-- The zero with the sign bit set is before the other, and a NaN is before what has no time. -/
example :
    let record (id : String) (timestamp : Timestamp) : HookRecord :=
      { id, timestamp, event := "Stop", raw := .null }
    (HookRecord.sort [record "a" none, record "a" (some .nan), record "b" (some .zero),
      record "a" (some .zero), record "c" (some Binary64.zero.neg)]).map HookRecord.place =
        [(some Binary64.zero.neg, "c"), (some .zero, "a"), (some .zero, "b"), (some .nan, "a"),
          (none, "a")] := by
  cbv

end histories

end Chronicle
