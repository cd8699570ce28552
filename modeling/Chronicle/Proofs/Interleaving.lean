import Chronicle.Event.Stream

/-!
# Interleavings

`Interleaves xs ys zs` says that `zs` holds the elements of `xs` and of `ys`, each list in its own
order. Every merge of two lists is an interleaving of them (`interleaves_mergeBy`).
-/

namespace Chronicle

/-- A list made of two others, each in its own order. -/
inductive Interleaves {α : Type u} : List α → List α → List α → Prop where
  | nil : Interleaves [] [] []
  | left {x : α} {xs ys zs : List α} : Interleaves xs ys zs → Interleaves (x :: xs) ys (x :: zs)
  | right {y : α} {xs ys zs : List α} : Interleaves xs ys zs → Interleaves xs (y :: ys) (y :: zs)

namespace Interleaves

variable {α : Type u} {xs ys zs : List α}

theorem nil_right (xs : List α) : Interleaves xs [] xs := by
  induction xs with
  | nil => exact .nil
  | cons x xs ih => exact .left ih

theorem nil_left (ys : List α) : Interleaves [] ys ys := by
  induction ys with
  | nil => exact .nil
  | cons y ys ih => exact .right ih

theorem append {xs' ys' zs' : List α} (h : Interleaves xs ys zs) (h' : Interleaves xs' ys' zs') :
    Interleaves (xs ++ xs') (ys ++ ys') (zs ++ zs') := by
  induction h with
  | nil => exact h'
  | left _ ih => exact .left ih
  | right _ ih => exact .right ih

theorem concat_left (h : Interleaves xs ys zs) (x : α) :
    Interleaves (xs ++ [x]) ys (zs ++ [x]) := by
  have h' := h.append (nil_right [x])
  rwa [List.append_nil] at h'

theorem concat_right (h : Interleaves xs ys zs) (y : α) :
    Interleaves xs (ys ++ [y]) (zs ++ [y]) := by
  have h' := h.append (nil_left [y])
  rwa [List.append_nil] at h'

theorem sublist_right (h : Interleaves xs ys zs) : ys.Sublist zs := by
  induction h with
  | nil => exact .slnil
  | left _ ih => exact ih.cons _
  | right _ ih => exact ih.cons_cons _

protected theorem symm (h : Interleaves xs ys zs) : Interleaves ys xs zs := by
  induction h with
  | nil => exact .nil
  | left _ ih => exact .right ih
  | right _ ih => exact .left ih

theorem filter_eq_left {p : α → Bool} (h : Interleaves xs ys zs) (hx : ∀ x ∈ xs, p x = true)
    (hy : ∀ y ∈ ys, p y = false) : zs.filter p = xs := by
  induction h with
  | nil => rfl
  | left _ ih =>
    obtain ⟨hfirst, hrest⟩ := List.forall_mem_cons.mp hx
    rw [List.filter_cons_of_pos hfirst, ih hrest hy]
  | right _ ih =>
    obtain ⟨hfirst, hrest⟩ := List.forall_mem_cons.mp hy
    rw [List.filter_cons_of_neg (by simp [hfirst]), ih hx hrest]

theorem any_eq (h : Interleaves xs ys zs) (p : α → Bool) : zs.any p = (xs.any p || ys.any p) := by
  induction h with
  | nil => rfl
  | left _ ih => rw [List.any_cons, List.any_cons, ih, Bool.or_assoc]
  | right _ ih => rw [List.any_cons, List.any_cons, ih, Bool.or_left_comm]

theorem filterMap_eq_left {f : α → Option β} (h : Interleaves xs ys zs)
    (hy : ∀ y ∈ ys, f y = none) : zs.filterMap f = xs.filterMap f := by
  induction h with
  | nil => rfl
  | left _ ih => rw [List.filterMap_cons, List.filterMap_cons, ih hy]
  | right _ ih =>
    obtain ⟨hfirst, hrest⟩ := List.forall_mem_cons.mp hy
    rw [List.filterMap_cons_none hfirst, ih hrest]

end Interleaves

/-- **A merge interleaves its two lists**, whether they are in order or not. -/
theorem interleaves_mergeBy (key : α → Timestamp) (left right : List α) :
    Interleaves left right (mergeBy key left right) := by
  unfold mergeBy
  induction left generalizing right with
  | nil => rw [List.nil_merge]; exact .nil_left right
  | cons a left ihl =>
    induction right with
    | nil => rw [List.merge_right]; exact .nil_right (a :: left)
    | cons b right ihr =>
      rw [List.cons_merge_cons]
      split
      · exact .left (ihl (b :: right))
      · exact .right ihr

end Chronicle
