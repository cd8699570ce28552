import Chronicle.Proofs.Event.Stream

/-!
# A merge sorts by running keys

A merge compares heads only, whether its lists are in order or not. What stands behind a late key
therefore waits for that key, and is taken as if it had it. The running key of an element is the
latest key up to it in its own list.

* `merge_eq_mergeSort`: a merge of two lists in order is the stable sort of both. A sort is known
  from its order and from what it leaves of every tie (`eq_of_filter_tied`).
* `withRunningKeys`, `IsRunningKey`: the elements of a list with their running keys.
* `map_fst_merge_runningFrom`: heads compare as their running keys do.
* `SortsByRunningKey`, `sortsByRunningKey`: a merge of any two lists is their stable sort by running
  keys.
-/

namespace Chronicle

/-! ## Stable sorts -/

/-- The elements that satisfy `p` may stand in any order. -/
def IsTie (le : α → α → Bool) (p : α → Bool) : Prop := ∀ a b, p a → p b → le a b

/-- Whether either of two elements may stand before the other. -/
def tied (le : α → α → Bool) (a b : α) : Bool := le a b && le b a

section sorting
variable {α : Type u} {le : α → α → Bool} {p : α → Bool} {xs ys : List α}

theorem isTie_tied (trans : ∀ a b c, le a b → le b c → le a c) (x : α) : IsTie le (tied le x) := by
  intro a b ha hb
  rw [tied, Bool.and_eq_true] at ha hb
  exact trans _ _ _ ha.2 hb.1

theorem tied_self (total : ∀ a b, le a b || le b a) (x : α) : tied le x x = true := by
  have hx := total x x
  rw [Bool.or_self] at hx
  rw [tied, Bool.and_self, hx]

theorem le_of_mem_cons (total : ∀ a b, le a b || le b a) {x y : α}
    (hxs : (x :: xs).Pairwise fun a b => le a b) (hy : y ∈ x :: xs) : le x y := by
  rcases List.mem_cons.mp hy with rfl | hy
  · have h := total y y
    rwa [Bool.or_self] at h
  · exact List.rel_of_pairwise_cons hxs hy

theorem filter_merge (trans : ∀ a b c, le a b → le b c → le a c)
    (total : ∀ a b, le a b || le b a) (hp : IsTie le p) (hxs : xs.Pairwise fun a b => le a b)
    (ys : List α) : (xs.merge ys le).filter p = xs.filter p ++ ys.filter p := by
  induction xs generalizing ys with
  | nil => rw [List.nil_merge, List.filter_nil, List.nil_append]
  | cons x xs ihx =>
    induction ys with
    | nil => rw [List.merge_right, List.filter_nil, List.append_nil]
    | cons y ys ihy =>
      by_cases hxy : le x y = true
      · rw [List.cons_merge_cons_pos _ _ _ hxy, List.filter_cons, List.filter_cons (x := x),
          ihx hxs.tail]
        split
        · rw [List.cons_append]
        · rfl
      · rw [List.cons_merge_cons_neg _ _ _ hxy, List.filter_cons, ihy]
        by_cases hy : p y = true
        · -- all of the left list is behind `y`, so that nothing of it is in the tie
          have hnone : (x :: xs).filter p = [] := by
            rw [List.filter_eq_nil_iff]
            intro a ha hpa
            exact hxy (trans _ _ _ (le_of_mem_cons total hxs ha) (hp _ _ hpa hy))
          rw [if_pos hy, hnone, List.nil_append, List.nil_append, List.filter_cons_of_pos hy]
        · rw [if_neg hy, List.filter_cons_of_neg hy]

theorem filter_mergeSort (trans : ∀ a b c, le a b → le b c → le a c)
    (total : ∀ a b, le a b || le b a) (hp : IsTie le p) (xs : List α) :
    (xs.mergeSort le).filter p = xs.filter p := by
  have hpairwise : (xs.filter p).Pairwise fun a b => le a b :=
    List.pairwise_of_forall_mem_list fun a ha b hb =>
      hp a b (List.mem_filter.mp ha).2 (List.mem_filter.mp hb).2
  have hsublist := (List.sublist_mergeSort trans total hpairwise List.filter_sublist).filter p
  have hlength := ((List.mergeSort_perm xs le).filter p).length_eq
  rw [List.filter_filter] at hsublist
  simp only [Bool.and_self] at hsublist
  exact (hsublist.eq_of_length hlength.symm).symm

theorem mem_of_filter_tied_eq (total : ∀ a b, le a b || le b a)
    (h : ∀ x, xs.filter (tied le x) = ys.filter (tied le x)) {x : α} (hx : x ∈ xs) : x ∈ ys := by
  have hfilter := List.mem_filter.mpr ⟨hx, tied_self total x⟩
  rw [h] at hfilter
  exact (List.mem_filter.mp hfilter).1

/-- Two lists in order are the same if they agree on the elements tied with any one. -/
theorem eq_of_filter_tied (total : ∀ a b, le a b || le b a) (hxs : xs.Pairwise fun a b => le a b)
    (hys : ys.Pairwise fun a b => le a b)
    (h : ∀ x, xs.filter (tied le x) = ys.filter (tied le x)) : xs = ys := by
  induction xs generalizing ys with
  | nil =>
    cases ys with
    | nil => rfl
    | cons y ys =>
      have hy := mem_of_filter_tied_eq total (fun x => (h x).symm) List.mem_cons_self
      exact absurd hy List.not_mem_nil
  | cons x xs ih =>
    cases ys with
    | nil => exact absurd (mem_of_filter_tied_eq total h List.mem_cons_self) List.not_mem_nil
    | cons y ys =>
      -- each head is in the other list, and so not before the other head
      have hx := mem_of_filter_tied_eq total h List.mem_cons_self
      have hy := mem_of_filter_tied_eq total (fun x => (h x).symm) List.mem_cons_self
      have hyx := le_of_mem_cons total hys hx
      have hxy := le_of_mem_cons total hxs hy
      have hhead := h x
      rw [List.filter_cons_of_pos (tied_self total x),
        List.filter_cons_of_pos (by rw [tied, hxy, hyx]; rfl)] at hhead
      obtain ⟨rfl, -⟩ := List.cons.inj hhead
      refine congrArg (x :: ·) (ih hxs.tail hys.tail fun z => ?_)
      have hz := h z
      rw [List.filter_cons, List.filter_cons] at hz
      split at hz
      · exact (List.cons.inj hz).2
      · exact hz

/-- **A merge of two lists in order is the stable sort of both.** -/
theorem merge_eq_mergeSort (trans : ∀ a b c, le a b → le b c → le a c)
    (total : ∀ a b, le a b || le b a) (hxs : xs.Pairwise fun a b => le a b)
    (hys : ys.Pairwise fun a b => le a b) : xs.merge ys le = (xs ++ ys).mergeSort le := by
  refine eq_of_filter_tied total (List.pairwise_merge trans total xs ys hxs hys)
    (List.pairwise_mergeSort trans total (xs ++ ys)) fun x => ?_
  have htie := isTie_tied trans x
  rw [filter_merge trans total htie hxs, filter_mergeSort trans total htie, List.filter_append]

end sorting

/-! ## Running keys -/

/-- The later of a key and of what came before it, if anything did. -/
def raised (before : Option Timestamp) (t : Timestamp) : Timestamp :=
  match before with
  | none => t
  | some s => if notAfter s t then t else s

/-- Elements with their running keys; `before` is the latest key so far, if there is one. -/
def runningFrom (key : α → Timestamp) (before : Option Timestamp) : List α → List (α × Timestamp)
  | [] => []
  | x :: xs =>
    (x, raised before (key x)) :: runningFrom key (some (raised before (key x))) xs

def withRunningKeys (key : α → Timestamp) (xs : List α) : List (α × Timestamp) :=
  runningFrom key none xs

/-- The key `t` is the latest of the keys up to position `i`. -/
structure IsRunningKey (key : α → Timestamp) (xs : List α) (i : Nat) (t : Timestamp) : Prop where
  reached : ∃ x ∈ xs.take (i + 1), key x = t
  latest : ∀ x ∈ xs.take (i + 1), notAfter (key x) t

section running
variable {α : Type u} {key : α → Timestamp} {before : Option Timestamp} {s t u : Timestamp}

theorem raised_notAfter_iff :
    notAfter (raised before t) u ↔ (∀ s ∈ before, notAfter s u) ∧ notAfter t u := by
  cases before with
  | none => simp [raised]
  | some s =>
    simp only [raised, Option.mem_some_iff, forall_eq']
    split
    · rename_i hst
      exact ⟨fun h => ⟨notAfter_trans _ _ _ hst h, h⟩, fun h => h.2⟩
    · rename_i hst
      have hts : notAfter t s := by
        have h := notAfter_total s t
        rwa [Bool.eq_false_iff.mpr hst, Bool.false_or] at h
      exact ⟨fun h => ⟨h, notAfter_trans _ _ _ hts h⟩, fun h => h.1⟩

theorem raised_eq_or_mem (before : Option Timestamp) (t : Timestamp) :
    raised before t = t ∨ raised before t ∈ before := by
  cases before with
  | none => exact .inl rfl
  | some s =>
    rw [raised]
    split
    · exact .inl rfl
    · exact .inr rfl

theorem notAfter_raised : notAfter t (raised before t) :=
  (raised_notAfter_iff.mp (notAfter_refl _)).2

theorem notAfter_raised_of_mem (h : s ∈ before) : notAfter s (raised before t) :=
  (raised_notAfter_iff.mp (notAfter_refl _)).1 s h

theorem map_fst_runningFrom (before : Option Timestamp) (xs : List α) :
    (runningFrom key before xs).map Prod.fst = xs := by
  induction xs generalizing before with
  | nil => rfl
  | cons x xs ih => rw [runningFrom, List.map_cons, ih]

theorem notAfter_of_mem_runningFrom {xs : List α} {q : α × Timestamp}
    (hq : q ∈ runningFrom key before xs) (hs : s ∈ before) : notAfter s q.2 := by
  induction xs generalizing before s with
  | nil => exact absurd hq List.not_mem_nil
  | cons x xs ih =>
    have hsx := notAfter_raised_of_mem (t := key x) hs
    rcases List.mem_cons.mp hq with rfl | hq
    · exact hsx
    · exact notAfter_trans _ _ _ hsx (ih hq rfl)

theorem pairwise_runningFrom (key : α → Timestamp) (before : Option Timestamp) (xs : List α) :
    (runningFrom key before xs).Pairwise fun q r => notAfter q.2 r.2 := by
  induction xs generalizing before with
  | nil => exact .nil
  | cons x xs ih => exact .cons (fun q hq => notAfter_of_mem_runningFrom hq rfl) (ih _)

theorem getElem?_runningFrom {xs : List α} {i : Nat} {x : α}
    (h : (runningFrom key before xs)[i]? = some (x, t)) :
    (t ∈ before ∨ ∃ y ∈ xs.take (i + 1), key y = t) ∧
      ∀ y ∈ xs.take (i + 1), notAfter (key y) t := by
  induction xs generalizing before i with
  | nil => cases h
  | cons z xs ih =>
    rw [List.take_succ_cons]
    have hhead : raised before (key z) ∈ before ∨
        ∃ y ∈ z :: xs.take i, key y = raised before (key z) := by
      rcases raised_eq_or_mem before (key z) with heq | hmem
      · exact .inr ⟨z, List.mem_cons_self, heq.symm⟩
      · exact .inl hmem
    cases i with
    | zero =>
      obtain ⟨rfl, rfl⟩ := Prod.mk.inj (Option.some.inj h)
      refine ⟨hhead, fun y hy => ?_⟩
      rw [List.take_zero] at hy
      rw [List.mem_singleton.mp hy]
      exact notAfter_raised
    | succ i =>
      rw [runningFrom, List.getElem?_cons_succ] at h
      obtain ⟨hreached, hlatest⟩ := ih h
      have hz : notAfter (raised before (key z)) t :=
        notAfter_of_mem_runningFrom (List.mem_of_getElem? h) rfl
      refine ⟨?_, fun y hy => ?_⟩
      · rcases hreached with heq | ⟨y, hy, heq⟩
        · rw [← Option.some.inj heq]
          exact hhead
        · exact .inr ⟨y, List.mem_cons_of_mem _ hy, heq⟩
      · rcases List.mem_cons.mp hy with rfl | hy
        · exact notAfter_trans _ _ _ notAfter_raised hz
        · exact hlatest y hy

theorem isRunningKey {xs : List α} {i : Nat} {x : α}
    (h : (withRunningKeys key xs)[i]? = some (x, t)) : IsRunningKey key xs i t := by
  obtain ⟨hreached, hlatest⟩ := getElem?_runningFrom h
  rcases hreached with hnone | hreached
  · cases hnone
  · exact ⟨hreached, hlatest⟩

/-! ## Merging -/

/-- Heads compare as their running keys do. Here `topLeft` and `topRight` are the latest keys taken
so far: what was taken on the left is not after the next of the right list, and what was taken on
the right is before the next of the left list. -/
theorem map_fst_merge_runningFrom {left right : List α} {topLeft topRight : Option Timestamp}
    (hleft : ∀ s ∈ topLeft, ∀ b ∈ right.head?, notAfter s (raised topRight (key b)))
    (hright : ∀ s ∈ topRight, ∀ a ∈ left.head?, ¬ notAfter (raised topLeft (key a)) s) :
    ((runningFrom key topLeft left).merge (runningFrom key topRight right)
      fun q r => notAfter q.2 r.2).map Prod.fst = mergeBy key left right := by
  unfold mergeBy
  induction left generalizing topLeft topRight right with
  | nil => rw [runningFrom, List.nil_merge, List.nil_merge, map_fst_runningFrom]
  | cons a left ihl =>
    induction right generalizing topRight with
    | nil => rw [runningFrom, List.merge_right, List.merge_right, map_fst_runningFrom]
    | cons b right ihr =>
      rw [runningFrom, runningFrom, List.cons_merge_cons, List.cons_merge_cons]
      by_cases hab : notAfter (key a) (key b) = true
      · have hrunning : notAfter (raised topLeft (key a)) (raised topRight (key b)) :=
          raised_notAfter_iff.mpr
            ⟨fun s hs => hleft s hs b rfl, notAfter_trans _ _ _ hab notAfter_raised⟩
        rw [if_pos hab, if_pos hrunning, List.map_cons]
        refine congrArg (a :: ·) (@ihl (b :: right) (some (raised topLeft (key a))) topRight ?_ ?_)
        · intro s hs b' hb
          obtain rfl := Option.some.inj hs
          obtain rfl := Option.some.inj hb
          exact hrunning
        · intro s hs a' _ h
          exact hright s hs a rfl (notAfter_trans _ _ _ (notAfter_raised_of_mem rfl) h)
      · have hrunning : ¬ notAfter (raised topLeft (key a)) (raised topRight (key b)) := by
          intro h
          rcases raised_eq_or_mem topRight (key b) with heq | hmem
          · rw [heq] at h
            exact hab (notAfter_trans _ _ _ notAfter_raised h)
          · exact hright _ hmem a rfl h
        rw [if_neg hab, if_neg hrunning, List.map_cons]
        refine congrArg (b :: ·) (@ihr (some (raised topRight (key b))) ?_ ?_)
        · intro s hs b' _
          exact notAfter_trans _ _ _ (hleft s hs b rfl) (notAfter_raised_of_mem rfl)
        · intro s hs a' ha
          obtain rfl := Option.some.inj hs
          obtain rfl := Option.some.inj ha
          exact hrunning

theorem isTie_compare_eq (key : α → Timestamp) (t : Timestamp) :
    IsTie (fun a b => notAfter (key a) (key b)) fun x => (key x).compare t == .eq := by
  intro a b ha hb
  rw [beq_iff_eq] at ha hb
  have hat : notAfter (key a) t := by rw [notAfter, ha]; rfl
  have htb : notAfter t (key b) := by rw [notAfter, Std.OrientedCmp.eq_symm hb]; rfl
  exact notAfter_trans _ _ _ hat htb

end running

/-- A list is the stable sort of two others by their keys. -/
structure SortedByKey (key : α → Timestamp) (left right merged : List α) : Prop where
  eq_mergeSort : merged = (left ++ right).mergeSort fun a b => notAfter (key a) (key b)
  /-- Keys never fall. -/
  pairwise : merged.Pairwise fun a b => notAfter (key a) (key b)
  /-- Behind a missing key all are missing. -/
  missing_last : merged.Pairwise fun a b => key a = none → key b = none
  /-- Where keys tie, the left list goes first, and both lists keep their order. -/
  left_first (t : Timestamp) :
    merged.filter (fun x => (key x).compare t == .eq) =
      left.filter (fun x => (key x).compare t == .eq) ++
        right.filter (fun x => (key x).compare t == .eq)

/-- A merge of these lists is their stable sort by running keys. -/
structure SortsByRunningKey (key : α → Timestamp) (left right : List α) : Prop where
  /-- Every element has a running key. -/
  elements (xs : List α) : (withRunningKeys key xs).map Prod.fst = xs
  /-- It is the latest of the keys up to the element. -/
  running (xs : List α) (i : Nat) (x : α) (t : Timestamp) :
    (withRunningKeys key xs)[i]? = some (x, t) → IsRunningKey key xs i t
  eq_mergeSort : mergeBy key left right =
    ((withRunningKeys key left ++ withRunningKeys key right).mergeSort
      fun q r => notAfter q.2 r.2).map Prod.fst
  /-- Every element is there as often as in both lists. -/
  perm : (mergeBy key left right).Perm (left ++ right)
  /-- Both lists keep their order. -/
  interleaves : Interleaves left right (mergeBy key left right)
  /-- Of lists in order, a merge is the stable sort by the keys themselves. -/
  ordered : left.Pairwise (fun a b => notAfter (key a) (key b)) →
    right.Pairwise (fun a b => notAfter (key a) (key b)) →
      SortedByKey key left right (mergeBy key left right)
  /-- With nothing on one side, a merge is the other side. -/
  nil_left : mergeBy key [] right = right
  nil_right : mergeBy key left [] = left

section sorts
variable {α : Type u} (key : α → Timestamp) (left right : List α)

theorem mergeBy_eq_mergeSort_running : mergeBy key left right =
    ((withRunningKeys key left ++ withRunningKeys key right).mergeSort
      fun q r => notAfter q.2 r.2).map Prod.fst := by
  have htrans (q r s : α × Timestamp) : notAfter q.2 r.2 → notAfter r.2 s.2 → notAfter q.2 s.2 :=
    notAfter_trans _ _ _
  have htotal (q r : α × Timestamp) : notAfter q.2 r.2 || notAfter r.2 q.2 := notAfter_total _ _
  have hsort := merge_eq_mergeSort htrans htotal (pairwise_runningFrom key none left)
    (pairwise_runningFrom key none right)
  rw [withRunningKeys, withRunningKeys, ← hsort]
  exact (map_fst_merge_runningFrom (fun s hs => by cases hs) fun s hs => by cases hs).symm

theorem sortedByKey_mergeBy {key : α → Timestamp} {left right : List α}
    (hleft : left.Pairwise fun a b => notAfter (key a) (key b))
    (hright : right.Pairwise fun a b => notAfter (key a) (key b)) :
    SortedByKey key left right (mergeBy key left right) := by
  have htrans (a b c : α) : notAfter (key a) (key b) → notAfter (key b) (key c) →
      notAfter (key a) (key c) := notAfter_trans _ _ _
  have htotal (a b : α) : notAfter (key a) (key b) || notAfter (key b) (key a) :=
    notAfter_total _ _
  have hpairwise := pairwise_mergeBy hleft hright
  refine ⟨merge_eq_mergeSort htrans htotal hleft hright, hpairwise, hpairwise.imp ?_, fun t => ?_⟩
  · intro a b hab ha
    rw [ha] at hab
    cases hb : key b with
    | none => rfl
    | some y => rw [hb, notAfter_none_some] at hab; cases hab
  · exact filter_merge htrans htotal (isTie_compare_eq key t) hleft right

/-- **A merge of any two lists is their stable sort by running keys.** -/
theorem sortsByRunningKey : SortsByRunningKey key left right where
  elements := map_fst_runningFrom none
  running _ _ _ _ := isRunningKey
  eq_mergeSort := mergeBy_eq_mergeSort_running key left right
  perm := List.merge_perm_append _
  interleaves := interleaves_mergeBy key left right
  ordered := sortedByKey_mergeBy
  nil_left := List.nil_merge ..
  nil_right := List.merge_right ..

/-- The key one waits behind the key five. -/
example : mergeBy id [some ⟨0x4014000000000000⟩, some ⟨0x3FF0000000000000⟩]
    [some ⟨0x4008000000000000⟩] =
    [some ⟨0x4008000000000000⟩, some ⟨0x4014000000000000⟩, some ⟨0x3FF0000000000000⟩] := by
  cbv

end sorts

end Chronicle
