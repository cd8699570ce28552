import Chronicle.Proofs.Interleaving
import Chronicle.Proofs.Time.Order

/-!
# Merged streams in order

Hook records are sorted by the numbers that they carry, and streams are merged by known times. The
two orders part where a number is no known time.

* `inOrder_mergeStreams_sort_iff`: sorted hook records merged into a stream in order give one in
  order, exactly when no early record has a record with a known time after it.
* `timesInOrder_mergeStreams_sort_iff`: in a stream whose known times are in order, an event without
  one lets all hooks pass. The known times stay in order exactly when no hook is later than an event
  that stands after such a gap.
-/

namespace Chronicle

/-- In order of time, events without a known time last. -/
def InOrder (events : List Event) : Prop :=
  events.Pairwise fun a b => notAfter a.orderKey b.orderKey

/-- The known times are in order, wherever the other events stand. -/
def TimesInOrder (events : List Event) : Prop :=
  (events.filterMap Event.orderKey).Pairwise fun x y => (x.compare y).isLE

instance (events : List Event) : Decidable (InOrder events) :=
  inferInstanceAs (Decidable (events.Pairwise _))

instance (events : List Event) : Decidable (TimesInOrder events) :=
  inferInstanceAs (Decidable (List.Pairwise _ _))

/-! ## Hook events -/

theorem HookRecord.orderKey_toEvent (r : HookRecord) : r.toEvent.orderKey = r.timestamp.known := by
  unfold Event.orderKey toEvent
  cases r.timestamp <;> rfl

theorem HookRecord.mem_sort {r : HookRecord} {records : List HookRecord} :
    r ∈ sort records ↔ r ∈ records :=
  List.mem_mergeSort

theorem HookRecord.pairwise_timestamp_sort (records : List HookRecord) :
    (sort records).Pairwise fun a b => notAfter a.timestamp b.timestamp :=
  (pairwise_sort records).imp notAfter_of_isLE_compare

theorem HookRecord.isEarly_before_isKnown {records : List HookRecord} {r s : HookRecord}
    (hr : r ∈ records) (hs : s ∈ records) (hearly : r.timestamp.isEarly)
    (hknown : s.timestamp.isKnown) :
    ∃ (i j : Nat) (hi : i < (sort records).length) (hj : j < (sort records).length), i < j ∧
      (sort records)[i] = r ∧ (sort records)[j] = s := by
  obtain ⟨i, hi, rfl⟩ := List.getElem_of_mem (mem_sort.mpr hr)
  obtain ⟨j, hj, rfl⟩ := List.getElem_of_mem (mem_sort.mpr hs)
  have hlate := not_notAfter_of_isEarly hearly hknown
  refine ⟨i, j, hi, hj, ?_, rfl, rfl⟩
  rcases Nat.lt_trichotomy i j with hij | rfl | hji
  · exact hij
  · exact absurd (notAfter_refl _) hlate
  · have horder := List.pairwise_iff_getElem.mp (pairwise_timestamp_sort records)
    exact absurd (horder j i hj hi hji) hlate

/-- **Events of sorted hook records are in order** exactly when early records and records with a
known time do not come together. -/
theorem inOrder_sort_iff (records : List HookRecord) :
    InOrder ((HookRecord.sort records).map HookRecord.toEvent) ↔
      ¬ ((∃ r ∈ records, r.timestamp.isEarly) ∧ ∃ s ∈ records, s.timestamp.isKnown) := by
  simp only [InOrder, List.pairwise_map, HookRecord.orderKey_toEvent]
  constructor
  · rintro horder ⟨⟨r, hr, hearly⟩, s, hs, hknown⟩
    obtain ⟨i, j, hi, hj, hij, rfl, rfl⟩ := HookRecord.isEarly_before_isKnown hr hs hearly hknown
    have h := List.pairwise_iff_getElem.mp horder i j hi hj hij
    rw [Timestamp.known_of_not_isKnown (Timestamp.not_isKnown_of_isEarly hearly),
      Timestamp.known_of_isKnown hknown] at h
    obtain ⟨y, hy, -⟩ := Timestamp.isKnown_iff.mp hknown
    rw [hy] at h
    exact absurd h (by simp)
  · intro hapart
    refine List.Pairwise.imp_of_mem ?_ (HookRecord.pairwise_timestamp_sort records)
    intro a b ha hb hab
    refine notAfter_known hab fun ⟨hearly, hknown⟩ => hapart ?_
    exact ⟨⟨a, HookRecord.mem_sort.mp ha, hearly⟩, b, HookRecord.mem_sort.mp hb, hknown⟩

/-! ## Merging in order -/

theorem pairwise_mergeBy {key : α → Timestamp} {left right : List α}
    (hl : left.Pairwise fun a b => notAfter (key a) (key b))
    (hr : right.Pairwise fun a b => notAfter (key a) (key b)) :
    (mergeBy key left right).Pairwise fun a b => notAfter (key a) (key b) := by
  unfold mergeBy
  refine List.pairwise_merge ?_ ?_ left right hl hr
  · intro a b c hab hbc
    exact notAfter_trans _ _ _ hab hbc
  · intro a b
    exact notAfter_total _ _

theorem inOrder_mergeStreams {primary hooks : List Event} (hp : InOrder primary)
    (hh : InOrder hooks) : InOrder (mergeStreams primary hooks) :=
  pairwise_mergeBy hp hh

theorem InOrder.of_mergeStreams {primary hooks : List Event}
    (h : InOrder (mergeStreams primary hooks)) : InOrder hooks :=
  List.Pairwise.sublist (interleaves_mergeBy Event.orderKey primary hooks).sublist_right h

/-- **Sorted hooks merge into a stream in order** exactly when early records and records with a
known time do not come together. -/
theorem inOrder_mergeStreams_sort_iff {primary : List Event} (hp : InOrder primary)
    (records : List HookRecord) :
    InOrder (mergeStreams primary ((HookRecord.sort records).map HookRecord.toEvent)) ↔
      ¬ ((∃ r ∈ records, r.timestamp.isEarly) ∧ ∃ s ∈ records, s.timestamp.isKnown) := by
  rw [← inOrder_sort_iff]
  exact ⟨InOrder.of_mergeStreams, inOrder_mergeStreams hp⟩

/-- Missing and infinite times of hooks do no harm. -/
theorem inOrder_mergeStreams_sort_infinite :
    InOrder
      [⟨.user, "a", some ⟨0x4024000000000000⟩, none, none⟩, ⟨.summary, "b", none, none, none⟩] ∧
    InOrder (mergeStreams
      [⟨.user, "a", some ⟨0x4024000000000000⟩, none, none⟩, ⟨.summary, "b", none, none, none⟩]
      ((HookRecord.sort
        [{ id := "m", event := "Stop", raw := .null },
          { id := "i", timestamp := some .infinity, event := "Stop", raw := .null },
          { id := "k", timestamp := some ⟨0x4014000000000000⟩, event := "Stop", raw := .null }]).map
        HookRecord.toEvent)) :=
  ⟨by decide, (inOrder_mergeStreams_sort_iff (by decide) _).mpr (by decide)⟩

/-- A hook at time zero stands before a hook at time five, but is merged as one without a time: the
order of sorted records is not the order of merging. -/
theorem not_forall_inOrder_mergeStreams_sort :
    ¬ ∀ primary records, InOrder primary →
      InOrder (mergeStreams primary ((HookRecord.sort records).map HookRecord.toEvent)) := by
  intro h
  have horder := h [⟨.user, "a", some ⟨0x4024000000000000⟩, none, none⟩]
    [{ id := "z", timestamp := some .zero, event := "Stop", raw := .null },
      { id := "k", timestamp := some ⟨0x4014000000000000⟩, event := "Stop", raw := .null }]
    (by decide)
  exact (inOrder_sort_iff _).mp horder.of_mergeStreams (by decide)

/-! ## Events without a time -/

theorem mergeBy_cons_of_none {key : α → Timestamp} {u : α} (hu : key u = none) (rest : List α)
    (right : List α) (hright : ∀ b ∈ right, (key b).isSome) :
    mergeBy key (u :: rest) right = right ++ u :: rest := by
  unfold mergeBy
  induction right with
  | nil => rw [List.merge_right, List.nil_append]
  | cons b right ih =>
    have hb := hright b (by simp)
    obtain ⟨y, hy⟩ := Option.isSome_iff_exists.mp hb
    rw [List.cons_merge_cons, if_neg (by rw [hu, hy]; simp),
      ih fun c hc => hright c (by simp [hc]), List.cons_append]

/-- What stands before the first event without a known time is merged, and the rest follows. -/
theorem mergeBy_append_of_none {key : α → Timestamp} (dated : List α) {u : α} (hu : key u = none)
    (rest : List α) (right : List α) (hright : ∀ b ∈ right, (key b).isSome) :
    mergeBy key (dated ++ u :: rest) right = mergeBy key dated right ++ u :: rest := by
  induction dated generalizing right with
  | nil =>
    rw [List.nil_append, mergeBy_cons_of_none hu rest right hright]
    unfold mergeBy
    rw [List.nil_merge]
  | cons a dated ihl =>
    induction right with
    | nil =>
      unfold mergeBy
      rw [List.merge_right, List.merge_right]
    | cons b right ihr =>
      have hl := ihl (b :: right) hright
      have hr := ihr fun c hc => hright c (by simp [hc])
      unfold mergeBy at hl hr ⊢
      rw [List.cons_append, List.cons_merge_cons, List.cons_merge_cons, ← List.cons_append]
      split
      · rw [hl, List.cons_append]
      · rw [hr, List.cons_append]

theorem timesInOrder_iff {events : List Event} :
    TimesInOrder events ↔
      events.Pairwise fun a b => a.orderKey.isSome → notAfter a.orderKey b.orderKey := by
  rw [TimesInOrder, List.pairwise_filterMap]
  constructor
  · intro h
    refine h.imp fun {a b} hab ha => ?_
    obtain ⟨x, hx⟩ := Option.isSome_iff_exists.mp ha
    rw [hx]
    cases hy : b.orderKey with
    | none => exact notAfter_none _
    | some y => exact hab x hx y hy
  · intro h
    refine h.imp fun {a b} hab x hx y hy => ?_
    have hxy := hab (by rw [hx]; rfl)
    rwa [hx, hy] at hxy

theorem InOrder.timesInOrder {events : List Event} (h : InOrder events) : TimesInOrder events := by
  rw [timesInOrder_iff]
  refine List.Pairwise.imp ?_ h
  intro a b hab _
  exact hab

theorem TimesInOrder.inOrder {events : List Event} (h : TimesInOrder events)
    (hall : ∀ e ∈ events, e.orderKey.isSome) : InOrder events :=
  List.Pairwise.imp_of_mem (fun ha _ hab => hab (hall _ ha)) (timesInOrder_iff.mp h)

theorem exists_first_undated (events : List Event) :
    (∀ e ∈ events, e.orderKey.isSome) ∨ ∃ dated u rest, events = dated ++ u :: rest ∧
      (∀ e ∈ dated, e.orderKey.isSome) ∧ u.orderKey = none := by
  induction events with
  | nil => exact .inl (by simp)
  | cons e events ih =>
    cases he : e.orderKey with
    | none => exact .inr ⟨[], e, events, rfl, by simp, he⟩
    | some x =>
      rcases ih with hall | ⟨dated, u, rest, rfl, hdated, hu⟩
      · exact .inl (by simpa [he] using hall)
      · exact .inr ⟨e :: dated, u, rest, rfl, by simpa [he] using hdated, hu⟩

theorem inOrder_sort {records : List HookRecord} (hr : ∀ r ∈ records, r.timestamp.isKnown) :
    InOrder ((HookRecord.sort records).map HookRecord.toEvent) := by
  rw [inOrder_sort_iff]
  rintro ⟨⟨r, hmem, hearly⟩, -⟩
  exact Timestamp.not_isKnown_of_isEarly hearly (hr r hmem)

theorem mem_rest_of_pair_sublist {dated rest : List Event} {u v d : Event}
    (hdated : ∀ e ∈ dated, e.orderKey.isSome) (hvd : [v, d].Sublist (dated ++ u :: rest))
    (hv : v.orderKey = none) : d ∈ rest := by
  obtain ⟨front, back, hsplit, hfront, hback⟩ := List.sublist_append_iff.mp hvd
  cases front with
  | nil =>
    rw [List.nil_append] at hsplit
    subst hsplit
    exact List.singleton_sublist.mp hback.tail
  | cons w front =>
    obtain ⟨rfl, -⟩ := List.cons.inj hsplit
    have hw := hdated v (hfront.subset (by simp))
    rw [hv] at hw
    exact absurd hw (by simp)

theorem timesInOrder_gap_iff {dated rest hooks : List Event} {u : Event}
    (hp : TimesInOrder (dated ++ u :: rest)) (hdated : ∀ e ∈ dated, e.orderKey.isSome)
    (hu : u.orderKey = none) (hh : InOrder hooks) :
    TimesInOrder (mergeStreams dated hooks ++ u :: rest) ↔
      ∀ d ∈ rest, ∀ h ∈ hooks, h.orderKey.isSome → notAfter h.orderKey d.orderKey := by
  rw [timesInOrder_iff, List.pairwise_append] at hp ⊢
  obtain ⟨hbefore, hafter, hacross⟩ := hp
  have hmerged := inOrder_mergeStreams ((timesInOrder_iff.mpr hbefore).inOrder hdated) hh
  constructor
  · rintro ⟨-, -, h⟩ d hd hook hmem
    exact h hook (List.mem_merge.mpr (.inr hmem)) d (by simp [hd])
  · intro h
    refine ⟨timesInOrder_iff.mp hmerged.timesInOrder, hafter, fun a ha d hd => ?_⟩
    rcases List.mem_merge.mp ha with ha | ha
    · exact hacross a ha d hd
    · rcases List.mem_cons.mp hd with rfl | hd
      · rw [hu]
        exact fun _ => notAfter_none _
      · exact h d hd a ha

/-- **Known times after a gap.** If the known times of a stream are in order, and hooks all have
known times, then merging keeps the known times in order exactly when no hook is later than an event
that stands after one without a known time. -/
theorem timesInOrder_mergeStreams_sort_iff {primary : List Event} (hp : TimesInOrder primary)
    {records : List HookRecord} (hr : ∀ r ∈ records, r.timestamp.isKnown) :
    TimesInOrder (mergeStreams primary ((HookRecord.sort records).map HookRecord.toEvent)) ↔
      ∀ u d, [u, d].Sublist primary → u.orderKey = none →
        ∀ r ∈ records, notAfter r.timestamp d.orderKey := by
  have hhooks := inOrder_sort hr
  have hkey : ∀ r ∈ records, r.toEvent.orderKey = r.timestamp := fun r hmem => by
    rw [HookRecord.orderKey_toEvent, Timestamp.known_of_isKnown (hr r hmem)]
  have hsome : ∀ r ∈ records, r.toEvent.orderKey.isSome := fun r hmem => by
    rw [HookRecord.orderKey_toEvent, Timestamp.isSome_known]
    exact hr r hmem
  rcases exists_first_undated primary with hall | ⟨dated, u, rest, rfl, hdated, hu⟩
  · have hmerged := (inOrder_mergeStreams (hp.inOrder hall) hhooks).timesInOrder
    refine ⟨fun _ v d hvd hv => ?_, fun _ => hmerged⟩
    have hv' := hall v (hvd.subset (by simp))
    rw [hv] at hv'
    exact absurd hv' (by simp)
  · have hsplit := mergeBy_append_of_none dated hu rest
      ((HookRecord.sort records).map HookRecord.toEvent) (by
        simpa only [List.forall_mem_map, HookRecord.mem_sort] using hsome)
    rw [mergeStreams, hsplit, ← mergeStreams, timesInOrder_gap_iff hp hdated hu hhooks]
    simp only [List.forall_mem_map, HookRecord.mem_sort]
    constructor
    · intro h v d hvd hv r hmem
      have hd := mem_rest_of_pair_sublist hdated hvd hv
      rw [← hkey r hmem]
      exact h d hd r hmem (hsome r hmem)
    · intro h d hd r hmem _
      rw [hkey r hmem]
      refine h u d ?_ hu r hmem
      exact ((List.singleton_sublist.mpr hd).cons_cons u).trans (List.sublist_append_right dated _)

/-- Hooks at three and five seconds pass at a gap between one and nine. -/
theorem timesInOrder_mergeStreams_sort_gap :
    TimesInOrder (mergeStreams
      [⟨.user, "a", some ⟨0x3FF0000000000000⟩, none, none⟩, ⟨.summary, "b", none, none, none⟩,
        ⟨.assistant, "c", some ⟨0x4022000000000000⟩, none, none⟩]
      ((HookRecord.sort
        [{ id := "k", timestamp := some ⟨0x4014000000000000⟩, event := "Stop", raw := .null },
          { id := "j", timestamp := some ⟨0x4008000000000000⟩, event := "Stop", raw := .null }]).map
        HookRecord.toEvent)) := by
  refine (timesInOrder_mergeStreams_sort_iff (by decide) (by decide)).mpr ?_
  intro u d hud hu
  have hmem := @mem_rest_of_pair_sublist [⟨.user, "a", some ⟨0x3FF0000000000000⟩, none, none⟩]
    _ _ u d (by decide) hud hu
  rw [List.mem_singleton] at hmem
  subst hmem
  decide

/-- An event without a time, put before an event at one second, lets a hook at five pass. -/
theorem not_forall_timesInOrder_mergeStreams_sort :
    ¬ ∀ primary records, TimesInOrder primary → (∀ r ∈ records, r.timestamp.isKnown) →
      TimesInOrder (mergeStreams primary ((HookRecord.sort records).map HookRecord.toEvent)) := by
  intro h
  have horder := h
    [⟨.summary, "b", none, none, none⟩, ⟨.user, "a", some ⟨0x3FF0000000000000⟩, none, none⟩]
    [{ id := "k", timestamp := some ⟨0x4014000000000000⟩, event := "Stop", raw := .null }]
    (by decide) (by decide)
  rw [HookRecord.sort, List.mergeSort_singleton, mergeStreams,
    mergeBy_cons_of_none rfl _ _ (by decide)] at horder
  revert horder
  decide

end Chronicle
