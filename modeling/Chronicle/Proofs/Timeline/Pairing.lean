import Chronicle.Proofs.Time.Order
import Chronicle.Proofs.Timeline.Brackets
import Chronicle.Proofs.Timeline.Replay

/-!
# Outcomes and the invocations that they resolve

An action stands at one place of the timeline from the event that brings it to the end.

* `placeOf`, `WaitsAfter`, `Resolves`: which outcome resolves which action, told by what a builder
  shows before and after it.
* `map_slot_waiting`: the stack of a builder holds the places of the invocations without a partner.
* `PairedByBrackets`, `pairedByBrackets`: outcomes resolve actions exactly as brackets match, and
  what becomes of the actions.
-/

namespace Chronicle

/-- What a builder shows after the first `n` events. -/
def itemsAfter (limits : Limits) (events : List Event) (n : Nat) : List TimelineItem :=
  (Builder.pushAll limits {} (events.take n)).liveItems

/-- The place in the timeline that the event at position `i` finds free. -/
def placeOf (limits : Limits) (events : List Event) (i : Nat) : Nat :=
  (itemsAfter limits events i).length

/-- After `n` events, the action of the event at position `i` waits for its outcome. -/
def WaitsAfter (limits : Limits) (events : List Event) (i n : Nat) : Prop :=
  ∃ a, (itemsAfter limits events n)[placeOf limits events i]? = some (.action a) ∧
    a.status = .pending

/-- The outcome at position `j` resolves the action of the invocation at position `i`. -/
structure Resolves (limits : Limits) (events : List Event) (i j : Nat) : Prop where
  opening : (events.map Event.kind)[i]? = some .toolInvocation
  closing : (events.map Event.kind)[j]? = some .toolOutcome
  waits : WaitsAfter limits events i j
  settled : ¬ WaitsAfter limits events i (j + 1)

/-! ## Requests by kind -/

namespace Event

theorem request_of_toolInvocation (limits : Limits) {e : Event} (h : e.kind = .toolInvocation) :
    ∃ numbered, e.request limits = .invocation numbered ∧ ∀ n,
      (numbered n).timestamp = e.timestamp ∧ (numbered n).status = .pending ∧
      (numbered n).output = none ∧ (numbered n).durationMs = none := by
  unfold kind at h
  unfold request
  cases hp : e.payload with
  | toolInvocation tool input => exact ⟨_, rfl, fun _ => ⟨rfl, rfl, rfl, rfl⟩⟩
  | _ => simp [hp] at h

theorem request_of_toolOutcome (limits : Limits) {e : Event} (h : e.kind = .toolOutcome) :
    e.request limits = .outcome e.content e.timestamp := by
  unfold kind at h
  unfold request
  cases hp : e.payload with
  | toolOutcome => rfl
  | _ => simp [hp] at h

theorem request_of_other (limits : Limits) {e : Event} (hi : e.kind ≠ .toolInvocation)
    (ho : e.kind ≠ .toolOutcome) :
    e.request limits = .ignore ∨ (∃ t, e.request limits = .turn t) ∨
      ∃ numbered, e.request limits = .action numbered := by
  unfold kind at hi ho
  unfold request
  cases hp : e.payload with
  | user => cases turnOf limits .user e <;> simp
  | assistant => cases turnOf limits .assistant e <;> simp
  | toolInvocation tool input => simp [hp] at hi
  | toolOutcome => simp [hp] at ho
  | _ => exact .inr (.inr ⟨_, rfl⟩)

end Event

/-! ## One event -/

section run
variable {limits : Limits} {events : List Event} {e : Event} {n : Nat}

theorem itemsAfter_eq_replay (limits : Limits) (events : List Event) (n : Nat) :
    itemsAfter limits events n = replay limits (events.take n) :=
  Builder.liveItems_pushAll limits (events.take n)

theorem itemsAfter_succ (he : events[n]? = some e) :
    itemsAfter limits events (n + 1) = (e.request limits).extend (itemsAfter limits events n) := by
  rw [itemsAfter_eq_replay, itemsAfter_eq_replay, List.take_add_one, he, replay, List.foldl_append]
  rfl

theorem itemsAfter_succ_of_none (he : events[n]? = none) :
    itemsAfter limits events (n + 1) = itemsAfter limits events n := by
  rw [itemsAfter, itemsAfter, List.take_add_one, he, Option.toList_none, List.append_nil]

theorem itemsAfter_length (limits : Limits) (events : List Event) :
    itemsAfter limits events events.length = timelineOf limits events := by
  rw [itemsAfter_eq_replay, List.take_length, timelineOf_eq_replay]

theorem length_settleLast (content : String) (finished : Timestamp) (items : List TimelineItem) :
    (settleLast content finished items).length = items.length := by
  induction items with
  | nil => rfl
  | cons item items ih =>
    rw [settleLast]
    split
    · rw [List.length_cons, List.length_cons, ih]
    · rfl

theorem Request.length_le_extend (items : List TimelineItem) (r : Request) :
    items.length ≤ (r.extend items).length := by
  cases r with
  | outcome content finished => exact Nat.le_of_eq (length_settleLast content finished items).symm
  | _ => simp [extend]

theorem length_itemsAfter_le (limits : Limits) (events : List Event) {m : Nat} (h : m ≤ n) :
    (itemsAfter limits events m).length ≤ (itemsAfter limits events n).length := by
  induction h with
  | refl => exact Nat.le_refl _
  | @step n _ ih =>
    refine Nat.le_trans ih ?_
    cases he : events[n]? with
    | none => exact Nat.le_of_eq (congrArg List.length (itemsAfter_succ_of_none he).symm)
    | some e =>
      rw [itemsAfter_succ he]
      exact Request.length_le_extend _ _

theorem getElem?_map_kind (he : events[n]? = some e) :
    (events.map Event.kind)[n]? = some e.kind := by
  rw [List.getElem?_map, he, Option.map_some]

theorem exists_getElem? {k : Kind} (h : (events.map Event.kind)[n]? = some k) :
    ∃ e, events[n]? = some e ∧ e.kind = k := by
  rwa [List.getElem?_map, Option.map_eq_some_iff] at h

theorem itemsAfter_succ_of_invocation (limits : Limits) (he : events[n]? = some e)
    (hk : e.kind = .toolInvocation) :
    ∃ a, itemsAfter limits events (n + 1) = itemsAfter limits events n ++ [.action a] ∧
      a.timestamp = e.timestamp ∧ a.status = .pending ∧ a.output = none ∧ a.durationMs = none := by
  obtain ⟨numbered, hr, hnumbered⟩ := Event.request_of_toolInvocation limits hk
  refine ⟨numbered (actionCount (itemsAfter limits events n) + 1), ?_, hnumbered _⟩
  rw [itemsAfter_succ he, hr, Request.extend]

theorem prefix_itemsAfter_succ (limits : Limits) (he : events[n]? = some e)
    (ho : e.kind ≠ .toolOutcome) :
    itemsAfter limits events n <+: itemsAfter limits events (n + 1) := by
  by_cases hi : e.kind = .toolInvocation
  · obtain ⟨a, ha, -⟩ := itemsAfter_succ_of_invocation limits he hi
    rw [ha]
    exact List.prefix_append _ _
  · rw [itemsAfter_succ he]
    rcases Event.request_of_other limits hi ho with hr | ⟨t, hr⟩ | ⟨numbered, hr⟩
    · rw [hr]
      exact List.prefix_rfl
    · rw [hr]
      exact List.prefix_append _ _
    · rw [hr]
      exact List.prefix_append _ _

/-! ## The stack of a builder -/

theorem Builder.waiting_apply_outcome (b : Builder) (content : String) (finished : Timestamp) :
    (b.apply (.outcome content finished)).waiting = b.waiting.tail := by
  rw [apply]
  cases h : b.waiting with
  | nil => exact h
  | cons latest waiting => rfl

/-- **The stack holds the places of the invocations without a partner.** -/
theorem map_slot_waiting (limits : Limits) (hn : n ≤ events.length) :
    (Builder.ofItems (itemsAfter limits events n)).waiting.map PendingAction.slot =
      (openAfter (events.map Event.kind) n).map (placeOf limits events) := by
  induction n with
  | zero => rfl
  | succ n ih =>
    have he := List.getElem?_eq_getElem (show n < events.length by omega)
    have hk := getElem?_map_kind he
    have ih := ih (by omega)
    rw [itemsAfter_succ he, ← Builder.apply_ofItems _ (events[n].sound_request limits)]
    by_cases hi : events[n].kind = .toolInvocation
    · obtain ⟨numbered, hr, -⟩ := Event.request_of_toolInvocation limits hi
      rw [hi] at hk
      rw [openAfter_succ_of_invocation hk, List.map_cons, ← ih, hr, Builder.apply, List.map_cons]
      show (List.map TimelineItem.slot _).length :: _ = _
      rw [List.length_map, placeOf]
    · by_cases ho : events[n].kind = .toolOutcome
      · rw [ho] at hk
        rw [openAfter_succ_of_outcome hk, List.map_tail, ← ih,
          Event.request_of_toolOutcome limits ho, Builder.waiting_apply_outcome, List.map_tail]
      · rw [openAfter_succ_of_other hk hi ho, ← ih]
        rcases Event.request_of_other limits hi ho with hr | ⟨t, hr⟩ | ⟨numbered, hr⟩
        · rw [hr, Builder.apply]
        · rw [hr, Builder.apply]
        · rw [hr, Builder.apply]

theorem settleLast_of_waiting_nil {items : List TimelineItem}
    (h : (Builder.ofItems items).waiting = []) (content : String) (finished : Timestamp) :
    settleLast content finished items = items := by
  by_cases hwait : items.any TimelineItem.isPending = true
  · obtain ⟨before, a, after, rfl, ha, hafter⟩ := exists_last_pending hwait
    rw [Builder.waiting_ofItems ha hafter] at h
    cases h
  · exact settleLast_of_none (Bool.not_eq_true _ ▸ hwait) content finished

theorem settleLast_of_waiting_cons {items : List TimelineItem} {latest : PendingAction}
    {waiting : List PendingAction} (h : (Builder.ofItems items).waiting = latest :: waiting) :
    items[latest.slot]? = some (.action latest.action) ∧ latest.action.status = .pending ∧
      ∀ content finished, settleLast content finished items =
        items.set latest.slot (.action (latest.action.resolve content finished)) := by
  by_cases hwait : items.any TimelineItem.isPending = true
  · obtain ⟨before, a, after, rfl, ha, hafter⟩ := exists_last_pending hwait
    rw [Builder.waiting_ofItems ha hafter] at h
    obtain ⟨rfl, -⟩ := List.cons.inj h
    refine ⟨by simp, ha, fun content finished => ?_⟩
    rw [settleLast_append ha hafter]
    simp
  · rw [Builder.waiting_ofItems_of_none (Bool.not_eq_true _ ▸ hwait)] at h
    cases h

end run

/-! ## One outcome -/

section outcome
variable {limits : Limits} {events : List Event} {e o : Event} {i j k n : Nat}

theorem itemsAfter_succ_of_matches (limits : Limits) (h : Matches (events.map Event.kind) i j)
    (ho : events[j]? = some o) :
    ∃ a, (itemsAfter limits events j)[placeOf limits events i]? = some (.action a) ∧
      a.status = .pending ∧
      itemsAfter limits events (j + 1) = (itemsAfter limits events j).set (placeOf limits events i)
        (.action (a.resolve o.content o.timestamp)) := by
  obtain ⟨hclosing, hhead⟩ := matches_iff_head?.mp h
  have hk : o.kind = .toolOutcome := by
    rw [getElem?_map_kind ho] at hclosing
    exact Option.some.inj hclosing
  have hslots := map_slot_waiting limits (Nat.le_of_lt (List.getElem?_eq_some_iff.mp ho).1)
  obtain ⟨rest, hopen⟩ := List.head?_eq_some_iff.mp hhead
  rw [hopen, List.map_cons, List.map_eq_cons_iff] at hslots
  obtain ⟨latest, waiting, hwaiting, hslot, -⟩ := hslots
  obtain ⟨hitem, hpending, hsettle⟩ := settleLast_of_waiting_cons hwaiting
  rw [← hslot, itemsAfter_succ ho, Event.request_of_toolOutcome limits hk, Request.extend]
  exact ⟨latest.action, hitem, hpending, hsettle o.content o.timestamp⟩

theorem itemsAfter_succ_of_unmatched (limits : Limits) (ho : events[j]? = some o)
    (hk : o.kind = .toolOutcome) (h : ∀ i, ¬ Matches (events.map Event.kind) i j) :
    itemsAfter limits events (j + 1) = itemsAfter limits events j := by
  have hclosing := getElem?_map_kind ho
  rw [hk] at hclosing
  have hopen : openAfter (events.map Event.kind) j = [] := by
    rw [← List.head?_eq_none_iff, Option.eq_none_iff_forall_ne_some]
    intro i hhead
    exact h i (matches_iff_head?.mpr ⟨hclosing, hhead⟩)
  have hslots := map_slot_waiting limits (Nat.le_of_lt (List.getElem?_eq_some_iff.mp ho).1)
  rw [hopen, List.map_nil, List.map_eq_nil_iff] at hslots
  rw [itemsAfter_succ ho, Event.request_of_toolOutcome limits hk, Request.extend]
  exact settleLast_of_waiting_nil hslots o.content o.timestamp

theorem placeOf_lt (hi : (events.map Event.kind)[i]? = some .toolInvocation) (hik : i < k) :
    placeOf limits events i < placeOf limits events k := by
  obtain ⟨e, he, hkind⟩ := exists_getElem? hi
  obtain ⟨a, ha, -⟩ := itemsAfter_succ_of_invocation limits he hkind
  have hle := length_itemsAfter_le limits events (Nat.succ_le_of_lt hik)
  rw [Nat.succ_eq_add_one, ha, List.length_append, List.length_singleton] at hle
  exact hle

theorem placeOf_ne (hi : (events.map Event.kind)[i]? = some .toolInvocation)
    (hk : (events.map Event.kind)[k]? = some .toolInvocation) (hne : i ≠ k) :
    placeOf limits events i ≠ placeOf limits events k := by
  rcases Nat.lt_or_gt_of_ne hne with h | h
  · exact Nat.ne_of_lt (placeOf_lt hi h)
  · exact Nat.ne_of_gt (placeOf_lt hk h)

theorem getElem?_itemsAfter_succ (hi : (events.map Event.kind)[i]? = some .toolInvocation)
    (he : events[n]? = some e) (h : ¬ Matches (events.map Event.kind) i n) {item : TimelineItem}
    (hitem : (itemsAfter limits events n)[placeOf limits events i]? = some item) :
    (itemsAfter limits events (n + 1))[placeOf limits events i]? = some item := by
  by_cases hk : e.kind = .toolOutcome
  · by_cases hpartner : ∃ k, Matches (events.map Event.kind) k n
    · obtain ⟨k, hk⟩ := hpartner
      have hne : k ≠ i := by
        rintro rfl
        exact h hk
      obtain ⟨a, -, -, hset⟩ := itemsAfter_succ_of_matches limits hk he
      rw [hset, List.getElem?_set_ne (placeOf_ne hk.opening hi hne)]
      exact hitem
    · rw [itemsAfter_succ_of_unmatched limits he hk (not_exists.mp hpartner)]
      exact hitem
  · obtain ⟨more, hmore⟩ := prefix_itemsAfter_succ limits he hk
    rw [← hmore, List.getElem?_append_left (List.getElem?_eq_some_iff.mp hitem).1]
    exact hitem

/-- **An outcome resolves the action of its partner and of no other invocation.** -/
theorem resolves_iff_matches :
    Resolves limits events i j ↔ Matches (events.map Event.kind) i j := by
  constructor
  · rintro ⟨hopening, hclosing, ⟨a, hitem, hpending⟩, hsettled⟩
    obtain ⟨o, ho, -⟩ := exists_getElem? hclosing
    by_cases h : Matches (events.map Event.kind) i j
    · exact h
    · exact absurd ⟨a, getElem?_itemsAfter_succ hopening ho h hitem, hpending⟩ hsettled
  · intro h
    obtain ⟨o, ho, -⟩ := exists_getElem? h.closing
    obtain ⟨a, hitem, hpending, hset⟩ := itemsAfter_succ_of_matches limits h ho
    refine ⟨h.opening, h.closing, ⟨a, hitem, hpending⟩, ?_⟩
    rintro ⟨b, hb, hstatus⟩
    rw [hset, List.getElem?_set_self (List.getElem?_eq_some_iff.mp hitem).1] at hb
    cases hb
    exact a.status_resolve o.content o.timestamp hstatus

theorem timelineOf_eraseIdx (ho : events[j]? = some o) (hk : o.kind = .toolOutcome)
    (h : ∀ i, ¬ Matches (events.map Event.kind) i j) :
    timelineOf limits (events.eraseIdx j) = timelineOf limits events := by
  have hsame := itemsAfter_succ_of_unmatched limits ho hk h
  rw [itemsAfter_eq_replay, itemsAfter_eq_replay] at hsame
  rw [timelineOf_eq_replay, timelineOf_eq_replay, List.eraseIdx_eq_take_drop_succ]
  conv => rhs; rw [← List.take_append_drop (j + 1) events]
  rw [replay, replay, List.foldl_append, List.foldl_append]
  exact congrArg (List.foldl (replayStep limits) · (events.drop (j + 1))) hsame.symm

/-! ## Whole runs -/

theorem item_of_invocation (hi : (events.map Event.kind)[i]? = some .toolInvocation) {a : Action}
    (ha : itemsAfter limits events (i + 1) = itemsAfter limits events i ++ [.action a])
    (hin : i < n) (hn : n ≤ events.length) :
    ((∀ j < n, ¬ Matches (events.map Event.kind) i j) ∧
      (itemsAfter limits events n)[placeOf limits events i]? = some (.action a)) ∨
    ∃ j o, j < n ∧ events[j]? = some o ∧ Matches (events.map Event.kind) i j ∧
      (itemsAfter limits events n)[placeOf limits events i]? =
        some (.action (a.resolve o.content o.timestamp)) := by
  induction n with
  | zero => omega
  | succ n ih =>
    by_cases hlast : i = n
    · subst hlast
      refine .inl ⟨fun j hj h => ?_, ?_⟩
      · have := h.lt
        omega
      · rw [ha, placeOf, List.getElem?_concat_length]
    · have ho := List.getElem?_eq_getElem (show n < events.length by omega)
      -- the event is the partner, which comes once, or it leaves the action as it is
      by_cases h : Matches (events.map Event.kind) i n
      · obtain ⟨b, hb, -, hset⟩ := itemsAfter_succ_of_matches limits h ho
        rcases ih (by omega) (by omega) with ⟨-, hitem⟩ | ⟨j, -, hj, -, hmatch, -⟩
        · rw [hitem] at hb
          cases hb
          refine .inr ⟨n, _, Nat.lt_succ_self n, ho, h, ?_⟩
          rw [hset, List.getElem?_set_self (List.getElem?_eq_some_iff.mp hitem).1]
        · exact absurd (hmatch.closing_unique h) (Nat.ne_of_lt hj)
      · rcases ih (by omega) (by omega) with ⟨hnone, hitem⟩ | ⟨j, o, hj, ho', hmatch, hitem⟩
        · refine .inl ⟨fun j hj => ?_, getElem?_itemsAfter_succ hi ho h hitem⟩
          rcases Nat.lt_succ_iff_lt_or_eq.mp hj with hj | rfl
          · exact hnone j hj
          · exact h
        · exact .inr ⟨j, o, Nat.lt_succ_of_lt hj, ho', hmatch,
            getElem?_itemsAfter_succ hi ho h hitem⟩

end outcome

theorem Timestamp.isSome_elapsedMillis (started finished : Timestamp) :
    (elapsedMillis started finished).isSome ↔ started.isKnown ∧ finished.isKnown := by
  rw [← isSome_known, ← isSome_known, elapsedMillis]
  cases started.known <;> cases finished.known <;> simp

/-- In the timeline of these events, outcomes are paired with invocations exactly as closing
brackets with opening ones. -/
structure PairedByBrackets (limits : Limits) (events : List Event) : Prop where
  /-- An outcome resolves an action exactly if a balanced stretch lies between the two events. -/
  resolves_iff (i j : Nat) : Resolves limits events i j ↔ Matches (events.map Event.kind) i j
  /-- An outcome resolves one action at most. -/
  one_action (i i' j : Nat) : Resolves limits events i j → Resolves limits events i' j → i = i'
  /-- An action is resolved by one outcome at most. -/
  one_outcome (i j j' : Nat) : Resolves limits events i j → Resolves limits events i j' → j = j'
  /-- Who is paired with whom is a matter of the kinds of the events alone. -/
  only_kinds (limits' : Limits) (events' : List Event) :
    events'.map Event.kind = events.map Event.kind →
      ∀ i j, Resolves limits' events' i j ↔ Resolves limits events i j
  /-- An outcome that resolves an action changes no other item. -/
  changes_one (i j : Nat) : Matches (events.map Event.kind) i j →
    ∀ place, place ≠ placeOf limits events i →
      (itemsAfter limits events (j + 1))[place]? = (itemsAfter limits events j)[place]?
  /-- An outcome without a partner changes nothing. -/
  dropped (j : Nat) (o : Event) : events[j]? = some o → o.kind = .toolOutcome →
    (∀ i, ¬ Matches (events.map Event.kind) i j) →
      timelineOf limits (events.eraseIdx j) = timelineOf limits events
  /-- An invocation brings a pending action without output and duration. The timeline has that
  action if the invocation has no partner, and else the action with what its partner tells. -/
  action (i : Nat) (e : Event) : events[i]? = some e → e.kind = .toolInvocation →
    ∃ a, itemsAfter limits events (i + 1) = itemsAfter limits events i ++ [.action a] ∧
      a.status = .pending ∧ a.output = none ∧ a.durationMs = none ∧
      ((∀ j, ¬ Matches (events.map Event.kind) i j) →
        (timelineOf limits events)[placeOf limits events i]? = some (.action a)) ∧
      ∀ j o, events[j]? = some o → Matches (events.map Event.kind) i j →
        (timelineOf limits events)[placeOf limits events i]? = some (.action { a with
          output := some o.content
          status := if Content.reportsFailure o.content then .error else .success
          durationMs := Timestamp.elapsedMillis e.timestamp o.timestamp })
  /-- A duration is told exactly if both times are known. -/
  duration (started finished : Timestamp) :
    (Timestamp.elapsedMillis started finished).isSome ↔ started.isKnown ∧ finished.isKnown

/-- **Outcomes resolve actions exactly as brackets match.** -/
theorem pairedByBrackets (limits : Limits) (events : List Event) :
    PairedByBrackets limits events where
  resolves_iff i j := resolves_iff_matches
  one_action i i' j h h' :=
    (resolves_iff_matches.mp h).opening_unique (resolves_iff_matches.mp h')
  one_outcome i j j' h h' :=
    (resolves_iff_matches.mp h).closing_unique (resolves_iff_matches.mp h')
  only_kinds limits' events' hkinds i j := by
    rw [resolves_iff_matches, resolves_iff_matches, hkinds]
  changes_one i j h place hplace := by
    obtain ⟨o, ho, -⟩ := exists_getElem? h.closing
    obtain ⟨a, -, -, hset⟩ := itemsAfter_succ_of_matches limits h ho
    rw [hset, List.getElem?_set_ne hplace.symm]
  dropped j o ho hk h := timelineOf_eraseIdx ho hk h
  action i e he hk := by
    obtain ⟨a, ha, htime, hpending, houtput, hduration⟩ :=
      itemsAfter_succ_of_invocation limits he hk
    have hi := getElem?_map_kind he
    rw [hk] at hi
    have hlife := item_of_invocation hi ha (List.getElem?_eq_some_iff.mp he).1 (Nat.le_refl _)
    rw [itemsAfter_length] at hlife
    refine ⟨a, ha, hpending, houtput, hduration, fun hnone => ?_, fun j o ho h => ?_⟩
    · rcases hlife with ⟨-, hitem⟩ | ⟨j, -, -, -, hmatch, -⟩
      · exact hitem
      · exact absurd hmatch (hnone j)
    · rcases hlife with ⟨hnone, -⟩ | ⟨j', o', -, ho', hmatch, hitem⟩
      · exact absurd h (hnone j (List.getElem?_eq_some_iff.mp ho).1)
      · obtain rfl := hmatch.closing_unique h
        obtain rfl : o' = o := Option.some.inj (ho'.symm.trans ho)
        rw [hitem, Action.resolve, htime]
  duration := Timestamp.isSome_elapsedMillis

end Chronicle
