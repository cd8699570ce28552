import Chronicle.Proofs.Timeline.Coherence
import Chronicle.Proofs.Timeline.Pairing

/-!
# What a builder shows over time

A builder shows at any time what it would give in the end (`liveItems_eq_finalItems`). From event to
event the items that it shows only grow:

* `ShownStep`: what one event may do to them. `Request.shownStep_extend` is one request.
* `ShownStep.getElem?`: what one event may do to the item at a place.
* `getElem?_itemsAfter_of_le`: what all events may do to it.
* `GrowsOnly`, `growsOnly`: items come at the end, stay where they are, and change once at most, when
  an action that waits is resolved.
-/

namespace Chronicle

open TimelineItem (isPending)

/-! ## Now and in the end -/

/-- **A builder shows what it would give in the end**, one item for every slot, and as many of them
wait as there are invocations on the stack. -/
theorem liveItems_eq_finalItems (limits : Limits) (events : List Event) :
    (Builder.pushAll limits {} events).liveItems = (Builder.pushAll limits {} events).finalItems ∧
      (Builder.pushAll limits {} events).liveItems.length =
        (Builder.pushAll limits {} events).slots.length ∧
      (Builder.pushAll limits {} events).openCount =
        (Builder.pushAll limits {} events).liveItems.countP isPending := by
  rw [Builder.pushAll_eq_ofItems, Builder.liveItems_ofItems, Builder.finalItems_ofItems]
  refine ⟨rfl, ?_, ?_⟩
  · show _ = (List.map TimelineItem.slot _).length
    rw [List.length_map]
  · show (pendingFrom 0 _).reverse.length = _
    rw [List.length_reverse, length_pendingFrom]

/-! ## One event -/

/-- The second action is the first one with an outcome; nothing else in it is changed. -/
structure IsResolution (a r : Action) : Prop where
  waits : a.status = .pending
  done : r.status ≠ .pending
  rest : r = { a with status := r.status, output := r.output, durationMs := r.durationMs }

/-- What one event may do to the items that are shown. -/
inductive ShownStep : List TimelineItem → List TimelineItem → Prop where
  /-- Nothing is changed. -/
  | same (items : List TimelineItem) : ShownStep items items
  /-- One item is new, behind all others. -/
  | new (items : List TimelineItem) (item : TimelineItem) : ShownStep items (items ++ [item])
  /-- The last action that waits is resolved. -/
  | resolved (before after : List TimelineItem) {a r : Action} (resolution : IsResolution a r)
      (last : after.any isPending = false) :
      ShownStep (before ++ .action a :: after) (before ++ .action r :: after)

theorem Action.isResolution_resolve {a : Action} (ha : a.status = .pending) (content : String)
    (finished : Timestamp) : IsResolution a (a.resolve content finished) :=
  ⟨ha, a.status_resolve content finished, rfl⟩

theorem Request.shownStep_extend (items : List TimelineItem) (r : Request) :
    ShownStep items (r.extend items) := by
  cases r with
  | ignore => exact .same items
  | turn t => exact .new items _
  | action numbered => exact .new items _
  | invocation numbered => exact .new items _
  | outcome content finished =>
    rw [extend]
    by_cases hwait : items.any isPending = true
    · obtain ⟨before, a, after, rfl, ha, hafter⟩ := exists_last_pending hwait
      rw [settleLast_append ha hafter]
      exact .resolved before after (Action.isResolution_resolve ha content finished) hafter
    · rw [settleLast_of_none (Bool.not_eq_true _ ▸ hwait)]
      exact .same items

theorem shownStep_push (limits : Limits) (events : List Event) (e : Event) :
    ShownStep (Builder.pushAll limits {} events).liveItems
      (Builder.push limits (Builder.pushAll limits {} events) e).liveItems := by
  rw [Builder.pushAll_eq_ofItems, Builder.push, Builder.apply_ofItems _ (e.sound_request limits),
    Builder.liveItems_ofItems, Builder.liveItems_ofItems]
  exact Request.shownStep_extend _ _

theorem ShownStep.getElem? {items items' : List TimelineItem} (h : ShownStep items items') {i : Nat}
    {item : TimelineItem} (hi : items[i]? = some item) :
    items'[i]? = some item ∨
      ∃ a r, item = .action a ∧ IsResolution a r ∧ items'[i]? = some (.action r) := by
  cases h with
  | same => exact .inl hi
  | new item' =>
    rw [List.getElem?_append_left (List.getElem?_eq_some_iff.mp hi).1]
    exact .inl hi
  | @resolved before after a r resolution =>
    have hset : before ++ .action r :: after =
        (before ++ .action a :: after).set before.length (.action r) := by
      simp
    by_cases hplace : before.length = i
    · subst hplace
      rw [List.getElem?_append_right (Nat.le_refl _), Nat.sub_self] at hi
      refine .inr ⟨a, r, (Option.some.inj hi).symm, resolution, ?_⟩
      rw [List.getElem?_append_right (Nat.le_refl _), Nat.sub_self]
      rfl
    · rw [hset, List.getElem?_set_ne hplace]
      exact .inl hi

/-! ## Whole runs -/

/-- The event at position `n` changes the item at place `i`. -/
def ChangesAt (limits : Limits) (events : List Event) (i n : Nat) : Prop :=
  ∃ item, (itemsAfter limits events n)[i]? = some item ∧
    (itemsAfter limits events (n + 1))[i]? ≠ some item

section run
variable {limits : Limits} {events : List Event} {i m n : Nat} {item : TimelineItem}

theorem shownStep_itemsAfter (limits : Limits) (events : List Event) (n : Nat) :
    ShownStep (itemsAfter limits events n) (itemsAfter limits events (n + 1)) := by
  cases he : events[n]? with
  | some e =>
    rw [itemsAfter_succ he]
    exact Request.shownStep_extend _ _
  | none =>
    rw [itemsAfter_succ_of_none he]
    exact .same _

/-- The item at a place stays for good, or it is an action that waits and is once resolved. -/
theorem getElem?_itemsAfter_of_le (hmn : m ≤ n)
    (hi : (itemsAfter limits events m)[i]? = some item) :
    (itemsAfter limits events n)[i]? = some item ∨
      ∃ a r, item = .action a ∧ IsResolution a r ∧
        (itemsAfter limits events n)[i]? = some (.action r) := by
  induction hmn with
  | refl => exact .inl hi
  | @step n _ ih =>
    have hstep := shownStep_itemsAfter limits events n
    rcases ih with hsame | ⟨a, r, rfl, hresolution, hr⟩
    · exact hstep.getElem? hsame
    · rcases hstep.getElem? hr with hsame | ⟨r', r'', heq, hagain, -⟩
      · exact .inr ⟨a, r, rfl, hresolution, hsame⟩
      · -- what is resolved does not wait
        cases heq
        exact absurd hagain.waits hresolution.done

theorem getElem?_itemsAfter_of_not_isPending (hmn : m ≤ n)
    (hi : (itemsAfter limits events m)[i]? = some item) (hitem : item.isPending = false) :
    (itemsAfter limits events n)[i]? = some item := by
  rcases getElem?_itemsAfter_of_le hmn hi with hsame | ⟨a, r, rfl, hresolution, -⟩
  · exact hsame
  · rw [TimelineItem.isPending_action, hresolution.waits] at hitem
    cases hitem

theorem ChangesAt.not_changesAt (h : ChangesAt limits events i m) (hmn : m < n) :
    ¬ ChangesAt limits events i n := by
  obtain ⟨item, hi, hchanged⟩ := h
  rcases (shownStep_itemsAfter limits events m).getElem? hi with hsame | ⟨a, r, -, hresolution, hr⟩
  · exact absurd hsame hchanged
  · have hdone : TimelineItem.isPending (.action r) = false := by
      simpa using hresolution.done
    rintro ⟨item', hi', hchanged'⟩
    have hn := getElem?_itemsAfter_of_not_isPending hmn hr hdone
    have hn' := getElem?_itemsAfter_of_not_isPending (Nat.le_succ_of_le hmn) hr hdone
    rw [hn] at hi'
    rw [hn', hi'] at hchanged'
    exact hchanged' rfl

end run

/-- The items that a builder shows while it takes these events, and then any other one, only grow. -/
structure GrowsOnly (limits : Limits) (events : List Event) : Prop where
  /-- One more event changes nothing, brings one item or resolves the last action that waits. -/
  step (e : Event) : ShownStep (Builder.pushAll limits {} events).liveItems
    (Builder.push limits (Builder.pushAll limits {} events) e).liveItems
  /-- Turns and resolved actions stay as they are, at their places. -/
  kept (i m n : Nat) (item : TimelineItem) : m ≤ n →
    (itemsAfter limits events m)[i]? = some item → item.isPending = false →
      (itemsAfter limits events n)[i]? = some item
  /-- An action that waits goes on waiting or is resolved, at its place. -/
  waiting (i m n : Nat) (a : Action) : m ≤ n →
    (itemsAfter limits events m)[i]? = some (.action a) → a.status = .pending →
      ∃ r, (itemsAfter limits events n)[i]? = some (.action r) ∧ (r = a ∨ IsResolution a r)
  /-- No item is changed by two events. -/
  once (i m n : Nat) : ChangesAt limits events i m → ChangesAt limits events i n → m = n

/-- **The items that a builder shows only grow.** -/
theorem growsOnly (limits : Limits) (events : List Event) : GrowsOnly limits events where
  step := shownStep_push limits events
  kept _ _ _ _ hmn hi hitem := getElem?_itemsAfter_of_not_isPending hmn hi hitem
  waiting i m n a hmn hi _ := by
    rcases getElem?_itemsAfter_of_le hmn hi with hsame | ⟨a', r, heq, hresolution, hr⟩
    · exact ⟨a, hsame, .inl rfl⟩
    · cases heq
      exact ⟨r, hr, .inr hresolution⟩
  once i m n hm hn := by
    rcases Nat.lt_trichotomy m n with hmn | hmn | hnm
    · exact absurd hn (hm.not_changesAt hmn)
    · exact hmn
    · exact absurd hm (hn.not_changesAt hnm)

end Chronicle
