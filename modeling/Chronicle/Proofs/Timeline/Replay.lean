import Chronicle.Timeline.Builder

/-!
# A timeline as one list

A builder keeps the items in slots and the invocations that wait on a stack. All of this can be read
off the list of items that it shows, and events can be taken on that list alone.

* `replay`: the items of a stream of events. An outcome settles the last pending action.
* `Builder.ofItems`: the builder that shows these items.
* `pushAll_eq_ofItems`: a builder that has taken events is the builder of the replayed items, so
  `replay` is what it shows at any time and what it gives in the end (`timelineOf_eq_replay`).
-/

namespace Chronicle

/-! ## Items -/

namespace TimelineItem

def isPending : TimelineItem → Bool
  | .turn _ => false
  | .action a => a.status == .pending

def isAction (item : TimelineItem) : Bool := item.action?.isSome

@[simp] theorem isPending_turn (t : Turn) : isPending (.turn t) = false := rfl

@[simp] theorem isPending_action (a : Action) :
    isPending (.action a) = (a.status == .pending) := rfl

@[simp] theorem isAction_turn (t : Turn) : isAction (.turn t) = false := rfl

@[simp] theorem isAction_action (a : Action) : isAction (.action a) = true := rfl

/-- The item with an outcome, if it waits for one. -/
def settle (content : String) (finished : Timestamp) : TimelineItem → TimelineItem
  | .turn t => .turn t
  | .action a => if a.status = .pending then .action (a.resolve content finished) else .action a

/-- What the slot of an item holds before the end. -/
def slot (item : TimelineItem) : Slot := if item.isPending then .vacant else .filled item

end TimelineItem

open TimelineItem (isPending isAction)

def settleLast (content : String) (finished : Timestamp) : List TimelineItem → List TimelineItem
  | [] => []
  | item :: items =>
    if items.any isPending then item :: settleLast content finished items
    else item.settle content finished :: items

def actionCount (items : List TimelineItem) : Nat := items.countP isAction

/-- What a request makes of the items. -/
def Request.extend (items : List TimelineItem) : Request → List TimelineItem
  | .ignore => items
  | .turn t => items ++ [.turn t]
  | .action numbered => items ++ [.action (numbered (actionCount items + 1))]
  | .invocation numbered => items ++ [.action (numbered (actionCount items + 1))]
  | .outcome content finished => settleLast content finished items

def replayStep (limits : Limits) (items : List TimelineItem) (e : Event) : List TimelineItem :=
  (e.request limits).extend items

def replay (limits : Limits) (events : List Event) : List TimelineItem :=
  events.foldl (replayStep limits) []

/-! ## Requests of events -/

/-- An action but for its number: nothing else in it depends on the number. -/
structure IsNumbering (numbered : Nat → Action) : Prop where
  eq_with (n : Nat) : numbered n = { numbered 0 with id := n }

/-- What holds of all requests that events make. An action that is complete is not pending, and an
invocation is, with nothing in it that an outcome would bring. -/
inductive Request.Sound : Request → Prop where
  | ignore : Sound .ignore
  | turn (t : Turn) : Sound (.turn t)
  | action {numbered : Nat → Action} (numbering : IsNumbering numbered)
      (complete : (numbered 0).status ≠ .pending) : Sound (.action numbered)
  | invocation {numbered : Nat → Action} (numbering : IsNumbering numbered)
      (pending : (numbered 0).status = .pending) (output : (numbered 0).output = none)
      (duration : (numbered 0).durationMs = none) : Sound (.invocation numbered)
  | outcome (content : String) (finished : Timestamp) : Sound (.outcome content finished)

theorem IsNumbering.status {numbered : Nat → Action} (h : IsNumbering numbered) (n : Nat) :
    (numbered n).status = (numbered 0).status := by
  rw [h.eq_with n]

theorem isNumbering_mk (timestamp : Timestamp) (category : Category) (tool label : String)
    (status : Status) (input : Option Json) (output : Option String) (durationMs : Option Nat) :
    IsNumbering fun id =>
      { id, timestamp, category, tool, label, status, input, output, durationMs } :=
  ⟨fun _ => rfl⟩

theorem SystemNote.status_ne_pending (note : SystemNote) : note.status ≠ .pending := by
  cases note <;> simp [SystemNote.status]

theorem sound_turnOf (limits : Limits) (speaker : Speaker) (e : Event) :
    (((turnOf limits speaker e).map Request.turn).getD .ignore).Sound := by
  cases turnOf limits speaker e with
  | none => exact .ignore
  | some t => exact .turn t

theorem Event.sound_request (limits : Limits) (e : Event) : (e.request limits).Sound := by
  unfold Event.request
  cases e.payload with
  | user => exact sound_turnOf limits .user e
  | assistant => exact sound_turnOf limits .assistant e
  | toolInvocation tool input => exact .invocation (isNumbering_mk ..) rfl rfl rfl
  | toolOutcome => exact .outcome e.content e.timestamp
  | system note => exact .action (isNumbering_mk ..) note.status_ne_pending
  | thinking => exact .action (isNumbering_mk ..) nofun
  | progress progress => exact .action (isNumbering_mk ..) nofun
  | summary => exact .action (isNumbering_mk ..) nofun
  | hook tool input => exact .action (isNumbering_mk ..) nofun
  | error => exact .action (isNumbering_mk ..) nofun

/-! ## The last item that waits -/

theorem Action.status_resolve (a : Action) (content : String) (finished : Timestamp) :
    (a.resolve content finished).status ≠ .pending := by
  unfold Action.resolve
  cases Content.reportsFailure content <;> simp

theorem TimelineItem.settle_of_not_isPending {item : TimelineItem} (h : item.isPending = false)
    (content : String) (finished : Timestamp) : item.settle content finished = item := by
  cases item with
  | turn t => rfl
  | action a => simp_all [settle]

theorem settleLast_of_none {items : List TimelineItem} (h : items.any isPending = false)
    (content : String) (finished : Timestamp) : settleLast content finished items = items := by
  cases items with
  | nil => rfl
  | cons item items =>
    rw [List.any_cons, Bool.or_eq_false_iff] at h
    rw [settleLast, if_neg (by simp [h.2]), TimelineItem.settle_of_not_isPending h.1]

theorem settleLast_append {before after : List TimelineItem} {a : Action}
    (ha : a.status = .pending) (hafter : after.any isPending = false) (content : String)
    (finished : Timestamp) :
    settleLast content finished (before ++ .action a :: after) =
      before ++ .action (a.resolve content finished) :: after := by
  induction before with
  | nil =>
    rw [List.nil_append, settleLast, if_neg (by simp [hafter])]
    simp [TimelineItem.settle, ha]
  | cons item before ih =>
    rw [List.cons_append, settleLast, if_pos (by simp [ha]), ih, List.cons_append]

theorem exists_last_pending {items : List TimelineItem} (h : items.any isPending = true) :
    ∃ before a after, items = before ++ .action a :: after ∧ a.status = .pending ∧
      after.any isPending = false := by
  induction items with
  | nil => simp at h
  | cons item items ih =>
    by_cases hrest : items.any isPending = true
    · obtain ⟨before, a, after, rfl, ha, hafter⟩ := ih hrest
      exact ⟨item :: before, a, after, rfl, ha, hafter⟩
    · rw [List.any_cons, Bool.eq_false_iff.mpr hrest, Bool.or_false] at h
      cases item with
      | turn t => simp at h
      | action a => exact ⟨[], a, items, rfl, by simpa using h, by simpa using hrest⟩

/-! ## The invocations that wait -/

/-- The actions that wait and their places, the earliest first; `n` is the first place. -/
def pendingFrom (n : Nat) : List TimelineItem → List PendingAction
  | [] => []
  | .turn _ :: items => pendingFrom (n + 1) items
  | .action a :: items =>
    if a.status = .pending then ⟨n, a⟩ :: pendingFrom (n + 1) items else pendingFrom (n + 1) items

theorem pendingFrom_append (n : Nat) (items more : List TimelineItem) :
    pendingFrom n (items ++ more) = pendingFrom n items ++ pendingFrom (n + items.length) more := by
  induction items generalizing n with
  | nil => rfl
  | cons item items ih =>
    have hn : n + (items.length + 1) = n + 1 + items.length := by omega
    cases item with
    | turn t => rw [List.cons_append, pendingFrom, pendingFrom, ih, List.length_cons, hn]
    | action a =>
      rw [List.cons_append, pendingFrom, pendingFrom, ih, List.length_cons, hn]
      split <;> rfl

theorem pendingFrom_of_none {items : List TimelineItem} (h : items.any isPending = false)
    (n : Nat) : pendingFrom n items = [] := by
  induction items generalizing n with
  | nil => rfl
  | cons item items ih =>
    rw [List.any_cons, Bool.or_eq_false_iff] at h
    cases item with
    | turn t => exact ih h.2 _
    | action a =>
      rw [pendingFrom, if_neg (by simpa using h.1)]
      exact ih h.2 _

theorem le_slot_of_mem_pendingFrom {n : Nat} {items : List TimelineItem} {p : PendingAction}
    (h : p ∈ pendingFrom n items) : n ≤ p.slot := by
  induction items generalizing n with
  | nil => simp [pendingFrom] at h
  | cons item items ih =>
    cases item with
    | turn t => exact Nat.le_of_succ_le (ih h)
    | action a =>
      rw [pendingFrom] at h
      split at h
      · rcases List.mem_cons.mp h with rfl | h
        · exact Nat.le_refl _
        · exact Nat.le_of_succ_le (ih h)
      · exact Nat.le_of_succ_le (ih h)

theorem actionCount_append (items more : List TimelineItem) :
    actionCount (items ++ more) = actionCount items + actionCount more :=
  List.countP_append

/-! ## The builder of a list of items -/

namespace Builder

/-- The builder that shows these items. -/
def ofItems (items : List TimelineItem) : Builder where
  slots := items.map TimelineItem.slot
  waiting := (pendingFrom 0 items).reverse
  nextId := actionCount items + 1

theorem waiting_ofItems {before after : List TimelineItem} {a : Action}
    (ha : a.status = .pending) (hafter : after.any isPending = false) :
    (ofItems (before ++ .action a :: after)).waiting =
      ⟨before.length, a⟩ :: (ofItems before).waiting := by
  simp [ofItems, pendingFrom_append, pendingFrom, ha, pendingFrom_of_none hafter]

theorem waiting_ofItems_of_none {items : List TimelineItem} (h : items.any isPending = false) :
    (ofItems items).waiting = [] := by
  simp [ofItems, pendingFrom_of_none h]

theorem ofItems_append_turn (items : List TimelineItem) (t : Turn) :
    ofItems (items ++ [.turn t]) =
      { ofItems items with slots := (ofItems items).slots ++ [.filled (.turn t)] } := by
  simp [ofItems, pendingFrom_append, pendingFrom, actionCount, TimelineItem.slot]

theorem ofItems_append_action (items : List TimelineItem) {a : Action} (ha : a.status ≠ .pending) :
    ofItems (items ++ [.action a]) =
      { ofItems items with
        slots := (ofItems items).slots ++ [.filled (.action a)]
        nextId := (ofItems items).nextId + 1 } := by
  simp [ofItems, pendingFrom_append, pendingFrom, actionCount, TimelineItem.slot, ha]

theorem ofItems_append_invocation (items : List TimelineItem) {a : Action}
    (ha : a.status = .pending) :
    ofItems (items ++ [.action a]) =
      { slots := (ofItems items).slots ++ [.vacant]
        waiting := ⟨(ofItems items).slots.length, a⟩ :: (ofItems items).waiting
        nextId := (ofItems items).nextId + 1 } := by
  simp [ofItems, pendingFrom_append, pendingFrom, actionCount, TimelineItem.slot, ha]

theorem ofItems_settled {before after : List TimelineItem} {a r : Action}
    (ha : a.status = .pending) (hr : r.status ≠ .pending) (hafter : after.any isPending = false) :
    ofItems (before ++ .action r :: after) =
      { ofItems (before ++ .action a :: after) with
        slots := fill (ofItems (before ++ .action a :: after)).slots ⟨before.length, r⟩
        waiting := (ofItems before).waiting } := by
  simp [ofItems, fill, pendingFrom_append, pendingFrom, actionCount, List.countP_cons,
    TimelineItem.slot, ha, hr, pendingFrom_of_none hafter]

theorem apply_ofItems (items : List TimelineItem) {r : Request} (hr : r.Sound) :
    (ofItems items).apply r = ofItems (r.extend items) := by
  cases hr with
  | ignore => rfl
  | turn t => exact (ofItems_append_turn items t).symm
  | action numbering complete =>
    rw [← numbering.status] at complete
    exact (ofItems_append_action items complete).symm
  | invocation numbering pending =>
    rw [← numbering.status] at pending
    exact (ofItems_append_invocation items pending).symm
  | outcome content finished =>
    rw [Request.extend, apply]
    by_cases hwait : items.any isPending = true
    · obtain ⟨before, a, after, rfl, ha, hafter⟩ := exists_last_pending hwait
      rw [settleLast_append ha hafter, waiting_ofItems ha hafter,
        ofItems_settled ha (a.status_resolve content finished) hafter]
    · rw [Bool.not_eq_true] at hwait
      rw [settleLast_of_none hwait, waiting_ofItems_of_none hwait]

/-! ## What the builder shows -/

theorem shown?_ofItems {items : List TimelineItem} {index : Nat} {item : TimelineItem}
    (h : items[index]? = some item) : (ofItems items).shown? index item.slot = some item := by
  by_cases hwait : item.isPending = true
  · obtain ⟨hlt, hitem⟩ := List.getElem?_eq_some_iff.mp h
    cases item with
    | turn t => simp at hwait
    | action a =>
      have ha : a.status = .pending := by simpa using hwait
      -- the entries of later slots stand before its own on the stack
      have hsplit : items = items.take index ++ .action a :: items.drop (index + 1) := by
        rw [← hitem, ← List.drop_eq_getElem_cons hlt, List.take_append_drop]
      have hlater : (pendingFrom (index + 1) (items.drop (index + 1))).reverse.find?
          (fun place => place.slot == index) = none := by
        rw [List.find?_eq_none]
        intro place hmem
        have := le_slot_of_mem_pendingFrom (List.mem_reverse.mp hmem)
        simp only [beq_iff_eq]
        omega
      have hlength : (items.take index).length = index := by
        rw [List.length_take]
        omega
      rw [TimelineItem.slot, if_pos hwait, shown?, ofItems, hsplit, pendingFrom_append, pendingFrom,
        if_pos ha, hlength, Nat.zero_add, List.reverse_append, List.reverse_cons, List.append_assoc,
        List.find?_append, hlater]
      simp
  · rw [TimelineItem.slot, if_neg hwait]
    rfl

theorem liveItems_ofItems (items : List TimelineItem) : (ofItems items).liveItems = items := by
  have hshown : (ofItems items).slots.mapIdx (ofItems items).shown? = items.map some := by
    refine List.ext_getElem? fun index => ?_
    rw [List.getElem?_mapIdx, List.getElem?_map]
    show Option.map _ (items.map TimelineItem.slot)[index]? = _
    rw [List.getElem?_map]
    cases h : items[index]? with
    | none => rfl
    | some item => exact congrArg some (shown?_ofItems h)
  rw [liveItems, hshown, List.filterMap_map]
  exact List.filterMap_some

theorem foldl_fill_pendingFrom (done : List Slot) (items : List TimelineItem) :
    (pendingFrom done.length items).foldl fill (done ++ items.map TimelineItem.slot) =
      done ++ items.map .filled := by
  induction items generalizing done with
  | nil => rfl
  | cons item items ih =>
    have hnext := ih (done ++ [.filled item])
    rw [List.length_append, List.length_singleton, List.append_assoc, List.append_assoc] at hnext
    cases item with
    | turn t => exact hnext
    | action a =>
      rw [pendingFrom]
      split
      · rename_i ha
        have hfill : fill (done ++ TimelineItem.slot (.action a) :: items.map TimelineItem.slot)
            ⟨done.length, a⟩ =
            done ++ .filled (.action a) :: items.map TimelineItem.slot := by
          simp [fill]
        rw [List.foldl_cons, List.map_cons, hfill]
        exact hnext
      · rename_i ha
        rw [List.map_cons, TimelineItem.slot, if_neg (by simpa using ha)]
        exact hnext

theorem finalItems_ofItems (items : List TimelineItem) : (ofItems items).finalItems = items := by
  have hfill := foldl_fill_pendingFrom [] items
  rw [List.length_nil, List.nil_append, List.nil_append] at hfill
  rw [finalItems]
  show (((pendingFrom 0 items).reverse.reverse.foldl fill
    (items.map TimelineItem.slot)).filterMap Slot.item?) = items
  rw [List.reverse_reverse, hfill, List.filterMap_map]
  exact List.filterMap_some

/-! ## Runs -/

theorem pushAll_ofItems (limits : Limits) (items : List TimelineItem) (events : List Event) :
    pushAll limits (ofItems items) events = ofItems (events.foldl (replayStep limits) items) := by
  induction events generalizing items with
  | nil => rfl
  | cons e events ih =>
    rw [pushAll, List.foldl_cons, push, apply_ofItems items (e.sound_request limits)]
    exact ih (replayStep limits items e)

/-- **A builder that has taken events is the builder of the replayed items.** -/
theorem pushAll_eq_ofItems (limits : Limits) (events : List Event) :
    pushAll limits {} events = ofItems (replay limits events) :=
  pushAll_ofItems limits [] events

theorem liveItems_pushAll (limits : Limits) (events : List Event) :
    (pushAll limits {} events).liveItems = replay limits events := by
  rw [pushAll_eq_ofItems, liveItems_ofItems]

end Builder

theorem timelineOf_eq_replay (limits : Limits) (events : List Event) :
    timelineOf limits events = replay limits events := by
  rw [timelineOf, Builder.pushAll_eq_ofItems, Builder.finalItems_ofItems]

end Chronicle
