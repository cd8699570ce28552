import Chronicle.Proofs.Timeline.Replay
import Mathlib.Data.List.Basic

/-!
# Coherent builders

The slots, the stack and the counter of a builder depend on one another. A checked builder stops
where they do not fit together; this never happens.

* `Builder.Coherent`: the stack holds exactly what the vacant slots wait for, and the actions are
  numbered in the order of the slots.
* `Builder.pushChecked`, `Builder.finalItemsChecked`: a builder that looks before it writes.
* `Coherent.applyChecked_eq`, `Coherent.finalItemsChecked_eq`: a coherent builder has no fault.
* `Regular`: what holds of the items of every stream. `Regular.extend` is one request, and
  `Regular.coherent` the builder of such items.
* `coherent_pushAll`: every builder is coherent and has no fault.
-/

namespace Chronicle

open TimelineItem (isPending action?)

/-! ## Faults -/

/-- What must not happen to a builder. -/
inductive Fault where
  /-- It writes outside of its slots. -/
  | noSlot
  /-- It writes over an item. -/
  | taken
  /-- It resolves an action that does not wait. -/
  | settled
  /-- It leaves a slot vacant in the end. -/
  | leftVacant
deriving DecidableEq

/-- The action with its outcome, if it waits for one. -/
def Action.resolveChecked (a : Action) (content : String) (finished : Timestamp) :
    Except Fault Action :=
  if a.status = .pending then .ok (a.resolve content finished) else .error .settled

namespace Builder

/-- Fills a slot that is there and vacant. -/
def fillChecked (slots : List Slot) (place : PendingAction) : Except Fault (List Slot) :=
  match slots[place.slot]? with
  | some .vacant => .ok (fill slots place)
  | some (.filled _) => .error .taken
  | none => .error .noSlot

def applyChecked (b : Builder) : Request → Except Fault Builder
  | .outcome content finished =>
    match b.waiting with
    | [] => .ok b
    | latest :: waiting => do
      let resolved ← latest.action.resolveChecked content finished
      let slots ← fillChecked b.slots ⟨latest.slot, resolved⟩
      return { b with slots, waiting }
  | r => .ok (b.apply r)

def pushChecked (limits : Limits) (b : Builder) (e : Event) : Except Fault Builder :=
  b.applyChecked (e.request limits)

def Slot.itemChecked : Slot → Except Fault TimelineItem
  | .filled item => .ok item
  | .vacant => .error .leftVacant

/-- The items in the end, one for every slot. -/
def finalItemsChecked (b : Builder) : Except Fault (List TimelineItem) := do
  let slots ← b.waiting.reverse.foldlM fillChecked b.slots
  slots.mapM Slot.itemChecked

/-! ## Coherence -/

/-- The numbers of the actions at a slot: of the one in it, or of those that wait for it. -/
def numbersAt (b : Builder) (index : Nat) : Slot → List Nat
  | .filled (.turn _) => []
  | .filled (.action a) => [a.id]
  | .vacant => (b.waiting.filter fun place => place.slot == index).map fun place => place.action.id

/-- The numbers of all actions, in the order of the slots. -/
def numbers (b : Builder) : List Nat := (b.slots.mapIdx b.numbersAt).flatten

/-- The slots, the stack and the counter of a builder fit together. -/
structure Coherent (b : Builder) : Prop where
  /-- From the bottom of the stack to its top, the slots ascend. -/
  ascending : (b.waiting.reverse.map PendingAction.slot).Pairwise (· < ·)
  inRange : ∀ place ∈ b.waiting, place.slot < b.slots.length
  /-- A slot is vacant exactly if one invocation waits for it. -/
  vacant_iff (index : Nat) :
    b.slots[index]? = some .vacant ↔ (b.waiting.map PendingAction.slot).count index = 1
  waits : ∀ place ∈ b.waiting, place.action.status = .pending ∧ place.action.output = none ∧
    place.action.durationMs = none
  settled : ∀ item, .filled item ∈ b.slots → item.isPending = false
  nextId_pos : 0 < b.nextId
  numbers_eq : b.numbers = List.range' 1 (b.nextId - 1)

/-! ## No faults -/

section coherent
variable {b : Builder}

theorem Coherent.nodup (h : b.Coherent) : (b.waiting.map PendingAction.slot).Nodup := by
  have hascending := h.ascending
  rw [List.map_reverse, List.pairwise_reverse] at hascending
  exact hascending.imp fun hlt => Nat.ne_of_gt hlt

theorem Coherent.vacant_of_mem (h : b.Coherent) {place : PendingAction} (hp : place ∈ b.waiting) :
    b.slots[place.slot]? = some .vacant := by
  rw [h.vacant_iff]
  rw [List.Nodup.count h.nodup, if_pos (List.mem_map_of_mem hp)]

theorem fillChecked_of_vacant {slots : List Slot} {place : PendingAction}
    (h : slots[place.slot]? = some .vacant) : fillChecked slots place = .ok (fill slots place) := by
  rw [fillChecked, h]

theorem Coherent.applyChecked_eq (h : b.Coherent) (r : Request) :
    b.applyChecked r = .ok (b.apply r) := by
  cases r with
  | outcome content finished =>
    rw [applyChecked, apply]
    cases hw : b.waiting with
    | nil => rfl
    | cons latest waiting =>
      have hlatest : latest ∈ b.waiting := hw ▸ List.mem_cons_self
      have hvacant := h.vacant_of_mem hlatest
      have hresolved : latest.action.resolveChecked content finished =
          .ok (latest.action.resolve content finished) := if_pos (h.waits latest hlatest).1
      have hfill : fillChecked b.slots ⟨latest.slot, latest.action.resolve content finished⟩ =
          .ok (fill b.slots ⟨latest.slot, latest.action.resolve content finished⟩) :=
        fillChecked_of_vacant hvacant
      simp only [hresolved, hfill, bind, Except.bind]
      rfl
  | _ => rfl

/-- Slots of their own, all of them vacant, can be filled in turn. -/
theorem foldlM_fillChecked {places : List PendingAction} {slots : List Slot}
    (hdistinct : (places.map PendingAction.slot).Nodup)
    (hvacant : ∀ place ∈ places, slots[place.slot]? = some .vacant) :
    places.foldlM fillChecked slots = .ok (places.foldl fill slots) := by
  induction places generalizing slots with
  | nil => rfl
  | cons place places ih =>
    rw [List.map_cons, List.nodup_cons] at hdistinct
    have hfill := fillChecked_of_vacant (hvacant place List.mem_cons_self)
    rw [List.foldlM_cons, hfill, List.foldl_cons]
    refine ih hdistinct.2 fun other hother => ?_
    have hne : place.slot ≠ other.slot := fun heq =>
      hdistinct.1 (heq ▸ List.mem_map_of_mem hother)
    rw [fill, List.getElem?_set_ne hne]
    exact hvacant other (List.mem_cons_of_mem _ hother)

theorem vacant_of_foldl_fill {places : List PendingAction} {slots : List Slot} {index : Nat}
    (h : (places.foldl fill slots)[index]? = some .vacant) :
    slots[index]? = some .vacant ∧ index ∉ places.map PendingAction.slot := by
  induction places generalizing slots with
  | nil => exact ⟨h, List.not_mem_nil⟩
  | cons place places ih =>
    obtain ⟨hvacant, hrest⟩ := ih h
    have hne : place.slot ≠ index := by
      rintro rfl
      rw [fill, List.getElem?_set_self'] at hvacant
      cases hslot : slots[place.slot]? with
      | none => rw [hslot] at hvacant; cases hvacant
      | some slot => rw [hslot] at hvacant; cases hvacant
    rw [fill, List.getElem?_set_ne hne] at hvacant
    refine ⟨hvacant, ?_⟩
    rw [List.map_cons, List.mem_cons, not_or]
    exact ⟨hne.symm, hrest⟩

theorem mapM_itemChecked {slots : List Slot} (h : .vacant ∉ slots) :
    slots.mapM Slot.itemChecked = .ok (slots.filterMap Slot.item?) := by
  induction slots with
  | nil => rfl
  | cons slot slots ih =>
    rw [List.mem_cons, not_or] at h
    cases slot with
    | vacant => exact absurd rfl h.1
    | filled item =>
      rw [List.mapM_cons, ih h.2]
      rfl

theorem Coherent.finalItemsChecked_eq (h : b.Coherent) :
    b.finalItemsChecked = .ok b.finalItems := by
  have hdistinct : (b.waiting.reverse.map PendingAction.slot).Nodup :=
    h.ascending.imp Nat.ne_of_lt
  have hfill := foldlM_fillChecked hdistinct fun place hp =>
    h.vacant_of_mem (List.mem_reverse.mp hp)
  have hfull : .vacant ∉ b.waiting.reverse.foldl fill b.slots := by
    intro hmem
    obtain ⟨index, hindex⟩ := List.mem_iff_getElem?.mp hmem
    obtain ⟨hvacant, hnone⟩ := vacant_of_foldl_fill hindex
    rw [h.vacant_iff] at hvacant
    -- the slot is waited for, and so it has been filled
    rw [List.map_reverse, List.mem_reverse, ← List.count_eq_zero, hvacant] at hnone
    exact absurd hnone Nat.one_ne_zero
  rw [finalItemsChecked, hfill]
  exact mapM_itemChecked hfull

end coherent

end Builder

/-! ## Regular items -/

/-- The actions among these items are numbered from one on, and those that wait have nothing that an
outcome would bring. -/
structure Regular (items : List TimelineItem) : Prop where
  numbered : (items.filterMap action?).map Action.id = List.range' 1 (actionCount items)
  bare (a : Action) : .action a ∈ items → a.status = .pending →
    a.output = none ∧ a.durationMs = none

namespace Regular

variable {items : List TimelineItem}

theorem nil : Regular [] := ⟨rfl, fun _ h => absurd h List.not_mem_nil⟩

theorem concat_turn (h : Regular items) (t : Turn) : Regular (items ++ [.turn t]) := by
  refine ⟨?_, fun a ha => ?_⟩
  · rw [List.filterMap_append, List.map_append, h.numbered, actionCount_append]
    exact List.append_nil _
  · rw [List.mem_append, List.mem_singleton] at ha
    rcases ha with ha | ha
    · exact h.bare a ha
    · cases ha

theorem concat_action (h : Regular items) {a : Action} (hid : a.id = actionCount items + 1)
    (hbare : a.status = .pending → a.output = none ∧ a.durationMs = none) :
    Regular (items ++ [.action a]) := by
  refine ⟨?_, fun a' ha' => ?_⟩
  · rw [List.filterMap_append, List.map_append, h.numbered, actionCount_append]
    show _ ++ [a.id] = List.range' 1 (actionCount items + 1)
    rw [List.range'_concat, Nat.one_mul, hid, Nat.add_comm]
  · rw [List.mem_append, List.mem_singleton] at ha'
    rcases ha' with ha' | ha'
    · exact h.bare a' ha'
    · cases ha'
      exact hbare

theorem settle {before after : List TimelineItem} {a r : Action}
    (h : Regular (before ++ .action a :: after)) (hid : r.id = a.id) (hr : r.status ≠ .pending) :
    Regular (before ++ .action r :: after) := by
  refine ⟨?_, fun a' ha' => ?_⟩
  · have hcount : actionCount (before ++ .action r :: after) =
        actionCount (before ++ .action a :: after) := by
      rw [actionCount_append, actionCount_append]
      rfl
    rw [hcount, ← h.numbered, List.filterMap_append, List.filterMap_append, List.map_append,
      List.map_append]
    show _ ++ r.id :: _ = _ ++ a.id :: _
    rw [hid]
  · rw [List.mem_append, List.mem_cons] at ha'
    rcases ha' with ha' | ha' | ha'
    · exact h.bare a' (List.mem_append_left _ ha')
    · cases ha'
      exact fun hpending => absurd hpending hr
    · exact h.bare a' (List.mem_append_right _ (List.mem_cons_of_mem _ ha'))

theorem extend (h : Regular items) {r : Request} (hr : r.Sound) : Regular (r.extend items) := by
  cases hr with
  | ignore => exact h
  | turn t => exact h.concat_turn t
  | action numbering complete =>
    refine h.concat_action (by rw [numbering.eq_with]) fun hpending => ?_
    rw [numbering.status] at hpending
    exact absurd hpending complete
  | invocation numbering pending output duration =>
    refine h.concat_action (by rw [numbering.eq_with]) fun _ => ?_
    rw [numbering.eq_with]
    exact ⟨output, duration⟩
  | outcome content finished =>
    rw [Request.extend]
    by_cases hwait : items.any isPending = true
    · obtain ⟨before, a, after, rfl, ha, hafter⟩ := exists_last_pending hwait
      rw [settleLast_append ha hafter]
      exact h.settle rfl (a.status_resolve content finished)
    · rw [settleLast_of_none (Bool.not_eq_true _ ▸ hwait)]
      exact h

theorem foldl (h : Regular items) (limits : Limits) (events : List Event) :
    Regular (events.foldl (replayStep limits) items) := by
  induction events generalizing items with
  | nil => exact h
  | cons e events ih => exact ih (h.extend (e.sound_request limits))

end Regular

/-! ## The builder of regular items -/

theorem length_pendingFrom (n : Nat) (items : List TimelineItem) :
    (pendingFrom n items).length = items.countP isPending := by
  induction items generalizing n with
  | nil => rfl
  | cons item items ih =>
    cases item with
    | turn t =>
      rw [pendingFrom, ih, List.countP_cons_of_neg (by simp)]
    | action a =>
      rw [pendingFrom, List.countP_cons]
      by_cases ha : a.status = .pending
      · rw [if_pos ha, List.length_cons, ih, if_pos (by simpa using ha)]
      · rw [if_neg ha, ih, if_neg (by simpa using ha), Nat.add_zero]

theorem slot_of_mem_pendingFrom_singleton {n : Nat} {item : TimelineItem} {p : PendingAction}
    (h : p ∈ pendingFrom n [item]) : p.slot = n ∧ item = .action p.action ∧ item.isPending := by
  cases item with
  | turn t => cases h
  | action a =>
    rw [pendingFrom] at h
    split at h
    · rename_i ha
      rw [List.mem_singleton.mp h]
      exact ⟨rfl, rfl, by simpa using ha⟩
    · cases h

theorem filter_slot_pendingFrom (n i : Nat) (items : List TimelineItem) :
    (pendingFrom n items).filter (fun p => p.slot == n + i) =
      pendingFrom (n + i) items[i]?.toList := by
  induction items generalizing n i with
  | nil => rfl
  | cons item items ih =>
    have hhead : pendingFrom n (item :: items) =
        pendingFrom n [item] ++ pendingFrom (n + 1) items := pendingFrom_append n [item] items
    rw [hhead, List.filter_append]
    cases i with
    | zero =>
      have hfirst : (pendingFrom n [item]).filter (fun p => p.slot == n + 0) =
          pendingFrom n [item] := by
        rw [List.filter_eq_self]
        intro p hp
        rw [(slot_of_mem_pendingFrom_singleton hp).1, Nat.add_zero, beq_self_eq_true]
      have hrest : (pendingFrom (n + 1) items).filter (fun p => p.slot == n + 0) = [] := by
        rw [List.filter_eq_nil_iff]
        intro p hp
        have hle := le_slot_of_mem_pendingFrom hp
        rw [beq_iff_eq]
        omega
      rw [hfirst, hrest, List.append_nil]
      rfl
    | succ i =>
      have hfirst : (pendingFrom n [item]).filter (fun p => p.slot == n + (i + 1)) = [] := by
        rw [List.filter_eq_nil_iff]
        intro p hp
        have hslot := (slot_of_mem_pendingFrom_singleton hp).1
        rw [beq_iff_eq]
        omega
      have hrest := ih (n + 1) i
      rw [show n + 1 + i = n + (i + 1) by omega] at hrest
      rw [hfirst, hrest, List.nil_append, List.getElem?_cons_succ]

theorem pairwise_pendingFrom (n : Nat) (items : List TimelineItem) :
    ((pendingFrom n items).map PendingAction.slot).Pairwise (· < ·) := by
  induction items generalizing n with
  | nil => exact .nil
  | cons item items ih =>
    cases item with
    | turn t => exact ih (n + 1)
    | action a =>
      rw [pendingFrom]
      split
      · refine .cons (fun slot hslot => ?_) (ih (n + 1))
        obtain ⟨p, hp, rfl⟩ := List.mem_map.mp hslot
        exact le_slot_of_mem_pendingFrom hp
      · exact ih (n + 1)

namespace Builder

theorem filter_slot_waiting (items : List TimelineItem) (index : Nat) :
    (ofItems items).waiting.filter (fun place => place.slot == index) =
      pendingFrom index items[index]?.toList := by
  have hfilter := filter_slot_pendingFrom 0 index items
  rw [Nat.zero_add] at hfilter
  rw [ofItems, List.filter_reverse, hfilter]
  cases items[index]? with
  | none => rfl
  | some item =>
    cases item with
    | turn t => rfl
    | action a =>
      rw [Option.toList_some, pendingFrom]
      split <;> rfl

theorem getElem?_of_mem_waiting {items : List TimelineItem} {place : PendingAction}
    (h : place ∈ (ofItems items).waiting) :
    items[place.slot]? = some (.action place.action) ∧ place.action.status = .pending := by
  have hfilter : place ∈ (ofItems items).waiting.filter fun other => other.slot == place.slot :=
    List.mem_filter.mpr ⟨h, beq_self_eq_true _⟩
  rw [filter_slot_waiting] at hfilter
  cases hitem : items[place.slot]? with
  | none => rw [hitem] at hfilter; cases hfilter
  | some item =>
    rw [hitem] at hfilter
    obtain ⟨-, rfl, hpending⟩ := slot_of_mem_pendingFrom_singleton hfilter
    exact ⟨rfl, by simpa using hpending⟩

theorem count_slot_waiting (items : List TimelineItem) (index : Nat) :
    ((ofItems items).waiting.map PendingAction.slot).count index =
      items[index]?.toList.countP isPending := by
  rw [← length_pendingFrom index, ← filter_slot_waiting, List.count_eq_countP, List.countP_map,
    List.countP_eq_length_filter]
  rfl

theorem numbersAt_ofItems {items : List TimelineItem} {index : Nat} {item : TimelineItem}
    (h : items[index]? = some item) :
    (ofItems items).numbersAt index item.slot = (action? item).toList.map Action.id := by
  cases item with
  | turn t => rfl
  | action a =>
    rw [TimelineItem.slot]
    by_cases ha : a.status = .pending
    · rw [if_pos (by simpa using ha), numbersAt, filter_slot_waiting, h, Option.toList_some,
        pendingFrom, if_pos ha]
      rfl
    · rw [if_neg (by simpa using ha)]
      rfl

theorem numbers_ofItems (items : List TimelineItem) :
    (ofItems items).numbers = (items.filterMap action?).map Action.id := by
  have hat : (ofItems items).slots.mapIdx (ofItems items).numbersAt =
      items.map fun item => (action? item).toList.map Action.id := by
    refine List.ext_getElem? fun index => ?_
    rw [List.getElem?_mapIdx, List.getElem?_map]
    show Option.map _ (items.map TimelineItem.slot)[index]? = _
    rw [List.getElem?_map]
    cases h : items[index]? with
    | none => rfl
    | some item => exact congrArg some (numbersAt_ofItems h)
  rw [numbers, hat, ← List.flatMap_def, ← List.map_flatMap, ← List.filterMap_eq_flatMap_toList]

end Builder

theorem Regular.coherent {items : List TimelineItem} (h : Regular items) :
    (Builder.ofItems items).Coherent where
  ascending := by
    show ((pendingFrom 0 items).reverse.reverse.map PendingAction.slot).Pairwise _
    rw [List.reverse_reverse]
    exact pairwise_pendingFrom 0 items
  inRange place hp := by
    have hitem := (Builder.getElem?_of_mem_waiting hp).1
    show place.slot < (items.map TimelineItem.slot).length
    rw [List.length_map]
    exact (List.getElem?_eq_some_iff.mp hitem).1
  vacant_iff index := by
    rw [Builder.count_slot_waiting]
    show (items.map TimelineItem.slot)[index]? = _ ↔ _
    rw [List.getElem?_map]
    cases items[index]? with
    | none => simp
    | some item => cases hitem : item.isPending <;> simp [TimelineItem.slot, hitem]
  waits place hp := by
    obtain ⟨hitem, hpending⟩ := Builder.getElem?_of_mem_waiting hp
    exact ⟨hpending, h.bare _ (List.mem_of_getElem? hitem) hpending⟩
  settled item hitem := by
    obtain ⟨item', -, hslot⟩ := List.mem_map.mp hitem
    rw [TimelineItem.slot] at hslot
    split at hslot
    · cases hslot
    · cases hslot
      exact Bool.not_eq_true _ ▸ ‹_›
  nextId_pos := Nat.succ_pos _
  numbers_eq := by
    rw [Builder.numbers_ofItems]
    exact h.numbered

/-! ## Every builder -/

namespace Builder

theorem foldlM_pushChecked {items : List TimelineItem} (h : Regular items) (limits : Limits)
    (events : List Event) :
    events.foldlM (pushChecked limits) (ofItems items) =
      .ok (pushAll limits (ofItems items) events) := by
  induction events generalizing items with
  | nil => rfl
  | cons e events ih =>
    have hpush : pushChecked limits (ofItems items) e =
        .ok (ofItems (replayStep limits items e)) := by
      rw [pushChecked, h.coherent.applyChecked_eq, apply_ofItems items (e.sound_request limits)]
      rfl
    rw [List.foldlM_cons, hpush, pushAll, List.foldl_cons, push,
      apply_ofItems items (e.sound_request limits)]
    exact ih (h.extend (e.sound_request limits))

/-- **A builder that has taken any events is coherent**, and neither they nor the end have brought a
fault. -/
theorem coherent_pushAll (limits : Limits) (events : List Event) :
    (pushAll limits {} events).Coherent ∧
      events.foldlM (pushChecked limits) {} = .ok (pushAll limits {} events) ∧
      (pushAll limits {} events).finalItemsChecked = .ok (pushAll limits {} events).finalItems := by
  have hcoherent : (pushAll limits {} events).Coherent := by
    rw [pushAll_eq_ofItems]
    exact (Regular.nil.foldl limits events).coherent
  exact ⟨hcoherent, foldlM_pushChecked Regular.nil limits events, hcoherent.finalItemsChecked_eq⟩

end Builder

end Chronicle
