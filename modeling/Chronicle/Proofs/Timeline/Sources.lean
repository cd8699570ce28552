import Chronicle.Proofs.Text.Line
import Chronicle.Proofs.Timeline.Coherence
import Chronicle.Proofs.Timeline.Pairing
import Mathlib.Data.List.Forall2

/-!
# The events that items come from

An item comes with one event, and nothing that happens later changes more of it than an outcome
brings. So the items of a timeline are the events that leave one, in order.

* `Event.leavesItem`, `sources`: the events that leave an item.
* `Event.ownItem?`: the item as the event alone makes it, but for its number.
* `StemsFrom`: an item that is this one but for what comes later. One event keeps the items and
  their events in step (`forall₂_stemsFrom_replayStep`), and so does a run (`forall₂_stemsFrom`).
* `OneItemEach`, `oneItemEach`: no event is lost or doubled.
-/

namespace Chronicle

open TimelineItem (isPending action?)

/-! ## Events with an item -/

/-- Whether an event leaves an item in the timeline. An outcome leaves none, and neither does a turn
of which control markup and blanks are all. -/
def Event.leavesItem (e : Event) : Bool :=
  match e.kind with
  | .toolOutcome => false
  | .user => !Text.allBlank (Markup.strip e.content)
  | .assistant => !Text.allBlank (Markup.strip e.content)
  | _ => true

def sources (events : List Event) : List Event := events.filter Event.leavesItem

def Event.speaker? (e : Event) : Option Speaker :=
  match e.kind with
  | .user => some .user
  | .assistant => some .assistant
  | _ => none

/-- An item of the sort that an event leaves: a turn of who speaks in it, and otherwise an action,
each at the time of the event. -/
inductive IsItemOf (e : Event) : TimelineItem → Prop where
  | turn (t : Turn) (speaker : e.speaker? = some t.speaker) (time : t.timestamp = e.timestamp) :
      IsItemOf e (.turn t)
  | action (a : Action) (speaker : e.speaker? = none) (time : a.timestamp = e.timestamp) :
      IsItemOf e (.action a)

/-- The item that a request brings, with the number zero. -/
def Request.ownItem? : Request → Option TimelineItem
  | .ignore => none
  | .turn t => some (.turn t)
  | .action numbered => some (.action (numbered 0))
  | .invocation numbered => some (.action (numbered 0))
  | .outcome _ _ => none

/-- The item of an event as the event alone makes it, with the number zero. -/
def Event.ownItem? (limits : Limits) (e : Event) : Option TimelineItem :=
  (e.request limits).ownItem?

/-- The item without what comes from elsewhere: its number and, if an invocation has brought it, what
an outcome tells. -/
def TimelineItem.forget (invoked : Bool) : TimelineItem → TimelineItem
  | .turn t => .turn t
  | .action a =>
    if invoked then .action { a with id := 0, status := .pending, output := none, durationMs := none }
    else .action { a with id := 0 }

def Event.isInvocation (e : Event) : Bool := e.kind == .toolInvocation

/-- The timeline without what comes from elsewhere than an item's own event. -/
def forgetful (limits : Limits) (events : List Event) : List TimelineItem :=
  List.zipWith (fun e item => item.forget e.isInvocation) (sources events) (timelineOf limits events)

/-! ## The item of one event -/

theorem Markup.allBlank_strip (text : String) :
    Text.allBlank (strip text) = (strip text).isEmpty := by
  rw [Text.allBlank, strip, String.toList_ofList, Text.all_isBlank_trim, Text.isEmpty_ofList]

theorem isSome_turnOf (limits : Limits) (speaker : Speaker) (e : Event) :
    (turnOf limits speaker e).isSome = !Text.allBlank (Markup.strip e.content) := by
  rw [turnOf, Option.isSome_map, turnContent, Markup.allBlank_strip]
  cases (Markup.strip e.content).isEmpty <;> rfl

theorem ownItem?_turnOf (limits : Limits) (speaker : Speaker) (e : Event) :
    (((turnOf limits speaker e).map Request.turn).getD .ignore).ownItem? =
      (turnOf limits speaker e).map .turn := by
  cases turnOf limits speaker e <;> rfl

section event
variable {limits : Limits} {e : Event} {item : TimelineItem}

namespace Event

theorem isSome_ownItem? (limits : Limits) (e : Event) :
    (e.ownItem? limits).isSome = e.leavesItem := by
  unfold ownItem? request leavesItem kind
  cases e.payload with
  | user => simp only [ownItem?_turnOf, Option.isSome_map, isSome_turnOf]
  | assistant => simp only [ownItem?_turnOf, Option.isSome_map, isSome_turnOf]
  | _ => rfl

theorem isItemOf_ownItem? (h : e.ownItem? limits = some item) : IsItemOf e item := by
  have hturn {speaker : Speaker} (hspeaker : e.speaker? = some speaker)
      (h : (turnOf limits speaker e).map TimelineItem.turn = some item) : IsItemOf e item := by
    obtain ⟨t, ht, rfl⟩ := Option.map_eq_some_iff.mp h
    obtain ⟨content, -, rfl⟩ := Option.map_eq_some_iff.mp ht
    exact .turn _ hspeaker rfl
  unfold ownItem? request at h
  cases hp : e.payload with
  | user =>
    simp only [hp, ownItem?_turnOf] at h
    exact hturn (by simp [speaker?, kind, hp]) h
  | assistant =>
    simp only [hp, ownItem?_turnOf] at h
    exact hturn (by simp [speaker?, kind, hp]) h
  | toolOutcome =>
    simp only [hp] at h
    cases h
  | _ =>
    simp only [hp] at h
    cases h
    exact .action _ (by simp [speaker?, kind, hp]) rfl

theorem isInvocation_iff_request (limits : Limits) (e : Event) :
    e.isInvocation = true ↔ ∃ numbered, e.request limits = .invocation numbered := by
  constructor
  · intro h
    obtain ⟨numbered, hr, -⟩ := request_of_toolInvocation limits (beq_iff_eq.mp h)
    exact ⟨numbered, hr⟩
  · rintro ⟨numbered, hr⟩
    by_contra hi
    have hi : e.kind ≠ .toolInvocation := fun hk => hi (beq_iff_eq.mpr hk)
    by_cases ho : e.kind = .toolOutcome
    · rw [request_of_toolOutcome limits ho] at hr
      cases hr
    · rcases request_of_other limits hi ho with h | ⟨t, h⟩ | ⟨numbered', h⟩ <;>
      · rw [h] at hr
        cases hr

theorem isInvocation_of_isPending (h : e.ownItem? limits = some item)
    (hitem : item.isPending = true) : e.isInvocation = true := by
  rw [isInvocation_iff_request limits]
  have hsound := e.sound_request limits
  rw [ownItem?] at h
  cases hr : e.request limits with
  | invocation numbered => exact ⟨numbered, rfl⟩
  | action numbered =>
    rw [hr] at h hsound
    cases h
    cases hsound with
    | action numbering complete => exact absurd (by simpa using hitem) complete
  | turn t =>
    rw [hr] at h
    cases h
    cases hitem
  | _ =>
    rw [hr] at h
    cases h

end Event

/-! ## What an item stems from -/

/-- An item is the one that the event makes, but for its number and, if the event is an invocation,
what an outcome tells. -/
def StemsFrom (limits : Limits) (e : Event) (item : TimelineItem) : Prop :=
  e.ownItem? limits = some (item.forget e.isInvocation)

theorem StemsFrom.isItemOf (h : StemsFrom limits e item) : IsItemOf e item := by
  have hown := Event.isItemOf_ownItem? h
  cases item with
  | turn t => exact hown
  | action a =>
    rw [TimelineItem.forget] at hown
    split at hown <;>
    · cases hown with
      | action _ speaker time => exact .action a speaker time

theorem StemsFrom.settle (h : StemsFrom limits e item) (content : String) (finished : Timestamp) :
    StemsFrom limits e (item.settle content finished) := by
  cases item with
  | turn t => exact h
  | action a =>
    rw [TimelineItem.settle]
    split
    · rename_i hpending
      have hinvocation : e.isInvocation = true := by
        refine Event.isInvocation_of_isPending h ?_
        rw [TimelineItem.forget]
        split <;> simp [hpending]
      rw [StemsFrom, hinvocation] at h ⊢
      exact h
    · exact h

theorem StemsFrom.of_turn {t : Turn} (hr : e.request limits = .turn t) :
    StemsFrom limits e (.turn t) := by
  rw [StemsFrom, Event.ownItem?, hr]
  rfl

theorem StemsFrom.of_action {numbered : Nat → Action} (hr : e.request limits = .action numbered)
    (n : Nat) : StemsFrom limits e (.action (numbered n)) := by
  have hother : e.isInvocation = false := by
    rw [← Bool.not_eq_true, e.isInvocation_iff_request limits, hr]
    rintro ⟨numbered', h⟩
    cases h
  have hsound := e.sound_request limits
  rw [hr] at hsound
  cases hsound with
  | action numbering =>
    rw [StemsFrom, Event.ownItem?, hr, hother, numbering.eq_with n]
    exact congrArg (some ∘ TimelineItem.action) (numbering.eq_with 0)

theorem StemsFrom.of_invocation {numbered : Nat → Action}
    (hr : e.request limits = .invocation numbered) (n : Nat) :
    StemsFrom limits e (.action (numbered n)) := by
  have hinvocation : e.isInvocation = true :=
    (e.isInvocation_iff_request limits).mpr ⟨numbered, hr⟩
  have hsound := e.sound_request limits
  rw [hr] at hsound
  cases hsound with
  | invocation numbering pending output duration =>
    -- the action comes with the very values that are put in for what is forgotten
    have hbare : numbered 0 = { numbered 0 with
        id := 0, status := .pending, output := none, durationMs := none } := by
      conv => lhs; rw [numbering.eq_with 0]
      simp [pending, output, duration]
    rw [StemsFrom, Event.ownItem?, hr, hinvocation, numbering.eq_with n]
    exact congrArg (some ∘ TimelineItem.action) hbare

/-! ## Items and their events in step -/

theorem forall_mem_iff_of_forall₂ {R : α → β → Prop} {P : α → Prop} {Q : β → Prop} {as : List α}
    {bs : List β} (h : List.Forall₂ R as bs) (hR : ∀ a b, R a b → (Q b ↔ P a)) :
    (∀ b ∈ bs, Q b) ↔ ∀ a ∈ as, P a := by
  induction h with
  | nil => simp
  | @cons a b as bs hab _ ih =>
    rw [List.forall_mem_cons, List.forall_mem_cons, ih, hR a b hab]

section step
variable {R : Event → TimelineItem → Prop} {before : List Event} {items : List TimelineItem}

theorem forall₂_concat (h : List.Forall₂ R before items) (hlast : R e item) :
    List.Forall₂ R (before ++ [e]) (items ++ [item]) :=
  List.rel_append h (.cons hlast .nil)

theorem forall₂_settleLast {content : String} {finished : Timestamp}
    (hR : ∀ e item, R e item → R e (item.settle content finished))
    (h : List.Forall₂ R before items) :
    List.Forall₂ R before (settleLast content finished items) := by
  induction h with
  | nil => exact .nil
  | @cons e item before items hitem hrest ih =>
    rw [settleLast]
    split
    · exact .cons hitem ih
    · exact .cons (hR e item hitem) hrest

theorem forall₂_stemsFrom_replayStep (h : List.Forall₂ (StemsFrom limits) before items) (e : Event) :
    List.Forall₂ (StemsFrom limits) (before ++ sources [e]) (replayStep limits items e) := by
  rw [sources, List.filter_singleton, ← e.isSome_ownItem? limits, Event.ownItem?, replayStep]
  cases hr : e.request limits with
  | ignore => simpa [Request.ownItem?, Request.extend] using h
  | turn t => exact forall₂_concat h (.of_turn hr)
  | action numbered => exact forall₂_concat h (.of_action hr _)
  | invocation numbered => exact forall₂_concat h (.of_invocation hr _)
  | outcome content finished =>
    have hsettled := forall₂_settleLast (fun _ _ hitem => hitem.settle content finished) h
    simpa [Request.ownItem?, Request.extend] using hsettled

end step

theorem sources_append (events more : List Event) :
    sources (events ++ more) = sources events ++ sources more :=
  List.filter_append ..

/-- **The items of a timeline stem from the events that leave one, in order.** -/
theorem forall₂_stemsFrom (limits : Limits) (events : List Event) :
    List.Forall₂ (StemsFrom limits) (sources events) (timelineOf limits events) := by
  -- any items that are in step with their events stay so: the induction is on the events to come
  have hrun (before : List Event) (items : List TimelineItem)
      (h : List.Forall₂ (StemsFrom limits) before items) :
      List.Forall₂ (StemsFrom limits) (before ++ sources events)
        (events.foldl (replayStep limits) items) := by
    induction events generalizing before items with
    | nil => simpa [sources] using h
    | cons e events ih =>
      have hnext := ih _ _ (forall₂_stemsFrom_replayStep h e)
      rwa [List.append_assoc, ← sources_append] at hnext
  rw [timelineOf_eq_replay]
  exact hrun [] [] .nil

end event

/-! ## Places -/

theorem Request.length_extend (items : List TimelineItem) (r : Request) :
    (r.extend items).length = items.length + if r.ownItem?.isSome then 1 else 0 := by
  cases r with
  | outcome content finished => exact length_settleLast content finished items
  | _ => simp [extend, ownItem?]

theorem placeOf_succ {limits : Limits} {events : List Event} {i : Nat} {e : Event}
    (he : events[i]? = some e) :
    placeOf limits events (i + 1) = placeOf limits events i + if e.leavesItem then 1 else 0 := by
  rw [placeOf, itemsAfter_succ he, Request.length_extend, placeOf, ← e.isSome_ownItem? limits,
    Event.ownItem?]

/-! ## Whole timelines -/

theorem zipWith_eq_filterMap {f : α → Option β} {g : α → β → β} {as : List α} {bs : List β}
    (h : List.Forall₂ (fun a b => f a = some (g a b)) as bs) :
    List.zipWith g as bs = as.filterMap f := by
  induction h with
  | nil => rfl
  | cons hab _ ih => rw [List.zipWith_cons_cons, List.filterMap_cons_some hab, ih]

/-- **What is not forgotten of an item is the event's own.** -/
theorem forgetful_eq_filterMap (limits : Limits) (events : List Event) :
    forgetful limits events = events.filterMap (Event.ownItem? limits) := by
  rw [forgetful, zipWith_eq_filterMap (forall₂_stemsFrom limits events), sources,
    List.filterMap_filter]
  refine List.filterMap_congr fun e _ => ?_
  rw [← e.isSome_ownItem? limits]
  cases e.ownItem? limits <;> rfl

/-- No event is lost or doubled in the timeline of these events. -/
structure OneItemEach (limits : Limits) (events : List Event) : Prop where
  /-- The items are those of the events that leave one, in order: one turn of who speaks, or one
  action, at the time of the event. -/
  items : List.Forall₂ IsItemOf (sources events) (timelineOf limits events)
  /-- Each item is shown from its event on. -/
  comes (i : Nat) (e : Event) : events[i]? = some e →
    (itemsAfter limits events (i + 1)).length =
      (itemsAfter limits events i).length + if e.leavesItem then 1 else 0
  /-- The actions are numbered from one on. -/
  numbers (k : Nat) (a : Action) :
    ((timelineOf limits events).filterMap action?)[k]? = some a → a.id = k + 1
  /-- Without its number and what outcomes tell, an item depends on its event and the limits. -/
  own : forgetful limits events = events.filterMap (Event.ownItem? limits)
  /-- Such timelines are put together as their events are. -/
  append (more : List Event) :
    forgetful limits (events ++ more) = forgetful limits events ++ forgetful limits more

/-- **No event is lost or doubled.** -/
theorem oneItemEach (limits : Limits) (events : List Event) : OneItemEach limits events where
  items := (forall₂_stemsFrom limits events).imp fun _ _ h => h.isItemOf
  comes _ _ he := placeOf_succ he
  numbers k a ha := by
    have hregular : Regular (timelineOf limits events) := by
      rw [timelineOf_eq_replay]
      exact Regular.nil.foldl limits events
    have hid := congrArg (·[k]?) hregular.numbered
    simp only [List.getElem?_map, ha, Option.map_some] at hid
    obtain ⟨hk, hnumber⟩ := List.getElem?_eq_some_iff.mp hid.symm
    rw [← hnumber, List.getElem_range']
    omega
  own := forgetful_eq_filterMap limits events
  append more := by
    rw [forgetful_eq_filterMap, forgetful_eq_filterMap, forgetful_eq_filterMap,
      List.filterMap_append]

end Chronicle
