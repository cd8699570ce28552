import Chronicle.Proofs.Timeline.Replay
import Chronicle.Timeline.Selection
import Mathlib.Data.List.Forall2

/-!
# What display limits may change

Limits clip what turns and labels show, and nothing else depends on them: whether an event leaves an
item, and what becomes of it, is decided on whole texts.

* `SameButText`: items that may differ in the content of a turn or in the label of an action.
* `Request.SameButText`, `Event.sameButText_request`: what an event asks under two limits.
* `Request.SameButText.extend`: one event keeps two runs in step, and so does a whole stream
  (`forall₂_sameButText`).
* `LimitsShowOnly`, `limitsShowOnly`: the timelines, their tallies and what selections keep.
-/

namespace Chronicle

open TimelineItem (isPending isAction)

/-- The items are the same, but the content of a turn and the label of an action may be others. -/
inductive SameButText : TimelineItem → TimelineItem → Prop where
  | turn (t : Turn) (content : String) : SameButText (.turn t) (.turn { t with content })
  | action (a : Action) (label : String) : SameButText (.action a) (.action { a with label })

/-- The requests are the same, but for the texts of the items that they bring. -/
inductive Request.SameButText : Request → Request → Prop where
  | ignore : SameButText .ignore .ignore
  | turn (t : Turn) (content : String) : SameButText (.turn t) (.turn { t with content })
  | action (numbered : Nat → Action) (label : String) :
      SameButText (.action numbered) (.action fun id => { numbered id with label })
  | invocation (numbered : Nat → Action) (label : String) :
      SameButText (.invocation numbered) (.invocation fun id => { numbered id with label })
  | outcome (content : String) (finished : Timestamp) :
      SameButText (.outcome content finished) (.outcome content finished)

/-! ## One event -/

theorem Event.sameButText_turnOf (limits limits' : Limits) (speaker : Speaker) (e : Event) :
    (((turnOf limits speaker e).map Request.turn).getD .ignore).SameButText
      (((turnOf limits' speaker e).map Request.turn).getD .ignore) := by
  rw [turnOf, turnOf, turnContent, turnContent]
  -- a turn of nothing is left out before anything is clipped
  cases (Markup.strip e.content).isEmpty with
  | true => exact .ignore
  | false => exact .turn _ _

theorem Event.sameButText_request (limits limits' : Limits) (e : Event) :
    (e.request limits).SameButText (e.request limits') := by
  unfold request
  cases e.payload with
  | user => exact sameButText_turnOf limits limits' .user e
  | assistant => exact sameButText_turnOf limits limits' .assistant e
  | toolInvocation tool input => exact .invocation _ _
  | toolOutcome => exact .outcome _ _
  | progress progress => cases progress <;> exact .action _ _
  | _ => exact .action _ _

section step
variable {item item' : TimelineItem} {items items' : List TimelineItem}

theorem SameButText.isPending_eq (h : SameButText item item') : item'.isPending = item.isPending := by
  cases h <;> rfl

theorem SameButText.isAction_eq (h : SameButText item item') : item'.isAction = item.isAction := by
  cases h <;> rfl

theorem SameButText.settle (h : SameButText item item') (content : String) (finished : Timestamp) :
    SameButText (item.settle content finished) (item'.settle content finished) := by
  cases h with
  | turn t => exact .turn t _
  | action a label =>
    rw [TimelineItem.settle, TimelineItem.settle]
    split
    · exact .action (a.resolve content finished) label
    · exact .action a label

theorem map_eq_of_sameButText {f : TimelineItem → α}
    (hf : ∀ item item', SameButText item item' → f item' = f item)
    (h : List.Forall₂ SameButText items items') : items'.map f = items.map f := by
  induction h with
  | nil => rfl
  | cons hitem _ ih => rw [List.map_cons, List.map_cons, hf _ _ hitem, ih]

theorem countP_eq_of_sameButText {p : TimelineItem → Bool}
    (hp : ∀ item item', SameButText item item' → p item' = p item)
    (h : List.Forall₂ SameButText items items') : items'.countP p = items.countP p := by
  have hmap := congrArg (List.countP id) (map_eq_of_sameButText hp h)
  rwa [List.countP_map, List.countP_map] at hmap

theorem any_isPending_of_sameButText (h : List.Forall₂ SameButText items items') :
    items'.any isPending = items.any isPending := by
  have hmap := congrArg (List.any · id) (map_eq_of_sameButText (fun _ _ h => h.isPending_eq) h)
  simpa [List.any_map] using hmap

theorem settleLast_sameButText (content : String) (finished : Timestamp)
    (h : List.Forall₂ SameButText items items') :
    List.Forall₂ SameButText (settleLast content finished items)
      (settleLast content finished items') := by
  induction h with
  | nil => exact .nil
  | cons hitem hrest ih =>
    rw [settleLast, settleLast, any_isPending_of_sameButText hrest]
    split
    · exact .cons hitem ih
    · exact .cons (hitem.settle content finished) hrest

theorem Request.SameButText.extend {r r' : Request} (hr : r.SameButText r')
    (h : List.Forall₂ Chronicle.SameButText items items') :
    List.Forall₂ Chronicle.SameButText (r.extend items) (r'.extend items') := by
  have hcount : actionCount items' = actionCount items :=
    countP_eq_of_sameButText (fun _ _ h => h.isAction_eq) h
  cases hr with
  | ignore => exact h
  | turn t content => exact List.rel_append h (.cons (.turn t content) .nil)
  | action numbered label =>
    rw [Request.extend, Request.extend, hcount]
    exact List.rel_append h (.cons (.action _ label) .nil)
  | invocation numbered label =>
    rw [Request.extend, Request.extend, hcount]
    exact List.rel_append h (.cons (.action _ label) .nil)
  | outcome content finished => exact settleLast_sameButText content finished h

end step

/-! ## Whole timelines -/

/-- **Under any limits, the timelines of a stream differ in their texts only.** -/
theorem forall₂_sameButText (limits limits' : Limits) (events : List Event) :
    List.Forall₂ SameButText (timelineOf limits events) (timelineOf limits' events) := by
  have hrun (items items' : List TimelineItem) (h : List.Forall₂ SameButText items items') :
      List.Forall₂ SameButText (events.foldl (replayStep limits) items)
        (events.foldl (replayStep limits') items') := by
    induction events generalizing items items' with
    | nil => exact h
    | cons e events ih => exact ih _ _ ((e.sameButText_request limits limits').extend h)
  rw [timelineOf_eq_replay, timelineOf_eq_replay]
  exact hrun [] [] .nil

/-! ## Selections -/

/-- The places of the items that are shown when these categories are chosen. -/
def shownPlaces (chosen : List Category) (items : List TimelineItem) : List Nat :=
  (items.zipIdx.filter fun place => isShown chosen place.1).map Prod.snd

theorem select_eq_filterMap_shownPlaces (chosen : List Category) (items : List TimelineItem) :
    select chosen items = (shownPlaces chosen items).filterMap fun i => items[i]? := by
  have hplace : (items.zipIdx.filter fun place => isShown chosen place.1).filterMap
      (fun place => items[place.2]?) =
        (items.zipIdx.filter fun place => isShown chosen place.1).map Prod.fst := by
    rw [← List.filterMap_eq_map]
    refine List.filterMap_congr fun place hmem => ?_
    exact List.mem_zipIdx_iff_getElem?.mp (List.mem_filter.mp hmem).1
  have hfilter := List.filter_map (f := Prod.fst) (p := isShown chosen) (l := items.zipIdx)
  rw [List.zipIdx_map_fst] at hfilter
  rw [select, shownPlaces, List.filterMap_map, hfilter]
  exact hplace.symm

theorem shownPlaces_eq (chosen : List Category) (items : List TimelineItem) :
    shownPlaces chosen items =
      ((items.map (isShown chosen)).zipIdx.filter Prod.fst).map Prod.snd := by
  rw [shownPlaces, List.zipIdx_map, List.filter_map, List.map_map]
  rfl

theorem SameButText.isShown_eq {item item' : TimelineItem} (h : SameButText item item')
    (chosen : List Category) : isShown chosen item' = isShown chosen item := by
  cases h <;> rfl

theorem SameButText.isOf_eq {item item' : TimelineItem} (h : SameButText item item')
    (category : Category) : isOf category item' = isOf category item := by
  cases h <;> rfl

/-- Of the timeline of these events, the limits `limits'` show other texts than `limits` and nothing
else. -/
structure LimitsShowOnly (limits limits' : Limits) (events : List Event) : Prop where
  items : List.Forall₂ SameButText (timelineOf limits events) (timelineOf limits' events)
  tally : tally (timelineOf limits' events) = tally (timelineOf limits events)
  places (chosen : List Category) : shownPlaces chosen (timelineOf limits' events) =
    shownPlaces chosen (timelineOf limits events)
  /-- A selection is what stands at these places. -/
  kept (chosen : List Category) : select chosen (timelineOf limits' events) =
    (shownPlaces chosen (timelineOf limits events)).filterMap fun i =>
      (timelineOf limits' events)[i]?

/-- **Display limits change texts only.** -/
theorem limitsShowOnly (limits limits' : Limits) (events : List Event) :
    LimitsShowOnly limits limits' events := by
  have hitems := forall₂_sameButText limits limits' events
  have hplaces (chosen : List Category) : shownPlaces chosen (timelineOf limits' events) =
      shownPlaces chosen (timelineOf limits events) := by
    rw [shownPlaces_eq, shownPlaces_eq,
      map_eq_of_sameButText (fun _ _ h => h.isShown_eq chosen) hitems]
  refine ⟨hitems, ?_, hplaces, fun chosen => ?_⟩
  · refine List.map_congr_left fun category _ => congrArg (Prod.mk category) ?_
    exact countP_eq_of_sameButText (fun _ _ h => h.isOf_eq category) hitems
  · rw [← hplaces]
    exact select_eq_filterMap_shownPlaces chosen _

end Chronicle
