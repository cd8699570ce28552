import Chronicle.Proofs.Interleaving
import Chronicle.Proofs.Session.Pages

/-!
# Categories that records give themselves

A record may say of which category it is. This shows in the action that the record brings, unless the
record reports progress: the category of progress is that of its metadata, whatever the record says.

* `Traced`, `traced`: the merged stream with the records that its events come from. Without them it is
  the merged stream (`map_event_traced`).
* `recordActions`: the actions of one record in the timeline, its thinking apart.
* `Event.shownCategory?`, `StemsFrom.category`: the category under which an event is shown depends on
  the event alone, and outcomes leave it as it is.
* `map_category_recordActions`: what one record brings depends on the record alone.
* `category_recordActions_iff`: when the category of a record is that of its action.
-/

namespace Chronicle

open TimelineItem (action?)

/-! ## Where events come from -/

/-- An event and the position of the record that it comes from; a hook comes from none. -/
structure Traced where
  origin : Option Nat
  event : Event

/-- The events of a session that goes on after `latest`, its next record being the `n`th. -/
def tracedAfter (n : Nat) (latest : LatestCategory) : List SessionRecord → List Traced
  | [] => []
  | r :: more =>
    (r.events latest).map (Traced.mk (some n)) ++ tracedAfter (n + 1) (r.latestAfter latest) more

def traced (records : List SessionRecord) (hooks : List Event) : List Traced :=
  mergeBy (fun t => t.event.orderKey) (tracedAfter 0 none records) (hooks.map (Traced.mk none))

/-- The actions that the record at position `k` brings to the timeline, its thinking apart. -/
def recordActions (limits : Limits) (records : List SessionRecord) (hooks : List Event) (k : Nat) :
    List Action :=
  (((traced records hooks).filter fun t => t.event.leavesItem).zip
      (timelineOf limits (mergeStreams (sessionEvents records) hooks))).filterMap fun shown =>
    if shown.1.origin = some k ∧ shown.1.event.kind ≠ .thinking then shown.2.action? else none

theorem map_event_tracedAfter (n : Nat) (latest : LatestCategory) (records : List SessionRecord) :
    (tracedAfter n latest records).map Traced.event = (eventsAfter latest records).flatten := by
  induction records generalizing n latest with
  | nil => rfl
  | cons r records ih =>
    have hown : (r.events latest).map (Traced.event ∘ Traced.mk (some n)) = r.events latest :=
      List.map_id _
    rw [tracedAfter, eventsAfter, List.map_append, List.map_map, ih, List.flatten_cons, hown]

/-- **Without origins, the traced stream is the merged stream.** -/
theorem map_event_traced (records : List SessionRecord) (hooks : List Event) :
    (traced records hooks).map Traced.event = mergeStreams (sessionEvents records) hooks := by
  have hhooks : (hooks.map (Traced.mk none)).map Traced.event = hooks := by
    rw [List.map_map]
    exact List.map_id _
  rw [traced, mergeBy, List.map_merge, map_event_tracedAfter, hhooks]
  · rfl
  · exact fun _ _ _ _ => rfl

theorem origin_of_mem_tracedAfter {n : Nat} {latest : LatestCategory}
    {records : List SessionRecord} {t : Traced} (h : t ∈ tracedAfter n latest records) :
    ∃ i, n ≤ i ∧ t.origin = some i := by
  induction records generalizing n latest with
  | nil => cases h
  | cons r records ih =>
    rcases List.mem_append.mp h with h | h
    · obtain ⟨e, -, rfl⟩ := List.mem_map.mp h
      exact ⟨n, Nat.le_refl n, rfl⟩
    · obtain ⟨i, hi, horigin⟩ := ih h
      exact ⟨i, Nat.le_of_succ_le hi, horigin⟩

theorem filterMap_tracedAfter (f : Event → Option α) {records : List SessionRecord} {k : Nat}
    {r : SessionRecord} (hr : records[k]? = some r) (n : Nat) (latest : LatestCategory) :
    ∃ latest', (tracedAfter n latest records).filterMap
        (fun t => if t.origin = some (n + k) then f t.event else none) =
      (r.events latest').filterMap f := by
  induction records generalizing n latest k with
  | nil => cases hr
  | cons first records ih =>
    rw [tracedAfter, List.filterMap_append, List.filterMap_map]
    cases k with
    | zero =>
      obtain rfl := Option.some.inj hr
      have hrest : (tracedAfter (n + 1) (first.latestAfter latest) records).filterMap
          (fun t => if t.origin = some (n + 0) then f t.event else none) = [] := by
        rw [List.filterMap_eq_nil_iff]
        intro t ht
        obtain ⟨i, hi, horigin⟩ := origin_of_mem_tracedAfter ht
        rw [horigin, if_neg (by simp; omega)]
      refine ⟨latest, ?_⟩
      rw [hrest, List.append_nil]
      exact List.filterMap_congr fun e _ => if_pos rfl
    | succ k =>
      obtain ⟨latest', hlatest⟩ := ih hr (n + 1) (first.latestAfter latest)
      have hfirst : (first.events latest).filterMap ((fun t : Traced =>
          if t.origin = some (n + (k + 1)) then f t.event else none) ∘ Traced.mk (some n)) = [] := by
        rw [List.filterMap_eq_nil_iff]
        intro e _
        exact if_neg (by simp)
      refine ⟨latest', ?_⟩
      rw [hfirst, List.nil_append, ← hlatest, show n + (k + 1) = n + 1 + k by omega]

/-! ## Categories of events -/

def Progress.category : Progress → Category
  | .agent _ _ => .agent
  | .shell _ => .builtin
  | .server _ _ => .mcp
  | .hookOutput _ _ => .hookProgress
  | .hookCall _ _ => .hook
  | .waiting _ => .queue
  | .unknown _ => .system

def Event.shownCategory? (e : Event) : Option Category :=
  match e.payload with
  | .user => none
  | .assistant => none
  | .thinking => some .system
  | .toolInvocation tool _ => some (e.category.getD (.ofTool tool))
  | .toolOutcome => none
  | .system _ => some (e.category.getD .system)
  | .progress progress => some progress.category
  | .summary => some (e.category.getD .summary)
  | .hook _ _ => some .hook
  | .error => some .error

theorem Progress.category_caption (limits : Limits) (content : String) (progress : Progress) :
    (progress.caption limits content).category = progress.category := by
  cases progress <;> rfl

theorem TimelineItem.category_forget (invoked : Bool) (item : TimelineItem) :
    (item.forget invoked).action?.map Action.category = item.action?.map Action.category := by
  cases item with
  | turn t => rfl
  | action a => cases invoked <;> rfl

theorem Event.category_ownItem? {limits : Limits} {e : Event} {item : TimelineItem}
    (h : e.ownItem? limits = some item) :
    item.action?.map Action.category = e.shownCategory? := by
  unfold ownItem? request at h
  unfold shownCategory?
  cases hp : e.payload with
  | user =>
    simp only [hp, ownItem?_turnOf] at h
    obtain ⟨t, -, rfl⟩ := Option.map_eq_some_iff.mp h
    rfl
  | assistant =>
    simp only [hp, ownItem?_turnOf] at h
    obtain ⟨t, -, rfl⟩ := Option.map_eq_some_iff.mp h
    rfl
  | progress progress =>
    simp only [hp] at h
    cases h
    exact congrArg some (progress.category_caption limits e.content)
  | _ =>
    simp only [hp] at h
    cases h <;> rfl

theorem StemsFrom.category {limits : Limits} {e : Event} {item : TimelineItem}
    (h : StemsFrom limits e item) : item.action?.map Action.category = e.shownCategory? := by
  rw [← item.category_forget e.isInvocation]
  exact Event.category_ownItem? h

theorem Event.shownCategory?_of_not_leavesItem {e : Event} (h : e.leavesItem = false) :
    e.shownCategory? = none := by
  unfold leavesItem kind at h
  unfold shownCategory?
  cases hp : e.payload <;> simp_all

/-! ## Categories of records -/

/-- The category under which an event that is not thinking is shown. -/
def Event.plainCategory? (e : Event) : Option Category :=
  if e.kind ≠ .thinking then e.shownCategory? else none

theorem Event.plainCategory?_of_not_leavesItem {e : Event} (h : e.leavesItem = false) :
    e.plainCategory? = none := by
  rw [plainCategory?, shownCategory?_of_not_leavesItem h, ite_self]

theorem forall₂_traced (limits : Limits) (records : List SessionRecord) (hooks : List Event) :
    List.Forall₂ (fun t item => StemsFrom limits t.event item)
      ((traced records hooks).filter fun t => t.event.leavesItem)
      (timelineOf limits (mergeStreams (sessionEvents records) hooks)) := by
  have h := forall₂_stemsFrom limits (mergeStreams (sessionEvents records) hooks)
  rw [← map_event_traced, sources, List.filter_map, List.forall₂_map_left_iff] at h
  rwa [map_event_traced] at h

theorem map_category_recordActions (limits : Limits) {records : List SessionRecord} {k : Nat}
    {r : SessionRecord} (hr : records[k]? = some r) (hooks : List Event) :
    ∃ latest, (recordActions limits records hooks k).map Action.category =
      (r.events latest).filterMap Event.plainCategory? := by
  have hzip (ts : List Traced) (items : List TimelineItem)
      (h : List.Forall₂ (fun t item => StemsFrom limits t.event item) ts items) :
      ((ts.zip items).filterMap fun shown =>
          if shown.1.origin = some k ∧ shown.1.event.kind ≠ .thinking then shown.2.action?
          else none).map Action.category =
        ts.filterMap fun t => if t.origin = some k then t.event.plainCategory? else none := by
    induction h with
    | nil => rfl
    | @cons t item ts items hitem _ ih =>
      rw [List.zip_cons_cons, List.filterMap_cons, List.filterMap_cons, ← ih,
        Event.plainCategory?, ← hitem.category, ite_and]
      split_ifs <;> cases item.action? <;> rfl
  -- events without an item have no category, and hooks are of no record
  have hleaves (t : Traced) : (if t.event.leavesItem then
      if t.origin = some k then t.event.plainCategory? else none else none) =
        if t.origin = some k then t.event.plainCategory? else none := by
    cases hleaves : t.event.leavesItem with
    | true => rfl
    | false => simp [Event.plainCategory?_of_not_leavesItem hleaves]
  have hhooks : ∀ t ∈ hooks.map (Traced.mk none),
      (if t.origin = some k then t.event.plainCategory? else none) = none := by
    simp
  obtain ⟨latest, hlatest⟩ := filterMap_tracedAfter Event.plainCategory? hr 0 none
  refine ⟨latest, ?_⟩
  rw [recordActions, hzip _ _ (forall₂_traced limits records hooks), List.filterMap_filter,
    ← hlatest, Nat.zero_add, List.filterMap_congr fun t _ => hleaves t]
  exact (interleaves_mergeBy _ _ _).filterMap_eq_left hhooks

/-- Records of a role that brings one action besides thinking, which is the record's own. -/
def SessionRecord.bringsOwnAction (r : SessionRecord) : Bool :=
  match Role.parse r.role with
  | some .system => true
  | some .progress => true
  | some .summary => true
  | some .toolInvocation => r.calls.isEmpty
  | _ => false

theorem SessionRecord.filterMap_plainCategory?_thinkingEvents (r : SessionRecord) :
    r.thinkingEvents.filterMap Event.plainCategory? = [] := by
  rw [List.filterMap_eq_nil_iff]
  intro e he
  rw [Event.plainCategory?, if_neg (not_not.mpr (kind_of_mem_thinkingEvents he))]

theorem SessionRecord.filterMap_plainCategory?_events {r : SessionRecord} {c : Category}
    (hown : r.bringsOwnAction = true) (hc : r.category = some c) (latest : LatestCategory) :
    (r.events latest).filterMap Event.plainCategory? =
      [if Role.parse r.role = some .progress then (Progress.of r.metadata).category else c] := by
  unfold bringsOwnAction at hown
  unfold events
  cases hrole : Role.parse r.role with
  | none => simp [hrole] at hown
  | some role =>
    simp only [hrole] at hown
    simp only [List.filterMap_append, filterMap_plainCategory?_thinkingEvents, List.nil_append]
    cases role with
    | system =>
      simp [roleEvents, Event.plainCategory?, Event.kind, Event.shownCategory?, systemEvent, hc]
    | progress =>
      simp [roleEvents, Event.plainCategory?, Event.kind, Event.shownCategory?, progressEvent]
    | summary =>
      simp [roleEvents, Event.plainCategory?, Event.kind, Event.shownCategory?, summaryEvent, hc]
    | toolInvocation =>
      simp [roleEvents, invocationEvents, hown, Event.plainCategory?, Event.kind,
        Event.shownCategory?, bareInvocation, effectiveCategory, hc]
    | _ => cases hown

/-- **The category that a record gives itself shows in its action, but for records of progress**: those
are shown under the category of their metadata. -/
theorem category_recordActions_iff (limits : Limits) {records : List SessionRecord} {k : Nat}
    {r : SessionRecord} {c : Category} (hr : records[k]? = some r)
    (hown : r.bringsOwnAction = true) (hc : r.category = some c) (hooks : List Event) :
    (traced records hooks).map Traced.event = mergeStreams (sessionEvents records) hooks ∧
      ∃ a, recordActions limits records hooks k = [a] ∧
        (a.category = c ↔
          (Role.parse r.role = some .progress → (Progress.of r.metadata).category = c)) := by
  refine ⟨map_event_traced records hooks, ?_⟩
  obtain ⟨latest, hcategories⟩ := map_category_recordActions limits hr hooks
  rw [r.filterMap_plainCategory?_events hown hc] at hcategories
  obtain ⟨a, ha, hcategory⟩ := List.map_eq_singleton_iff.mp hcategories
  refine ⟨a, ha, ?_⟩
  rw [hcategory]
  split_ifs with hprogress
  · simp [hprogress]
  · simp [hprogress]

/-- The category of a record that marks a context limit, between thinking and a hook. -/
theorem category_recordActions_result :
    ([⟨"user", "go", none, [], none, none, none⟩,
      ⟨"system", "", some "so", [], some (.record [("subtype", .text "compact_boundary")]), none,
        some .result⟩] : List SessionRecord)[1]? =
        some ⟨"system", "", some "so", [], some (.record [("subtype", .text "compact_boundary")]),
          none, some .result⟩ ∧
      ∃ a, recordActions {}
        [⟨"user", "go", none, [], none, none, none⟩,
          ⟨"system", "", some "so", [], some (.record [("subtype", .text "compact_boundary")]), none,
            some .result⟩]
        [⟨.hook none none, "Hook: Stop — ", none, some .hook, none⟩] 1 = [a] ∧
        a.category = .result := by
  refine ⟨rfl, ?_⟩
  obtain ⟨-, a, ha, hcategory⟩ := @category_recordActions_iff {}
    [⟨"user", "go", none, [], none, none, none⟩,
      ⟨"system", "", some "so", [], some (.record [("subtype", .text "compact_boundary")]), none,
        some .result⟩] 1 _ _ rfl (by decide) rfl
    [⟨.hook none none, "Hook: Stop — ", none, some .hook, none⟩]
  exact ⟨a, ha, hcategory.mpr (by decide)⟩

/-- A record of a command's progress that calls itself a skill is shown as builtin. -/
theorem not_forall_category_recordActions :
    ¬ ∀ (limits : Limits) (records : List SessionRecord) (hooks : List Event) (k : Nat)
      (r : SessionRecord) (c : Category), records[k]? = some r → r.bringsOwnAction = true →
        r.category = some c → ∃ a, recordActions limits records hooks k = [a] ∧ a.category = c := by
  intro h
  have hprogress : Role.parse "progress" = some .progress := by decide
  obtain ⟨a, ha, hcategory⟩ := h {}
    [⟨"progress", "", none, [],
      some (.record [("command", .text "ls"), ("subtype", .text "bash_progress")]), none,
      some .skill⟩] [] 0 _ .skill rfl (by decide) rfl
  obtain ⟨latest, hcategories⟩ := @map_category_recordActions {} [⟨"progress", "", none, [],
    some (.record [("command", .text "ls"), ("subtype", .text "bash_progress")]), none,
    some .skill⟩] 0 _ rfl []
  rw [ha, SessionRecord.filterMap_plainCategory?_events (c := .skill) (by decide) rfl,
    if_pos hprogress, List.map_singleton, hcategory] at hcategories
  revert hcategories
  decide

end Chronicle
