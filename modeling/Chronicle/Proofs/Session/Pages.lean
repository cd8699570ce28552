import Chronicle.Proofs.Timeline.Sources
import Chronicle.Session.Events

/-!
# Sessions that are read page by page

Reading a session keeps one thing from record to record: the category of the latest invocation, which
the outcomes after it carry. A page that is read on its own does not know it, and nothing of this
comes to the timeline.

* `hintLeading`: events with another category for the outcomes before the first invocation.
* `SessionRecord.events_of_other`, `SessionRecord.events_of_invocation`: one record after any others.
* `flatten_eventsAfter`: a page after any others differs from the page alone in these hints only.
* `AgreesWithPages`, `agreesWithPages`: pages give the events of the session but for these hints, and
  the timeline of the session.
-/

namespace Chronicle

def Event.hinted (latest : LatestCategory) (e : Event) : Event :=
  if e.kind = .toolOutcome then { e with category := latest } else e

/-- The events with another category for the outcomes before the first invocation. -/
def hintLeading (latest : LatestCategory) (events : List Event) : List Event :=
  (events.takeWhile fun e => !e.isInvocation).map (Event.hinted latest) ++
    events.dropWhile fun e => !e.isInvocation

def latestAfterAll (latest : LatestCategory) (records : List SessionRecord) : LatestCategory :=
  records.foldl SessionRecord.latestAfter latest

/-! ## Leading outcomes -/

section leading
variable {latest : LatestCategory} {e : Event} {events more : List Event}

theorem Event.hinted_of_ne (h : e.kind ≠ .toolOutcome) : e.hinted latest = e := if_neg h

theorem hintLeading_cons_of_invocation (h : e.isInvocation = true) :
    hintLeading latest (e :: more) = e :: more := by
  simp [hintLeading, h]

theorem hintLeading_cons_of_other (h : e.isInvocation = false) :
    hintLeading latest (e :: more) = e.hinted latest :: hintLeading latest more := by
  simp [hintLeading, h]

theorem hintLeading_append_of_other (h : ∀ e ∈ events, e.isInvocation = false) :
    hintLeading latest (events ++ more) =
      events.map (Event.hinted latest) ++ hintLeading latest more := by
  induction events with
  | nil => rfl
  | cons e events ih =>
    obtain ⟨he, hevents⟩ := List.forall_mem_cons.mp h
    rw [List.cons_append, hintLeading_cons_of_other he, ih hevents, List.map_cons, List.cons_append]

theorem hintLeading_append_of_invocation (h : ∀ e ∈ events, e.kind ≠ .toolOutcome)
    (hinvocation : ∃ e ∈ events, e.isInvocation = true) :
    hintLeading latest (events ++ more) = events ++ more := by
  induction events with
  | nil => simp at hinvocation
  | cons e events ih =>
    obtain ⟨he, hevents⟩ := List.forall_mem_cons.mp h
    rw [List.cons_append]
    cases hfirst : e.isInvocation with
    | true => exact hintLeading_cons_of_invocation hfirst
    | false =>
      have hrest : ∃ e ∈ events, e.isInvocation = true := by
        simpa [hfirst] using hinvocation
      rw [hintLeading_cons_of_other hfirst, Event.hinted_of_ne he, ih hevents hrest]

end leading

/-! ## One record -/

namespace SessionRecord

variable {r : SessionRecord} {e : Event}

theorem kind_of_mem_thinkingEvents (h : e ∈ r.thinkingEvents) : e.kind = .thinking := by
  unfold thinkingEvents at h
  split at h
  · cases h
  · split at h
    · cases h
    · rw [List.mem_singleton.mp h]
      rfl

theorem kind_of_mem_invocationEvents (h : e ∈ r.invocationEvents) : e.kind = .toolInvocation := by
  unfold invocationEvents at h
  split at h
  · rw [List.mem_singleton.mp h]
    rfl
  · obtain ⟨call, -, rfl⟩ := List.mem_map.mp h
    rfl

theorem invocationEvents_ne_nil (r : SessionRecord) : r.invocationEvents ≠ [] := by
  unfold invocationEvents
  split
  · exact List.cons_ne_nil _ _
  · rename_i hcalls
    simpa using hcalls

theorem events_of_invocation (hrole : Role.parse r.role = some .toolInvocation)
    (latest latest' : LatestCategory) :
    r.events latest = r.events latest' ∧ r.latestAfter latest = r.latestAfter latest' ∧
      (∀ e ∈ r.events latest, e.kind ≠ .toolOutcome) ∧
      ∃ e ∈ r.events latest, e.isInvocation = true := by
  have hevents (latest : LatestCategory) :
      r.events latest = r.thinkingEvents ++ r.invocationEvents := by
    rw [events, hrole]
    rfl
  have hafter (latest : LatestCategory) : r.latestAfter latest = r.latestAfter none := by
    rw [latestAfter, latestAfter, hrole]
  refine ⟨by rw [hevents, hevents], by rw [hafter, hafter latest'], ?_, ?_⟩
  · intro e he
    rw [hevents, List.mem_append] at he
    rcases he with he | he
    · rw [kind_of_mem_thinkingEvents he]
      decide
    · rw [kind_of_mem_invocationEvents he]
      decide
  · obtain ⟨e, he⟩ := List.exists_mem_of_ne_nil _ r.invocationEvents_ne_nil
    refine ⟨e, ?_, beq_iff_eq.mpr (kind_of_mem_invocationEvents he)⟩
    rw [hevents]
    exact List.mem_append_right _ he

theorem roleEvents_of_other (latest : LatestCategory) (r : SessionRecord) {role : Role}
    (hrole : role ≠ .toolInvocation) :
    r.roleEvents latest role = (r.roleEvents none role).map (Event.hinted latest) ∧
      ∀ e ∈ r.roleEvents none role, e.isInvocation = false := by
  cases role with
  | toolInvocation => exact absurd rfl hrole
  | user =>
    rw [roleEvents, roleEvents, turnEvents]
    split <;> simp [Event.hinted, Event.kind, Event.isInvocation]
  | assistant =>
    rw [roleEvents, roleEvents, turnEvents]
    split <;> simp [Event.hinted, Event.kind, Event.isInvocation]
  | toolOutcome =>
    rw [roleEvents, roleEvents, outcomeEvents, outcomeEvents]
    split <;> simp [Event.hinted, Event.kind, Event.isInvocation]
  | _ => exact ⟨rfl, fun e he => by rw [List.mem_singleton.mp he]; rfl⟩

theorem events_of_other (hrole : Role.parse r.role ≠ some .toolInvocation)
    (latest : LatestCategory) :
    r.events latest = (r.events none).map (Event.hinted latest) ∧ r.latestAfter latest = latest ∧
      ∀ e ∈ r.events none, e.isInvocation = false := by
  have hthinking : r.thinkingEvents.map (Event.hinted latest) = r.thinkingEvents := by
    conv => rhs; rw [← List.map_id r.thinkingEvents]
    refine List.map_congr_left fun e he => Event.hinted_of_ne ?_
    rw [kind_of_mem_thinkingEvents he]
    decide
  rw [events, events, latestAfter]
  cases hparse : Role.parse r.role with
  | none => exact ⟨rfl, rfl, fun e he => absurd he List.not_mem_nil⟩
  | some role =>
    have hother : role ≠ .toolInvocation := by
      rintro rfl
      exact hrole hparse
    obtain ⟨hevents, hinvocation⟩ := roleEvents_of_other latest r hother
    refine ⟨?_, ?_, ?_⟩
    · simp only [List.map_append, hthinking, hevents]
    · cases role <;> first | rfl | exact absurd rfl hother
    · intro e he
      rcases List.mem_append.mp he with he | he
      · rw [Event.isInvocation, kind_of_mem_thinkingEvents he]
        rfl
      · exact hinvocation e he

end SessionRecord

/-! ## Pages -/

theorem eventsAfter_append (latest : LatestCategory) (records more : List SessionRecord) :
    eventsAfter latest (records ++ more) =
      eventsAfter latest records ++ eventsAfter (latestAfterAll latest records) more := by
  induction records generalizing latest with
  | nil => rfl
  | cons r records ih =>
    rw [List.cons_append, eventsAfter, eventsAfter, ih, List.cons_append]
    rfl

/-- **A page after any others differs from the page alone in its leading hints only.** -/
theorem flatten_eventsAfter (latest : LatestCategory) (records : List SessionRecord) :
    (eventsAfter latest records).flatten = hintLeading latest (sessionEvents records) := by
  rw [sessionEvents]
  -- the two runs carry different categories up to the first invocation, and the same from there on
  induction records with
  | nil => rfl
  | cons r records ih =>
    rw [eventsAfter, eventsAfter, List.flatten_cons, List.flatten_cons]
    by_cases hrole : Role.parse r.role = some .toolInvocation
    · obtain ⟨-, -, hplain, hinvocation⟩ := r.events_of_invocation hrole none latest
      obtain ⟨hevents, hafter, -, -⟩ := r.events_of_invocation hrole latest none
      rw [hintLeading_append_of_invocation hplain hinvocation, hevents, hafter]
    · obtain ⟨hevents, hafter, hinvocation⟩ := r.events_of_other hrole latest
      obtain ⟨-, hnone, -⟩ := r.events_of_other hrole none
      rw [hintLeading_append_of_other hinvocation, hevents, hafter, hnone, ih]

/-! ## No hint of an outcome comes to the timeline -/

theorem Event.request_hinted (limits : Limits) (latest : LatestCategory) (e : Event) :
    (e.hinted latest).request limits = e.request limits := by
  by_cases h : e.kind = .toolOutcome
  · have hkind : ({ e with category := latest } : Event).kind = .toolOutcome := h
    rw [hinted, if_pos h, request_of_toolOutcome limits h, request_of_toolOutcome limits hkind]
  · rw [hinted_of_ne h]

theorem map_request_hintLeading (limits : Limits) (latest : LatestCategory) (events : List Event) :
    (hintLeading latest events).map (Event.request limits) = events.map (Event.request limits) := by
  have hsame : Event.request limits ∘ Event.hinted latest = Event.request limits :=
    funext (Event.request_hinted limits latest)
  rw [hintLeading, List.map_append, List.map_map, hsame, ← List.map_append,
    List.takeWhile_append_dropWhile]

theorem timelineOf_congr {limits : Limits} {events events' : List Event}
    (h : events.map (Event.request limits) = events'.map (Event.request limits)) :
    timelineOf limits events = timelineOf limits events' := by
  have hrun (events : List Event) : timelineOf limits events =
      ((events.map (Event.request limits)).foldl Builder.apply {}).finalItems := by
    rw [List.foldl_map]
    rfl
  rw [hrun, hrun, h]

/-! ## All pages -/

/-- What the session has of a page: the events of the page alone, but for the categories that the
outcomes before its first invocation carry. -/
def SameButLeadingHints (page : List SessionRecord) (part : List Event) : Prop :=
  ∃ latest, part = hintLeading latest (sessionEvents page)

theorem exists_parts (latest : LatestCategory) (pages : List (List SessionRecord)) :
    ∃ parts : List (List Event), parts.flatten = (eventsAfter latest pages.flatten).flatten ∧
      List.Forall₂ SameButLeadingHints pages parts := by
  induction pages generalizing latest with
  | nil => exact ⟨[], rfl, .nil⟩
  | cons page pages ih =>
    obtain ⟨parts, hparts, hsame⟩ := ih (latestAfterAll latest page)
    refine ⟨hintLeading latest (sessionEvents page) :: parts, ?_, .cons ⟨latest, rfl⟩ hsame⟩
    rw [List.flatten_cons, List.flatten_cons, eventsAfter_append, List.flatten_append, hparts,
      flatten_eventsAfter latest page]

theorem map_request_flatten (limits : Limits) {pages : List (List SessionRecord)}
    {parts : List (List Event)} (h : List.Forall₂ SameButLeadingHints pages parts) :
    parts.flatten.map (Event.request limits) =
      (pages.flatMap sessionEvents).map (Event.request limits) := by
  induction h with
  | nil => rfl
  | @cons page part pages parts hpart _ ih =>
    obtain ⟨latest, rfl⟩ := hpart
    rw [List.flatten_cons, List.flatMap_cons, List.map_append, List.map_append,
      map_request_hintLeading, ih]

/-- Reading these pages one by one agrees with reading the session whole. -/
structure AgreesWithPages (pages : List (List SessionRecord)) : Prop where
  /-- The timeline is the same. -/
  timeline (limits : Limits) : timelineOf limits (pages.flatMap sessionEvents) =
    timelineOf limits (sessionEvents pages.flatten)
  /-- The session has the events of every page in turn, but for leading hints. -/
  events : ∃ parts : List (List Event), parts.flatten = sessionEvents pages.flatten ∧
    List.Forall₂ SameButLeadingHints pages parts

/-- **Where a session is cut into pages does not matter to its timeline.** -/
theorem agreesWithPages (pages : List (List SessionRecord)) : AgreesWithPages pages := by
  obtain ⟨parts, hparts, hsame⟩ := exists_parts none pages
  refine ⟨fun limits => timelineOf_congr ?_, parts, hparts, hsame⟩
  rw [sessionEvents, ← hparts, map_request_flatten limits hsame]

end Chronicle
