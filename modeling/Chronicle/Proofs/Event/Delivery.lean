import Chronicle.Proofs.Json.Members
import Chronicle.Proofs.Session.Pages
import Chronicle.Hook.Record

/-!
# Events by way of the transport

An event that is written as a live event and delivered comes back as it was, unless the transport
would make something else of what it says.

* `Event.Deliverable`, `Event.toEvent_toLive_iff`: which events come back. A delivered event has the
  note or the progress that its metadata describes, its invocation has a name, and a hook without a
  tool has none in its own record either.
* `deliverable_of_mem_eventsAfter`: the events of a session come back, whatever its records say.
* `HookRecord.deliverable_toEvent`: so do those of hook records that were read from stored values. A
  record without a tool was read from one that names none (`HookRecord.text?_of_tool_eq_none`).
* `DeliveredAlike`, `deliveredAlike`: both ways give the same events and the same timelines.
-/

namespace Chronicle

/-! ## Events that come back -/

/-- The transport makes of the event what the event says. -/
def Event.Deliverable (e : Event) : Prop :=
  match e.payload with
  | .toolInvocation tool _ => Text.allBlank tool = false
  | .system note => note = .of e.metadata
  | .progress progress => progress = .of e.metadata
  | .hook none _ => LiveEvent.hookTool e.metadata = none
  | _ => True

theorem LiveEvent.invokedTool_some_iff {tool : String} :
    invokedTool (some tool) = tool ↔ Text.allBlank tool = false := by
  rw [invokedTool]
  cases hblank : Text.allBlank tool with
  | false => simp
  | true =>
    have hne : "tool" ≠ tool := by
      rintro rfl
      exact absurd hblank (by decide)
    simpa using hne

theorem Event.payload_toLive_iff (e : Event) : e.toLive.payload = e.payload ↔ e.Deliverable := by
  unfold LiveEvent.payload Event.toLive Event.kind Event.tool? Event.input? Deliverable
  cases e.payload with
  | toolInvocation tool input => simpa using LiveEvent.invokedTool_some_iff
  | system note => simp [eq_comm]
  | progress progress => simp [eq_comm]
  | hook tool input => cases tool <;> simp
  | _ => simp

/-- **An event comes back exactly if the transport makes of it what it says.** -/
theorem Event.toEvent_toLive_iff (e : Event) : e.toLive.toEvent = e ↔ e.Deliverable := by
  rw [← e.payload_toLive_iff]
  constructor
  · intro h
    exact congrArg Event.payload h
  · intro h
    show ({ e with payload := e.toLive.payload } : Event) = e
    rw [h]

theorem LiveEvent.allBlank_invokedTool (name : Option String) :
    Text.allBlank (invokedTool name) = false := by
  have htool : Text.allBlank "tool" = false := by decide
  cases name with
  | none => exact htool
  | some name =>
    rw [invokedTool]
    split
    · exact htool
    · rename_i hname
      simpa using hname

theorem LiveEvent.deliverable_toEvent (e : LiveEvent) : e.toEvent.Deliverable := by
  unfold Event.Deliverable toEvent payload
  cases e.kind with
  | toolInvocation => exact allBlank_invokedTool e.tool
  | hook =>
    cases htool : e.tool.or (hookTool e.metadata) with
    | some tool => trivial
    | none => exact (Option.or_eq_none_iff.mp htool).2
  | system => exact rfl
  | progress => exact rfl
  | _ => trivial

/-! ## Events of a session -/

namespace SessionRecord

variable {r : SessionRecord} {e : Event}

theorem deliverable_of_mem_turnEvents {payload : Payload} (hp : payload = .user ∨ payload = .assistant)
    (h : e ∈ r.turnEvents payload) : e.Deliverable := by
  rw [turnEvents] at h
  split at h
  · cases h
  · rw [List.mem_singleton.mp h]
    rcases hp with rfl | rfl <;> trivial

theorem deliverable_of_mem_invocationEvents (h : e ∈ r.invocationEvents) : e.Deliverable := by
  have htool : Text.allBlank "tool" = false := by decide
  unfold invocationEvents at h
  split at h
  · rw [List.mem_singleton.mp h]
    exact htool
  · obtain ⟨call, -, rfl⟩ := List.mem_map.mp h
    show Text.allBlank (if Text.allBlank call.name then "tool" else call.name) = false
    split
    · exact htool
    · rename_i hname
      simpa using hname

theorem deliverable_of_mem_roleEvents {latest : LatestCategory} {role : Role}
    (h : e ∈ r.roleEvents latest role) : e.Deliverable := by
  cases role with
  | user =>
    rw [roleEvents] at h
    exact deliverable_of_mem_turnEvents (.inl rfl) h
  | assistant =>
    rw [roleEvents] at h
    exact deliverable_of_mem_turnEvents (.inr rfl) h
  | toolInvocation =>
    rw [roleEvents] at h
    exact deliverable_of_mem_invocationEvents h
  | toolOutcome =>
    rw [roleEvents, outcomeEvents] at h
    split at h
    · cases h
    · rw [List.mem_singleton.mp h]
      trivial
  | system =>
    rw [List.mem_singleton.mp h]
    exact rfl
  | progress =>
    rw [List.mem_singleton.mp h]
    exact rfl
  | summary =>
    rw [List.mem_singleton.mp h]
    trivial

theorem deliverable_of_mem_events {latest : LatestCategory} (h : e ∈ r.events latest) :
    e.Deliverable := by
  unfold events at h
  split at h
  · cases h
  · rcases List.mem_append.mp h with h | h
    · have hkind := kind_of_mem_thinkingEvents h
      unfold Event.kind at hkind
      unfold Event.Deliverable
      cases hp : e.payload with
      | thinking => trivial
      | _ => simp [hp] at hkind
    · exact deliverable_of_mem_roleEvents h

end SessionRecord

theorem deliverable_of_mem_eventsAfter {latest : LatestCategory} {records : List SessionRecord}
    {e : Event} (h : e ∈ (eventsAfter latest records).flatten) : e.Deliverable := by
  induction records generalizing latest with
  | nil => cases h
  | cons r records ih =>
    rw [eventsAfter, List.flatten_cons, List.mem_append] at h
    rcases h with h | h
    · exact SessionRecord.deliverable_of_mem_events h
    · exact ih h

/-! ## Hooks -/

namespace HookRecord

theorem tool_of_store {field : Field} (hfield : field ≠ .tool) {v : Json} {d d' : Draft}
    (h : store field v d = .ok d') : d'.tool = d.tool := by
  cases field with
  | tool => exact absurd rfl hfield
  | _ =>
    obtain ⟨_, -, h⟩ := Json.exists_of_bind_eq_ok h
    cases h
    rfl

theorem asOptional_of_store {v : Json} {d d' : Draft} (h : store .tool v d = .ok d') :
    Json.asOptional Json.asText v = .ok d'.tool := by
  obtain ⟨tool, htool, h⟩ := Json.exists_of_bind_eq_ok h
  cases h
  exact htool

theorem ofName?_eq_tool_iff (name : String) :
    Field.ofName? name = some .tool ↔ name = "tool_name" := by
  constructor
  · intro h
    unfold Field.ofName? at h
    split at h <;> simp_all
  · rintro rfl
    rfl

theorem of_finish {raw : Json} {d : Draft} {r : HookRecord} (h : (layout raw).finish d = some r) :
    r.tool = d.tool ∧ r.raw = raw := by
  obtain ⟨id, -, h⟩ := Option.bind_eq_some_iff.mp h
  obtain ⟨event, -, h⟩ := Option.bind_eq_some_iff.mp h
  cases h
  exact ⟨rfl, rfl⟩

theorem raw_of_ofRaw {raw : Json} {r : HookRecord} (h : ofRaw raw = .ok r) : r.raw = raw := by
  obtain ⟨d, hfinish, -⟩ := Json.exists_draft_of_asRecord rfl h
  exact (of_finish hfinish).2

theorem text?_of_asOptional {v : Json} (h : Json.asOptional Json.asText v = .ok none) :
    v.text? = none := by
  cases v with
  | text s => cases h
  | _ => rfl

theorem text?_of_tool_eq_none {raw : Json} {r : HookRecord} (h : ofRaw raw = .ok r)
    (htool : r.tool = none) : Metadata.text? raw ["tool_name"] = none := by
  have hmember : (raw.get? "tool_name").bind Json.text? = none := by
    obtain ⟨d, hfinish, hstored⟩ := Json.exists_draft_of_asRecord rfl h
    rw [(of_finish hfinish).1] at htool
    cases raw with
    | record members =>
      rw [Json.get?]
      cases hlookup : members.lookup "tool_name" with
      | none => rfl
      | some v =>
        have hread := (Json.read_of_storeMembers Draft.tool
          (fun v tool => Json.asOptional Json.asText v = .ok tool) ofName?_eq_tool_iff
          (fun _ _ _ h => asOptional_of_store h) (fun _ _ _ _ hne h => tool_of_store hne h)
          (hstored members rfl)).2 List.not_mem_nil v hlookup
        rw [htool] at hread
        exact text?_of_asOptional hread
    | _ => rfl
  simp [Metadata.text?, Metadata.textMember?, hmember]

theorem deliverable_toEvent {raw : Json} {r : HookRecord} (h : ofRaw raw = .ok r) :
    r.toEvent.Deliverable := by
  unfold Event.Deliverable toEvent
  cases htool : r.tool with
  | some tool => trivial
  | none =>
    have hraw := raw_of_ofRaw h
    show Metadata.text? r.raw ["tool_name"] = none
    rw [hraw, text?_of_tool_eq_none h htool]

end HookRecord

/-! ## Streams -/

/-- The events of these session records and hook records are the same by way of the transport. -/
structure DeliveredAlike (records : List SessionRecord) (hooks : List HookRecord) : Prop where
  session (e : Event) : e ∈ sessionEvents records → e.toLive.toEvent = e
  hook (r : HookRecord) : r ∈ hooks → r.toEvent.toLive.toEvent = r.toEvent
  /-- In whatever order they come, the timeline is the same. -/
  timeline (limits : Limits) (events : List Event) :
    (∀ e ∈ events, e ∈ sessionEvents records ∨ e ∈ hooks.map HookRecord.toEvent) →
      timelineOf limits ((events.map Event.toLive).map LiveEvent.toEvent) =
        timelineOf limits events
  /-- So it is for the merged stream, delivered as a whole or merged behind the transport. -/
  merged (limits : Limits) :
    timelineOf limits (((mergeStreams (sessionEvents records)
        (hooks.map HookRecord.toEvent)).map Event.toLive).map LiveEvent.toEvent) =
      timelineOf limits (mergeStreams (sessionEvents records) (hooks.map HookRecord.toEvent)) ∧
    timelineOf limits (mergeStreams
        (((sessionEvents records).map Event.toLive).map LiveEvent.toEvent)
        (((hooks.map HookRecord.toEvent).map Event.toLive).map LiveEvent.toEvent)) =
      timelineOf limits (mergeStreams (sessionEvents records) (hooks.map HookRecord.toEvent))

theorem map_toEvent_map_toLive {events : List Event} (h : ∀ e ∈ events, e.Deliverable) :
    (events.map Event.toLive).map LiveEvent.toEvent = events := by
  rw [List.map_map]
  conv => rhs; rw [← List.map_id events]
  exact List.map_congr_left fun e he => e.toEvent_toLive_iff.mpr (h e he)

/-- **The live way and the historical way agree.** -/
theorem deliveredAlike (records : List SessionRecord) (hooks : List HookRecord)
    (hraw : ∀ r ∈ hooks, ∃ raw, HookRecord.ofRaw raw = .ok r) : DeliveredAlike records hooks := by
  have hsession (e : Event) (he : e ∈ sessionEvents records) : e.Deliverable :=
    deliverable_of_mem_eventsAfter he
  have hhook (r : HookRecord) (hr : r ∈ hooks) : r.toEvent.Deliverable := by
    obtain ⟨raw, hraw⟩ := hraw r hr
    exact HookRecord.deliverable_toEvent hraw
  have hhooks (e : Event) (he : e ∈ hooks.map HookRecord.toEvent) : e.Deliverable := by
    obtain ⟨r, hr, rfl⟩ := List.mem_map.mp he
    exact hhook r hr
  have hsame (events : List Event)
      (h : ∀ e ∈ events, e ∈ sessionEvents records ∨ e ∈ hooks.map HookRecord.toEvent) :
      (events.map Event.toLive).map LiveEvent.toEvent = events :=
    map_toEvent_map_toLive fun e he => (h e he).elim (hsession e) (hhooks e)
  constructor
  · intro e he
    exact e.toEvent_toLive_iff.mpr (hsession e he)
  · intro r hr
    exact r.toEvent.toEvent_toLive_iff.mpr (hhook r hr)
  · intro limits events h
    rw [hsame events h]
  · intro limits
    have hmerged := hsame (mergeStreams (sessionEvents records) (hooks.map HookRecord.toEvent))
      fun e he => List.mem_merge.mp he
    rw [hmerged, map_toEvent_map_toLive hsession, map_toEvent_map_toLive hhooks]
    exact ⟨rfl, rfl⟩

/-- A hook whose tool is null, and a call without a name. -/
theorem deliveredAlike_unnamed :
    (∀ r ∈ [(⟨"7", none, "Stop", none, "", "", none,
        .record [("event_name", .text "Stop"), ("id", .text "7"), ("tool_name", .null)]⟩ :
          HookRecord)], ∃ raw, HookRecord.ofRaw raw = .ok r) ∧
      DeliveredAlike [{ role := "tool_use", calls := [{ name := " " }] }]
        [⟨"7", none, "Stop", none, "", "", none,
          .record [("event_name", .text "Stop"), ("id", .text "7"), ("tool_name", .null)]⟩] := by
  have hraw (r : HookRecord) (hr : r ∈ [(⟨"7", none, "Stop", none, "", "", none,
      .record [("event_name", .text "Stop"), ("id", .text "7"), ("tool_name", .null)]⟩ :
        HookRecord)]) : ∃ raw, HookRecord.ofRaw raw = .ok r := by
    refine ⟨r.raw, ?_⟩
    rw [List.mem_singleton.mp hr]
    rfl
  exact ⟨hraw, deliveredAlike _ _ hraw⟩

end Chronicle
