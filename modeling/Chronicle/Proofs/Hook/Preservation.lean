import Chronicle.Proofs.Event.Delivery
import Chronicle.Proofs.Interleaving
import Chronicle.Proofs.Time.Order

/-!
# Hook records in the stream of a session

Hook records are sorted, made into events and merged into the events of a session. Every event of a
hook carries its record as it was read, and reading that again gives the same fields, so nothing is
lost on the way.

* `HookRecord.ofEvent?_toEvent`: the event of a record gives the record back.
* `kind_of_mem_sessionEvents`: no event of a session is taken for a hook's.
* `HookRecordsKept`, `hookRecordsKept`: the hook events of the stream give back the sorted records,
  and its other events are those of the session.
-/

namespace Chronicle

/-- The events of a session with these hook records merged in. -/
def streamWithHooks (session : List SessionRecord) (records : List HookRecord) : List Event :=
  mergeStreams (sessionEvents session) ((HookRecord.sort records).map HookRecord.toEvent)

/-! ## One record -/

namespace HookRecord

theorem get?_metadata_toEvent (r : HookRecord) :
    (r.toEvent.metadata.bind fun data => data.get? hookMember) = some r.raw := by
  simp [toEvent, Json.get?]

theorem ofEvent?_toEvent_eq (r : HookRecord) : ofEvent? r.toEvent = (ofRaw r.raw).toOption := by
  have hraw := r.get?_metadata_toEvent
  obtain ⟨data, hdata, hmember⟩ := Option.bind_eq_some_iff.mp hraw
  unfold ofEvent?
  rw [hdata]
  show (data.get? hookMember >>= fun raw => (ofRaw raw).toOption) = _
  rw [hmember]
  rfl

/-- **The event of a record that was read gives the record back**, the value that it was read from
and every field. -/
theorem ofEvent?_toEvent {raw : Json} {r : HookRecord} (h : ofRaw raw = .ok r) :
    ofEvent? r.toEvent = some r := by
  rw [ofEvent?_toEvent_eq, raw_of_ofRaw h, h]
  rfl

end HookRecord

/-! ## Events of a session -/

namespace SessionRecord

variable {r : SessionRecord} {e : Event}

theorem kind_of_mem_roleEvents {latest : LatestCategory} {role : Role}
    (h : e ∈ r.roleEvents latest role) : e.kind ≠ .hook := by
  cases role with
  | toolInvocation =>
    rw [roleEvents] at h
    rw [kind_of_mem_invocationEvents h]
    decide
  | user =>
    rw [roleEvents, turnEvents] at h
    split at h
    · cases h
    · rw [List.mem_singleton.mp h]
      exact Kind.noConfusion
  | assistant =>
    rw [roleEvents, turnEvents] at h
    split at h
    · cases h
    · rw [List.mem_singleton.mp h]
      exact Kind.noConfusion
  | toolOutcome =>
    rw [roleEvents, outcomeEvents] at h
    split at h
    · cases h
    · rw [List.mem_singleton.mp h]
      exact Kind.noConfusion
  | _ =>
    rw [List.mem_singleton.mp h]
    exact Kind.noConfusion

theorem kind_of_mem_events {latest : LatestCategory} (h : e ∈ r.events latest) :
    e.kind ≠ .hook := by
  unfold events at h
  split at h
  · cases h
  · rcases List.mem_append.mp h with h | h
    · rw [kind_of_mem_thinkingEvents h]
      decide
    · exact kind_of_mem_roleEvents h

end SessionRecord

theorem kind_of_mem_eventsAfter {latest : LatestCategory} {records : List SessionRecord}
    {e : Event} (h : e ∈ (eventsAfter latest records).flatten) : e.kind ≠ .hook := by
  induction records generalizing latest with
  | nil => cases h
  | cons r records ih =>
    rw [eventsAfter, List.flatten_cons, List.mem_append] at h
    rcases h with h | h
    · exact SessionRecord.kind_of_mem_events h
    · exact ih h

theorem kind_of_mem_sessionEvents {records : List SessionRecord} {e : Event}
    (h : e ∈ sessionEvents records) : e.kind ≠ .hook :=
  kind_of_mem_eventsAfter h

/-! ## The stream -/

theorem interleaves_streamWithHooks (session : List SessionRecord) (records : List HookRecord) :
    Interleaves (sessionEvents session) ((HookRecord.sort records).map HookRecord.toEvent)
      (streamWithHooks session records) :=
  interleaves_mergeBy Event.orderKey _ _

theorem filter_hook_streamWithHooks (session : List SessionRecord) (records : List HookRecord) :
    (streamWithHooks session records).filter (fun e => e.kind = .hook) =
      (HookRecord.sort records).map HookRecord.toEvent := by
  apply (interleaves_streamWithHooks session records).symm.filter_eq_left
  · intro e he
    obtain ⟨r, -, rfl⟩ := List.mem_map.mp he
    rfl
  · intro e he
    exact decide_eq_false (kind_of_mem_sessionEvents he)

theorem filter_session_streamWithHooks (session : List SessionRecord)
    (records : List HookRecord) :
    (streamWithHooks session records).filter (fun e => e.kind ≠ .hook) =
      sessionEvents session := by
  apply (interleaves_streamWithHooks session records).filter_eq_left
  · intro e he
    exact decide_eq_true (kind_of_mem_sessionEvents he)
  · intro e he
    obtain ⟨r, -, rfl⟩ := List.mem_map.mp he
    rfl

/-- Nothing is lost of hook records that were read from these values when they are merged into a
session. -/
structure HookRecordsKept (session : List SessionRecord) (raws : List Json)
    (records : List HookRecord) : Prop where
  /-- The hook events, in the order of the stream, give back the records in the order in which they
  are sorted. -/
  hooks : ((streamWithHooks session records).filter (fun e => e.kind = .hook)).map
    HookRecord.ofEvent? = (HookRecord.sort records).map some
  /-- Sorting keeps every record once. -/
  once : (HookRecord.sort records).Perm records
  sorted : (HookRecord.sort records).Pairwise fun a b => (a.compare b).isLE
  /-- A record holds the value that it was read from. -/
  raw : records.map HookRecord.raw = raws
  /-- All other events are those of the session, in its order. -/
  session : (streamWithHooks session records).filter (fun e => e.kind ≠ .hook) =
    sessionEvents session

section
variable {raws : List Json} {records : List HookRecord}

theorem map_raw_of_forall₂_ofRaw
    (h : List.Forall₂ (fun raw r => HookRecord.ofRaw raw = .ok r) raws records) :
    records.map HookRecord.raw = raws := by
  induction h with
  | nil => rfl
  | cons hfirst _ ih => rw [List.map_cons, HookRecord.raw_of_ofRaw hfirst, ih]

theorem ofEvent?_toEvent_of_forall₂_ofRaw
    (h : List.Forall₂ (fun raw r => HookRecord.ofRaw raw = .ok r) raws records) :
    ∀ r ∈ records, HookRecord.ofEvent? r.toEvent = some r := by
  induction h with
  | nil => simp
  | cons hfirst _ ih => exact List.forall_mem_cons.mpr ⟨HookRecord.ofEvent?_toEvent hfirst, ih⟩

end

/-- **Hook records survive being sorted, made into events and merged.** -/
theorem hookRecordsKept (session : List SessionRecord) {raws : List Json}
    {records : List HookRecord}
    (hread : List.Forall₂ (fun raw r => HookRecord.ofRaw raw = .ok r) raws records) :
    HookRecordsKept session raws records := by
  have hback (r : HookRecord) (hr : r ∈ HookRecord.sort records) :
      HookRecord.ofEvent? r.toEvent = some r := by
    have hmem : r ∈ records := List.mem_mergeSort.mp hr
    exact ofEvent?_toEvent_of_forall₂_ofRaw hread r hmem
  constructor
  · rw [filter_hook_streamWithHooks, List.map_map]
    exact List.map_congr_left hback
  · exact List.mergeSort_perm records _
  · exact HookRecord.pairwise_sort records
  · exact map_raw_of_forall₂_ofRaw hread
  · exact filter_session_streamWithHooks session records

/-- A record whose time is no number, and one that says no time and has a number as its id. -/
theorem hookRecordsKept_nan :
    ∃ records,
      List.Forall₂ (fun raw r => HookRecord.ofRaw raw = .ok r)
        [.record [("event_name", .text "Stop"), ("id", .text "z"), ("timestamp", .text "nan")],
          .record [("event_name", .text "Stop"), ("id", .number (.int 7))]] records ∧
      HookRecordsKept [{ role := "user", content := "a" }, { role := "tool_use" }]
        [.record [("event_name", .text "Stop"), ("id", .text "z"), ("timestamp", .text "nan")],
          .record [("event_name", .text "Stop"), ("id", .number (.int 7))]] records := by
  have hread : List.Forall₂ (fun raw r => HookRecord.ofRaw raw = .ok r)
      [.record [("event_name", .text "Stop"), ("id", .text "z"), ("timestamp", .text "nan")],
        .record [("event_name", .text "Stop"), ("id", .number (.int 7))]]
      [⟨"z", some .nan, "Stop", none, "", "", none,
          .record [("event_name", .text "Stop"), ("id", .text "z"), ("timestamp", .text "nan")]⟩,
        ⟨"7", none, "Stop", none, "", "", none,
          .record [("event_name", .text "Stop"), ("id", .number (.int 7))]⟩] :=
    .cons rfl (.cons rfl .nil)
  exact ⟨_, hread, hookRecordsKept _ hread⟩

end Chronicle
