import Chronicle.Proofs.Json.Written
import Chronicle.Proofs.Time.Rereading
import Chronicle.Session.Record

/-!
# Records are read again as they were written

A record that was read, of a session or from the live transport, is the same record when it is written
and read again. Only its time may differ: a great number of seconds is taken for milliseconds when it
is read again, and a number that is not finite is not written at all.

* `LiveEvent.decode_toJson`, `ToolCall.decode_toJson`, `SessionRecord.decode_toJson`: what any record
  is read as, whether it was read or not. Null in place of a value tells nothing, and is lost.
* `LiveEvent.noNull_of_decode`, `SessionRecord.noNull_of_decode`: no record that was read holds null.
* `RereadAsWritten`, `rereadAsWritten`: all of this for the record of any value.
-/

namespace Chronicle

open Json (told?)

/-! ## Live events -/

namespace LiveEvent

/-- No null stands in place of a value. -/
structure NoNull (e : LiveEvent) : Prop where
  input : e.input ≠ some .null
  metadata : e.metadata ≠ some .null

def reread (e : LiveEvent) : LiveEvent :=
  { e with
    timestamp := e.timestamp.reread
    input := e.input.bind told?
    metadata := e.metadata.bind told? }

/-- **An event is read again but for nulls and for its time.** -/
theorem decode_toJson (e : LiveEvent) : decode e.toJson = .ok e.reread := by
  rw [decode, toJson]
  simp only [List.append_assoc, List.cons_append, List.nil_append]
  rw [← List.append_nil (Json.member? "tool_name" _)]
  -- the members in the order of their names, each with the draft that it leaves
  refine Json.asRecord_of_stores
    [.category, .content, .input, .kind, .metadata, .timestamp, .tool]
    ⟨some e.kind, e.content, e.timestamp.reread, e.tool, e.input.bind told?, e.category,
      e.metadata.bind told?⟩ ?_ (by decide) rfl
  refine .optional (fun category => { category }) rfl rfl rfl
    (fun c => Json.bind_of_eq_ok (Json.asOptional_asVariant_text c.ofTag?_tag) _) ?_
  refine .member rfl rfl ?_
  refine .optionalValue (fun input =>
      { category := e.category, content := e.content, input := input.bind told? })
    rfl rfl (fun v => Json.bind_of_eq_ok (Json.asOptional_asValue v) _) ?_
  refine .member rfl (Json.bind_some_of_eq_ok (Json.asVariant_text e.kind.ofTag?_tag) _) ?_
  refine .optionalValue (fun metadata =>
      ⟨some e.kind, e.content, none, none, e.input.bind told?, e.category, metadata.bind told?⟩)
    rfl rfl (fun v => Json.bind_of_eq_ok (Json.asOptional_asValue v) _) ?_
  refine .member rfl (Json.bind_of_eq_ok e.timestamp.decode_toJson _) ?_
  exact .optional (fun tool => ⟨some e.kind, e.content, e.timestamp.reread, tool,
      e.input.bind told?, e.category, e.metadata.bind told?⟩)
    rfl rfl rfl (fun _ => rfl) (.nil _)

theorem noNull_of_decode {v : Json} {e : LiveEvent} (h : decode v = .ok e) : e.NoNull := by
  have hstore (field : Field) (v : Json) (d d' : Draft)
      (hd : d.input ≠ some .null ∧ d.metadata ≠ some .null) (h : store field v d = .ok d') :
      d'.input ≠ some .null ∧ d'.metadata ≠ some .null := by
    cases field with
    | input =>
      obtain ⟨input, hinput, h⟩ := Json.exists_of_bind_eq_ok h
      cases h
      exact ⟨Json.ne_null_of_asOptional hinput, hd.2⟩
    | metadata =>
      obtain ⟨metadata, hmetadata, h⟩ := Json.exists_of_bind_eq_ok h
      cases h
      exact ⟨hd.1, Json.ne_null_of_asOptional hmetadata⟩
    | _ =>
      obtain ⟨_, -, h⟩ := Json.exists_of_bind_eq_ok h
      cases h
      exact hd
  obtain ⟨d, hd, hfinish⟩ :=
    Json.exists_kept_draft_of_asRecord hstore rfl ⟨by simp [layout], by simp [layout]⟩ h
  obtain ⟨kind, -, rfl⟩ := Option.map_eq_some_iff.mp hfinish
  exact ⟨hd.1, hd.2⟩

theorem reread_of_noNull {e : LiveEvent} (h : e.NoNull) :
    e.reread = { e with timestamp := e.timestamp.reread } := by
  rw [reread, (Json.bind_told?_eq_self_iff _).mpr h.input,
    (Json.bind_told?_eq_self_iff _).mpr h.metadata]

end LiveEvent

/-! ## Calls -/

theorem Category.decodeLoose_tag (c : Category) : decodeLoose (Json.text c.tag) = .ok (some c) := by
  have htext : Json.asOptional Json.asText (Json.text c.tag) = .ok (some c.tag) := rfl
  rw [decodeLoose, htext, Except.map, Option.bind_some, c.parse_tag]

namespace ToolCall

def reread (c : ToolCall) : ToolCall := { c with input := c.input.bind told? }

/-- **A call is read again but for a null.** -/
theorem decode_toJson (c : ToolCall) : decode c.toJson = .ok c.reread := by
  rw [decode, toJson]
  simp only [List.append_assoc]
  refine Json.asRecord_of_stores [.category, .input, .name] c.reread ?_ (by decide) rfl
  refine .optional (fun category => { category }) rfl rfl rfl
    (fun c => Json.bind_of_eq_ok c.decodeLoose_tag _) ?_
  refine .optionalValue (fun input => { category := c.category, input := input.bind told? }) rfl rfl
    (fun v => Json.bind_of_eq_ok (Json.asOptional_asValue v) _) ?_
  exact .member rfl rfl (.nil _)

theorem input_of_decode {v : Json} {c : ToolCall} (h : decode v = .ok c) :
    c.input ≠ some .null := by
  have hstore (field : Field) (v : Json) (c c' : ToolCall) (hc : c.input ≠ some .null)
      (h : store field v c = .ok c') : c'.input ≠ some .null := by
    cases field with
    | input =>
      obtain ⟨input, hinput, h⟩ := Json.exists_of_bind_eq_ok h
      cases h
      exact Json.ne_null_of_asOptional hinput
    | _ =>
      obtain ⟨_, -, h⟩ := Json.exists_of_bind_eq_ok h
      cases h
      exact hc
  obtain ⟨d, hd, hfinish⟩ := Json.exists_kept_draft_of_asRecord hstore rfl (by simp [layout]) h
  cases hfinish
  exact hd

end ToolCall

/-! ## Session records -/

namespace SessionRecord

/-- No null stands in place of a value, in the record or in its calls. -/
structure NoNull (r : SessionRecord) : Prop where
  metadata : r.metadata ≠ some .null
  calls : ∀ c ∈ r.calls, c.input ≠ some .null

def reread (r : SessionRecord) : SessionRecord :=
  { r with
    calls := r.calls.map ToolCall.reread
    metadata := r.metadata.bind told?
    timestamp := r.timestamp.reread }

theorem asEach_calls (calls : List ToolCall) :
    Json.asEach (fun v _ => ToolCall.decode v) (Json.list (calls.map ToolCall.toJson)) =
      .ok (calls.map ToolCall.reread) := by
  refine Json.asEach_list ?_
  rw [List.forall₂_map_left_iff, List.forall₂_map_right_iff, List.forall₂_same]
  exact fun c _ => c.decode_toJson

/-- **A record is read again but for nulls and for its time.** -/
theorem decode_toJson (r : SessionRecord) : decode r.toJson = .ok r.reread := by
  rw [decode, toJson]
  simp only [List.append_assoc, List.cons_append, List.nil_append]
  rw [← List.append_nil (Json.member? "tool_calls" _)]
  refine Json.asRecord_of_stores
    [.category, .content, .metadata, .role, .thinking, .timestamp, .calls]
    ⟨some r.role, r.content, r.thinking, r.calls.map ToolCall.reread, r.metadata.bind told?,
      r.timestamp.reread, r.category⟩ ?_ (by decide) rfl
  refine .optional (fun category => { category }) rfl rfl rfl
    (fun c => Json.bind_of_eq_ok c.decodeLoose_tag _) ?_
  refine .member rfl rfl ?_
  refine .optionalValue (fun metadata =>
      { category := r.category, content := r.content, metadata := metadata.bind told? })
    rfl rfl (fun v => Json.bind_of_eq_ok (Json.asOptional_asValue v) _) ?_
  refine .member rfl rfl ?_
  refine .optional (fun thinking =>
      ⟨some r.role, r.content, thinking, [], r.metadata.bind told?, none, r.category⟩)
    rfl rfl rfl (fun _ => rfl) ?_
  refine .optional (fun timestamp => ⟨some r.role, r.content, r.thinking, [],
      r.metadata.bind told?, Timestamp.reread timestamp, r.category⟩)
    rfl rfl rfl (fun x => Json.bind_of_eq_ok (Timestamp.decode_toJson (some x)) _) ?_
  -- no list is written for no calls
  generalize r.calls = calls
  cases calls with
  | nil => exact .absent (.nil _)
  | cons c calls => exact .member rfl (Json.bind_of_eq_ok (asEach_calls (c :: calls)) _) (.nil _)

theorem noNull_of_decode {v : Json} {r : SessionRecord} (h : decode v = .ok r) : r.NoNull := by
  have hstore (field : Field) (v : Json) (d d' : Draft)
      (hd : d.metadata ≠ some .null ∧ ∀ c ∈ d.calls, c.input ≠ some .null)
      (h : store field v d = .ok d') :
      d'.metadata ≠ some .null ∧ ∀ c ∈ d'.calls, c.input ≠ some .null := by
    cases field with
    | metadata =>
      obtain ⟨metadata, hmetadata, h⟩ := Json.exists_of_bind_eq_ok h
      cases h
      exact ⟨Json.ne_null_of_asOptional hmetadata, hd.2⟩
    | calls =>
      obtain ⟨calls, hcalls, h⟩ := Json.exists_of_bind_eq_ok h
      cases h
      exact ⟨hd.1, Json.forall_of_asEach (fun _ _ _ hcall => ToolCall.input_of_decode hcall) hcalls⟩
    | _ =>
      obtain ⟨_, -, h⟩ := Json.exists_of_bind_eq_ok h
      cases h
      exact hd
  obtain ⟨d, hd, hfinish⟩ :=
    Json.exists_kept_draft_of_asRecord hstore rfl ⟨by simp [layout], by simp [layout]⟩ h
  obtain ⟨role, -, rfl⟩ := Option.map_eq_some_iff.mp hfinish
  exact ⟨hd.1, hd.2⟩

theorem reread_of_noNull {r : SessionRecord} (h : r.NoNull) :
    r.reread = { r with timestamp := r.timestamp.reread } := by
  have hcalls : r.calls.map ToolCall.reread = r.calls := by
    conv => rhs; rw [← List.map_id r.calls]
    refine List.map_congr_left fun c hc => ?_
    rw [ToolCall.reread, (Json.bind_told?_eq_self_iff _).mpr (h.calls c hc)]
    rfl
  rw [reread, hcalls, (Json.bind_told?_eq_self_iff _).mpr h.metadata]

end SessionRecord

/-! ## Records of values -/

/-- The records of this value, as far as it has any, are written and read again with every field but
the time, and with the time too if it is in seconds. -/
structure RereadAsWritten (v : Json) : Prop where
  live (e : LiveEvent) : LiveEvent.decode v = .ok e →
    LiveEvent.decode e.toJson = .ok { e with timestamp := e.timestamp.reread } ∧
      (e.timestamp.InSeconds → LiveEvent.decode e.toJson = .ok e)
  session (r : SessionRecord) : SessionRecord.decode v = .ok r →
    SessionRecord.decode r.toJson = .ok { r with timestamp := r.timestamp.reread } ∧
      (r.timestamp.InSeconds → SessionRecord.decode r.toJson = .ok r)

/-- **Records are read again as they were written.** -/
theorem rereadAsWritten (v : Json) : RereadAsWritten v where
  live e h := by
    have hreread := e.decode_toJson
    rw [LiveEvent.reread_of_noNull (LiveEvent.noNull_of_decode h)] at hreread
    refine ⟨hreread, fun htime => ?_⟩
    rw [hreread, Timestamp.reread_eq_self htime]
  session r h := by
    have hreread := r.decode_toJson
    rw [SessionRecord.reread_of_noNull (SessionRecord.noNull_of_decode h)] at hreread
    refine ⟨hreread, fun htime => ?_⟩
    rw [hreread, Timestamp.reread_eq_self htime]

/-- A record of another maker, with other names for members, a category that is none and nulls in
place of texts and inputs, one without calls, and an event that is not in seconds. -/
theorem rereadAsWritten_aliases :
    (∃ r, SessionRecord.decode (Json.record [("category", .text "odd"), ("content", .null),
          ("metadata", .record [("subtype", .null)]), ("role", .text "agent"),
          ("timestamp", .number (.float ⟨0x41D954FC40000000⟩)),
          ("toolCalls", .list [.record [("arguments", .list [.null]), ("toolName", .text "Read")],
            .record [("input", .null)]])]) = .ok r ∧
        r.timestamp.InSeconds ∧ SessionRecord.decode r.toJson = .ok r) ∧
      (∃ r, SessionRecord.decode (Json.record [("role", .text "user"), ("tool_calls", .list [])]) =
          .ok r ∧ r.timestamp.InSeconds ∧ SessionRecord.decode r.toJson = .ok r) ∧
      ∃ e, LiveEvent.decode (Json.record [("content", .null), ("input", .list [.null]),
            ("kind", .text "tool_invocation"),
            ("timestamp", .number (.float ⟨0x430C6BF526340000⟩))]) = .ok e ∧
        ¬ e.timestamp.InSeconds ∧
        LiveEvent.decode e.toJson = .ok { e with timestamp := e.timestamp.reread } := by
  have hsession {v : Json} {r : SessionRecord} (h : SessionRecord.decode v = .ok r)
      (htime : r.timestamp.InSeconds) : SessionRecord.decode v = .ok r ∧
        r.timestamp.InSeconds ∧ SessionRecord.decode r.toJson = .ok r :=
    ⟨h, htime, ((rereadAsWritten v).session r h).2 htime⟩
  have hlive {v : Json} {e : LiveEvent} (h : LiveEvent.decode v = .ok e)
      (htime : ¬ e.timestamp.InSeconds) : LiveEvent.decode v = .ok e ∧ ¬ e.timestamp.InSeconds ∧
        LiveEvent.decode e.toJson = .ok { e with timestamp := e.timestamp.reread } :=
    ⟨h, htime, ((rereadAsWritten v).live e h).1⟩
  refine ⟨⟨{ role := "agent"
             calls := [{ name := "Read", input := some (.list [.null]) }, {}]
             metadata := some (.record [("subtype", .null)])
             timestamp := some ⟨0x41D954FC40000000⟩ }, hsession rfl (by decide)⟩,
    ⟨{ role := "user" }, hsession rfl (by decide)⟩,
    ⟨{ kind := .toolInvocation
       input := some (.list [.null])
       timestamp := some ⟨0x426D1A94A2000000⟩ }, hlive rfl (by decide)⟩⟩

end Chronicle
