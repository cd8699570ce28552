import Chronicle.Proofs.Timeline.Shown
import Chronicle.Session.Events

/-!
# From calls of a session to actions of its timeline

Every call of a tool that a session records becomes one action, with what the call says of itself.

* `CallDetails`, `SessionRecord.callDetails`: what a record says of the calls that it holds.
* `filterMap_details?_sessionEvents`: the invocations of a session are the calls of its records.
* `detailsAt_itemsAfter`: the action of an invocation keeps these details for good.
* `CallsKept`, `callsKept`: the calls of the records are the actions of the invocations.
-/

namespace Chronicle

open TimelineItem (action?)

structure CallDetails where
  timestamp : Timestamp
  tool : String
  input : Option Json
  category : Category
deriving DecidableEq

def ToolCall.details (timestamp : Timestamp) (c : ToolCall) : CallDetails where
  timestamp := timestamp
  tool := if Text.allBlank c.name then "tool" else c.name
  input := c.input
  category := c.category.getD .builtin

/-- The details of a record that stands for a call itself. -/
def SessionRecord.bareDetails (r : SessionRecord) : CallDetails where
  timestamp := r.timestamp
  tool := "tool"
  input := if r.content = "" then none else some (.text r.content)
  category := r.category.getD .builtin

/-- The details of the calls that a record holds. Only an invocation holds any. -/
def SessionRecord.callDetails (r : SessionRecord) : List CallDetails :=
  match Role.parse r.role with
  | some .toolInvocation =>
    if r.calls = [] then [r.bareDetails] else r.calls.map (ToolCall.details r.timestamp)
  | _ => []

def Action.details (a : Action) : CallDetails := ⟨a.timestamp, a.tool, a.input, a.category⟩

def detailsAt (items : List TimelineItem) (place : Nat) : Option CallDetails :=
  (items[place]?.bind action?).map Action.details

def Event.details? (e : Event) : Option CallDetails :=
  match e.payload with
  | .toolInvocation tool input => some ⟨e.timestamp, tool, input, e.category.getD (.ofTool tool)⟩
  | _ => none

/-- The positions of the invocations among the first `n` events. -/
def invocationsBefore (events : List Event) (n : Nat) : List Nat :=
  (List.range n).filter fun i => (events.map Event.kind)[i]? == some .toolInvocation

/-! ## Events of records -/

theorem SessionRecord.filterMap_details?_thinkingEvents (r : SessionRecord) :
    r.thinkingEvents.filterMap Event.details? = [] := by
  unfold thinkingEvents
  split
  · rfl
  · split <;> rfl

theorem SessionRecord.filterMap_details?_invocationEvents (r : SessionRecord) :
    r.invocationEvents.filterMap Event.details? =
      if r.calls = [] then [r.bareDetails] else r.calls.map (ToolCall.details r.timestamp) := by
  unfold invocationEvents
  by_cases hcalls : r.calls = []
  · rw [if_pos hcalls, if_pos (List.isEmpty_iff.mpr hcalls)]
    simp [Event.details?, bareInvocation, bareDetails, effectiveCategory]
  · rw [if_neg hcalls, if_neg (mt List.isEmpty_iff.mp hcalls), List.filterMap_map]
    exact congrFun List.filterMap_eq_map r.calls

theorem SessionRecord.filterMap_details?_events (latest : LatestCategory) (r : SessionRecord) :
    (r.events latest).filterMap Event.details? = r.callDetails := by
  rw [events, callDetails]
  cases hrole : Role.parse r.role with
  | none => rfl
  | some role =>
    simp only [List.filterMap_append, filterMap_details?_thinkingEvents, List.nil_append]
    cases role with
    | toolInvocation => exact r.filterMap_details?_invocationEvents
    | user =>
      rw [roleEvents, turnEvents]
      split <;> rfl
    | assistant =>
      rw [roleEvents, turnEvents]
      split <;> rfl
    | toolOutcome =>
      rw [roleEvents, outcomeEvents]
      split <;> rfl
    | _ => rfl

/-- **The invocations of a session are the calls of its records.** -/
theorem filterMap_details?_sessionEvents (records : List SessionRecord) :
    (sessionEvents records).filterMap Event.details? =
      records.flatMap SessionRecord.callDetails := by
  -- the category that is carried from record to record changes outcomes only
  have hafter (latest : LatestCategory) :
      (eventsAfter latest records).flatten.filterMap Event.details? =
        records.flatMap SessionRecord.callDetails := by
    induction records generalizing latest with
    | nil => rfl
    | cons r records ih =>
      rw [eventsAfter, List.flatten_cons, List.filterMap_append, ih, List.flatMap_cons,
        r.filterMap_details?_events]
  exact hafter none

/-! ## Actions of invocations -/

section invocation
variable {limits : Limits} {events : List Event} {e : Event} {i n : Nat}

theorem Event.isSome_details? (e : Event) : e.details?.isSome = (e.kind == .toolInvocation) := by
  unfold details? kind
  cases e.payload <;> rfl

theorem itemsAfter_succ_of_details? (limits : Limits) (he : events[n]? = some e)
    {details : CallDetails} (hd : e.details? = some details) :
    ∃ a, itemsAfter limits events (n + 1) = itemsAfter limits events n ++ [.action a] ∧
      a.details = details := by
  rw [itemsAfter_succ he]
  unfold Event.details? at hd
  unfold Event.request
  cases hp : e.payload with
  | toolInvocation tool input =>
    rw [hp] at hd
    cases hd
    exact ⟨_, rfl, rfl⟩
  | _ =>
    rw [hp] at hd
    cases hd

theorem IsResolution.details_eq {a r : Action} (h : IsResolution a r) : r.details = a.details := by
  rw [h.rest]
  rfl

/-- **The action of an invocation keeps its details**, whether it has been resolved or not. -/
theorem detailsAt_itemsAfter (limits : Limits) (he : events[i]? = some e) {details : CallDetails}
    (hd : e.details? = some details) (hin : i < n) :
    detailsAt (itemsAfter limits events n) (placeOf limits events i) = some details := by
  obtain ⟨a, ha, hdetails⟩ := itemsAfter_succ_of_details? limits he hd
  have hitem : (itemsAfter limits events (i + 1))[placeOf limits events i]? = some (.action a) := by
    rw [ha, placeOf, List.getElem?_concat_length]
  -- later the place holds the same item still, or the one that an outcome has resolved
  rcases getElem?_itemsAfter_of_le (Nat.succ_le_of_lt hin) hitem with hsame | ⟨a', r, heq, hr, hlater⟩
  · rw [detailsAt, hsame, ← hdetails]
    rfl
  · cases heq
    rw [detailsAt, hlater, ← hdetails, ← hr.details_eq]
    rfl

theorem invocationsBefore_succ (events : List Event) (n : Nat) :
    invocationsBefore events (n + 1) = invocationsBefore events n ++
      if (events.map Event.kind)[n]? = some .toolInvocation then [n] else [] := by
  rw [invocationsBefore, List.range_succ, List.filter_append, List.filter_singleton,
    ← invocationsBefore]
  simp

theorem map_details?_invocationsBefore (events : List Event) (n : Nat) :
    (invocationsBefore events n).map (fun i => events[i]?.bind Event.details?) =
      ((events.take n).filterMap Event.details?).map some := by
  induction n with
  | zero => rfl
  | succ n ih =>
    rw [invocationsBefore_succ, List.map_append, ih, List.take_add_one, List.filterMap_append,
      List.map_append, List.getElem?_map]
    congr 1
    cases he : events[n]? with
    | none => rfl
    | some e =>
      have hsome := e.isSome_details?
      cases hd : e.details? with
      | none =>
        have hkind : e.kind ≠ .toolInvocation := by simpa [hd] using hsome
        simp [hkind, hd]
      | some details =>
        have hkind : e.kind = .toolInvocation := by simpa [hd] using hsome
        simp [hkind, hd, he]

theorem mem_invocationsBefore {events : List Event} (h : i ∈ invocationsBefore events n) :
    i < n ∧ ∃ e, events[i]? = some e ∧ e.kind = .toolInvocation := by
  obtain ⟨hin, hkind⟩ := List.mem_filter.mp h
  exact ⟨List.mem_range.mp hin, exists_getElem? (beq_iff_eq.mp hkind)⟩

theorem map_detailsAt_invocationsBefore (limits : Limits) (events : List Event) (n : Nat) :
    (invocationsBefore events n).map
        (fun i => detailsAt (itemsAfter limits events n) (placeOf limits events i)) =
      ((events.take n).filterMap Event.details?).map some := by
  rw [← map_details?_invocationsBefore]
  refine List.map_congr_left fun i hi => ?_
  obtain ⟨hin, e, he, hkind⟩ := mem_invocationsBefore hi
  obtain ⟨details, hd⟩ := Option.isSome_iff_exists.mp (e.isSome_details?.trans (beq_iff_eq.mpr hkind))
  rw [detailsAt_itemsAfter limits he hd hin, he, Option.bind_some, hd]

theorem pairwise_placeOf (limits : Limits) (events : List Event) (n : Nat) :
    ((invocationsBefore events n).map (placeOf limits events)).Pairwise (· < ·) := by
  have hpositions : (invocationsBefore events n).Pairwise (· < ·) :=
    List.Pairwise.filter _ List.pairwise_lt_range
  rw [List.pairwise_map]
  refine hpositions.imp_of_mem fun {i j} hi _ hij => ?_
  obtain ⟨-, e, he, hkind⟩ := mem_invocationsBefore hi
  exact placeOf_lt (hkind ▸ getElem?_map_kind he) hij

end invocation

/-! ## Sessions -/

/-- The calls of these records are the actions that invocations bring to the timeline. -/
structure CallsKept (limits : Limits) (records : List SessionRecord) : Prop where
  /-- An invocation brings one action. -/
  brings (i : Nat) : i ∈ invocationsBefore (sessionEvents records) (sessionEvents records).length →
    ∃ a, itemsAfter limits (sessionEvents records) (i + 1) =
      itemsAfter limits (sessionEvents records) i ++ [.action a]
  /-- The actions of the invocations stand in the order of the invocations. -/
  ascending : ((invocationsBefore (sessionEvents records) (sessionEvents records).length).map
    (placeOf limits (sessionEvents records))).Pairwise (· < ·)
  /-- In the timeline they are the calls of the records, one for each, in order. -/
  calls : (invocationsBefore (sessionEvents records) (sessionEvents records).length).map
      (fun i => detailsAt (timelineOf limits (sessionEvents records))
        (placeOf limits (sessionEvents records) i)) =
    (records.flatMap SessionRecord.callDetails).map some
  /-- At any time before, they are the first of these calls, whether resolved or not. -/
  shown (n : Nat) : (invocationsBefore (sessionEvents records) n).map
      (fun i => detailsAt (itemsAfter limits (sessionEvents records) n)
        (placeOf limits (sessionEvents records) i)) <+:
    (records.flatMap SessionRecord.callDetails).map some

/-- **No call of a session is lost, doubled or altered.** -/
theorem callsKept (limits : Limits) (records : List SessionRecord) : CallsKept limits records where
  brings i hi := by
    obtain ⟨-, e, he, hkind⟩ := mem_invocationsBefore hi
    obtain ⟨a, ha, -⟩ := itemsAfter_succ_of_invocation limits he hkind
    exact ⟨a, ha⟩
  ascending := pairwise_placeOf limits _ _
  calls := by
    rw [← itemsAfter_length, map_detailsAt_invocationsBefore, List.take_length,
      filterMap_details?_sessionEvents]
  shown n := by
    rw [map_detailsAt_invocationsBefore, ← filterMap_details?_sessionEvents]
    exact ((List.take_prefix n _).filterMap _).map _

end Chronicle
