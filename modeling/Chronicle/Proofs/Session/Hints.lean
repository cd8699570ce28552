import Chronicle.Proofs.Session.Pages

/-!
# Hints of outcomes

Reading a session carries the category of the latest invocation from record to record. What is carried
can be read off the events that were given out: it is the category of the last invocation among them.
Apart from it, a record gives its events whatever came before.

* `hintAfter`, `FollowsInvocations`: the category that an outcome should carry, and events of which
  every outcome does. Both are put together as the events are (`FollowsInvocations.append`).
* `SessionRecord.latestAfter_eq_hintAfter`, `SessionRecord.followsInvocations_events`: one record.
* `followsInvocations_eventsAfter`: a session.
* `BringsOwn`, `HintsFollow`, `hintsFollow`: what is carried, and what a record brings by itself.
-/

namespace Chronicle

/-! ## Following invocations -/

/-- The category of the last invocation among these events, or `latest` if there is none. -/
def hintAfter (latest : LatestCategory) (events : List Event) : LatestCategory :=
  (events.reverse.find? Event.isInvocation).elim latest Event.category

/-- Every outcome carries the category of the last invocation before it. -/
def FollowsInvocations (latest : LatestCategory) (events : List Event) : Prop :=
  ∀ before e after, events = before ++ e :: after → e.kind = .toolOutcome →
    e.category = hintAfter latest before

section
variable {latest : LatestCategory} {events more : List Event} {e : Event}

theorem hintAfter_append (latest : LatestCategory) (events more : List Event) :
    hintAfter latest (events ++ more) = hintAfter (hintAfter latest events) more := by
  rw [hintAfter, hintAfter, hintAfter, List.reverse_append, List.find?_append]
  cases more.reverse.find? Event.isInvocation <;> rfl

theorem hintAfter_of_other (h : ∀ e ∈ events, e.isInvocation = false) :
    hintAfter latest events = latest := by
  have hnone : events.reverse.find? Event.isInvocation = none := by
    rw [List.find?_eq_none]
    intro e he
    rw [h e (List.mem_reverse.mp he)]
    exact Bool.false_ne_true
  rw [hintAfter, hnone]
  rfl

theorem hintAfter_concat (h : e.isInvocation = true) :
    hintAfter latest (events ++ [e]) = e.category := by
  rw [hintAfter, List.reverse_concat, List.find?_cons_of_pos h]
  rfl

theorem FollowsInvocations.append (h : FollowsInvocations latest events)
    (hmore : FollowsInvocations (hintAfter latest events) more) :
    FollowsInvocations latest (events ++ more) := by
  intro before e after hsplit hkind
  rcases List.append_eq_append_iff.mp hsplit with ⟨front, rfl, hmid⟩ | ⟨front, rfl, hmid⟩
  · rw [hintAfter_append]
    exact hmore front e after hmid hkind
  · cases front with
    | nil =>
      rw [List.append_nil] at h hmore
      exact hmore [] e after hmid.symm hkind
    | cons e' front =>
      obtain ⟨rfl, -⟩ := List.cons.inj hmid
      exact h before e front rfl hkind

theorem followsInvocations_of_other (h : ∀ e ∈ events, e.isInvocation = false)
    (hcategory : ∀ e ∈ events, e.kind = .toolOutcome → e.category = latest) :
    FollowsInvocations latest events := by
  rintro before e after rfl hkind
  rw [hintAfter_of_other fun e' he' => h e' (List.mem_append_left _ he')]
  exact hcategory e (by simp) hkind

theorem followsInvocations_of_no_outcome (h : ∀ e ∈ events, e.kind ≠ .toolOutcome) :
    FollowsInvocations latest events := by
  rintro before e after rfl hkind
  exact absurd hkind (h e (by simp))

end

/-! ## One record -/

theorem Event.hinted_hinted (latest latest' : LatestCategory) (e : Event) :
    (e.hinted latest').hinted latest = e.hinted latest := by
  by_cases h : e.kind = .toolOutcome
  · have hkind : ({ e with category := latest' } : Event).kind = .toolOutcome := h
    rw [hinted, hinted, hinted, if_pos h, if_pos hkind, if_pos h]
  · rw [hinted_of_ne h]

def Role.kind : Role → Kind
  | .user => .user
  | .assistant => .assistant
  | .toolInvocation => .toolInvocation
  | .toolOutcome => .toolOutcome
  | .system => .system
  | .progress => .progress
  | .summary => .summary

namespace SessionRecord

variable {r : SessionRecord} {latest : LatestCategory} {role : Role} {e : Event}

/-- What a record brings by itself: its events, outcomes without a category. -/
def ownEvents (r : SessionRecord) : List Event := r.events none

theorem events_of_role (h : Role.parse r.role = some role) (latest : LatestCategory) :
    r.events latest = r.thinkingEvents ++ r.roleEvents latest role := by
  rw [events, h]

theorem mem_thinkingEvents : e ∈ r.thinkingEvents ↔ ∃ thought, r.thinking = some thought ∧
    (Markup.strip thought).isEmpty = false ∧
      e = { payload := .thinking, content := Markup.strip thought, timestamp := r.timestamp } := by
  rw [thinkingEvents]
  cases r.thinking with
  | none => simp
  | some thought =>
    rw [Option.map_some]
    cases (Markup.strip thought).isEmpty <;> simp

theorem mem_turnEvents {payload : Payload} : e ∈ r.turnEvents payload ↔
    (Markup.strip r.content).isEmpty = false ∧
      e = { payload, content := Markup.strip r.content, timestamp := r.timestamp,
            category := r.category } := by
  rw [turnEvents]
  cases (Markup.strip r.content).isEmpty <;> simp

theorem mem_outcomeEvents : e ∈ r.outcomeEvents latest ↔
    (Markup.strip r.content).isEmpty = false ∧
      e = { payload := .toolOutcome, content := Markup.strip r.content, timestamp := r.timestamp,
            category := latest, metadata := r.metadata } := by
  rw [outcomeEvents]
  cases (Markup.strip r.content).isEmpty <;> simp

theorem mem_invocationEvents : e ∈ r.invocationEvents ↔
    (r.calls = [] ∧ e = r.bareInvocation) ∨ ∃ call ∈ r.calls, e = call.event r.timestamp := by
  rw [invocationEvents]
  cases r.calls with
  | nil => simp
  | cons call calls => simp [eq_comm]

theorem of_mem_roleEvents (h : e ∈ r.roleEvents latest role) :
    e.kind = role.kind ∧ e.timestamp = r.timestamp ∧
      (role ≠ .user → role ≠ .assistant → (role = .toolInvocation → r.calls = []) →
        e.metadata = r.metadata) := by
  cases role with
  | user =>
    rw [roleEvents] at h
    obtain ⟨-, rfl⟩ := mem_turnEvents.mp h
    exact ⟨rfl, rfl, fun hrole => absurd rfl hrole⟩
  | assistant =>
    rw [roleEvents] at h
    obtain ⟨-, rfl⟩ := mem_turnEvents.mp h
    exact ⟨rfl, rfl, fun _ hrole => absurd rfl hrole⟩
  | toolInvocation =>
    rw [roleEvents] at h
    rcases mem_invocationEvents.mp h with ⟨-, rfl⟩ | ⟨call, hcall, rfl⟩
    · exact ⟨rfl, rfl, fun _ _ _ => rfl⟩
    · refine ⟨rfl, rfl, fun _ _ hcalls => ?_⟩
      rw [hcalls rfl] at hcall
      cases hcall
  | toolOutcome =>
    rw [roleEvents] at h
    obtain ⟨-, rfl⟩ := mem_outcomeEvents.mp h
    exact ⟨rfl, rfl, fun _ _ _ => rfl⟩
  | _ =>
    rw [roleEvents] at h
    rw [List.mem_singleton.mp h]
    exact ⟨rfl, rfl, fun _ _ _ => rfl⟩

theorem mem_events (h : e ∈ r.events latest) :
    e ∈ r.thinkingEvents ∨ ∃ role, Role.parse r.role = some role ∧ e ∈ r.roleEvents latest role := by
  unfold events at h
  split at h
  · cases h
  · rename_i role hrole
    exact (List.mem_append.mp h).imp id fun h => ⟨role, hrole, h⟩

theorem timestamp_of_mem_events (h : e ∈ r.events latest) : e.timestamp = r.timestamp := by
  rcases mem_events h with h | ⟨role, -, h⟩
  · obtain ⟨thought, -, -, rfl⟩ := mem_thinkingEvents.mp h
    rfl
  · exact (of_mem_roleEvents h).2.1

theorem category_of_toolOutcome (h : e ∈ r.events latest) (hkind : e.kind = .toolOutcome) :
    Role.parse r.role = some .toolOutcome ∧ e.category = latest := by
  rcases mem_events h with h | ⟨role, hrole, h⟩
  · rw [kind_of_mem_thinkingEvents h] at hkind
    cases hkind
  · have hrolekind := (of_mem_roleEvents h).1
    rw [hkind] at hrolekind
    cases role with
    | toolOutcome =>
      rw [roleEvents] at h
      obtain ⟨-, rfl⟩ := mem_outcomeEvents.mp h
      exact ⟨hrole, rfl⟩
    | _ => cases hrolekind

theorem isSome_category_of_toolInvocation (h : e ∈ r.events latest)
    (hkind : e.kind = .toolInvocation) :
    Role.parse r.role = some .toolInvocation ∧ e.category.isSome := by
  rcases mem_events h with h | ⟨role, hrole, h⟩
  · rw [kind_of_mem_thinkingEvents h] at hkind
    cases hkind
  · have hrolekind := (of_mem_roleEvents h).1
    rw [hkind] at hrolekind
    cases role with
    | toolInvocation =>
      rw [roleEvents] at h
      refine ⟨hrole, ?_⟩
      rcases mem_invocationEvents.mp h with ⟨-, rfl⟩ | ⟨call, -, rfl⟩ <;> rfl
    | _ => cases hrolekind

theorem isInvocation_of_mem_events (hrole : Role.parse r.role ≠ some .toolInvocation)
    (h : e ∈ r.events latest) : e.isInvocation = false := by
  by_contra hinvocation
  rw [Bool.not_eq_false] at hinvocation
  exact hrole (isSome_category_of_toolInvocation h (beq_iff_eq.mp hinvocation)).1

theorem hintAfter_invocationEvents (hrole : Role.parse r.role = some .toolInvocation)
    (latest latest' : LatestCategory) :
    hintAfter latest' r.invocationEvents = r.latestAfter latest := by
  rw [invocationEvents, latestAfter, hrole]
  rcases List.eq_nil_or_concat r.calls with hcalls | ⟨front, call, hcalls⟩
  · rw [hcalls]
    rfl
  · have hcall : (call.event r.timestamp).isInvocation = true := rfl
    rw [List.concat_eq_append] at hcalls
    rw [hcalls, if_neg (by simp), List.map_append, List.map_singleton, hintAfter_concat hcall,
      List.getLast?_concat]
    rfl

/-- **What is carried on is what the events of the record tell.** -/
theorem latestAfter_eq_hintAfter (latest : LatestCategory) (r : SessionRecord) :
    r.latestAfter latest = hintAfter latest (r.events latest) := by
  by_cases hrole : Role.parse r.role = some .toolInvocation
  · rw [events_of_role hrole, hintAfter_append, roleEvents, r.hintAfter_invocationEvents hrole]
  · rw [(r.events_of_other hrole latest).2.1,
      hintAfter_of_other fun e he => isInvocation_of_mem_events hrole he]

theorem followsInvocations_events (latest : LatestCategory) (r : SessionRecord) :
    FollowsInvocations latest (r.events latest) := by
  by_cases hrole : Role.parse r.role = some .toolInvocation
  · exact followsInvocations_of_no_outcome (r.events_of_invocation hrole latest latest).2.2.1
  · exact followsInvocations_of_other (fun e he => isInvocation_of_mem_events hrole he)
      fun e he hkind => (category_of_toolOutcome he hkind).2

theorem map_hinted_events (latest : LatestCategory) (r : SessionRecord) :
    (r.events latest).map (Event.hinted none) = r.ownEvents := by
  rw [ownEvents]
  by_cases hrole : Role.parse r.role = some .toolInvocation
  · obtain ⟨hevents, -, hplain, -⟩ := r.events_of_invocation hrole none latest
    rw [← hevents]
    conv => rhs; rw [← List.map_id (r.events none)]
    exact List.map_congr_left fun e he => Event.hinted_of_ne (hplain e he)
  · have hcomp : Event.hinted none ∘ Event.hinted latest = Event.hinted none :=
      funext fun e => e.hinted_hinted none latest
    rw [(r.events_of_other hrole latest).1, List.map_map, hcomp]
    exact (r.events_of_other hrole none).1.symm

end SessionRecord

/-! ## Sessions -/

/-- **Along a session every outcome follows.** -/
theorem followsInvocations_eventsAfter (latest : LatestCategory) (records : List SessionRecord) :
    FollowsInvocations latest (eventsAfter latest records).flatten := by
  -- what is carried to the next record is what the events so far tell
  induction records generalizing latest with
  | nil => exact followsInvocations_of_no_outcome fun e he => absurd he List.not_mem_nil
  | cons r records ih =>
    rw [eventsAfter, List.flatten_cons]
    refine (r.followsInvocations_events latest).append ?_
    rw [← r.latestAfter_eq_hintAfter]
    exact ih _

theorem map_hinted_eventsAfter (latest : LatestCategory) (records : List SessionRecord) :
    (eventsAfter latest records).flatten.map (Event.hinted none) =
      records.flatMap SessionRecord.ownEvents := by
  induction records generalizing latest with
  | nil => rfl
  | cons r records ih =>
    rw [eventsAfter, List.flatten_cons, List.map_append, r.map_hinted_events, ih, List.flatMap_cons]

theorem exists_record_of_mem_eventsAfter {latest : LatestCategory} {records : List SessionRecord}
    {e : Event} (h : e ∈ (eventsAfter latest records).flatten) :
    ∃ r ∈ records, ∃ latest', e ∈ r.events latest' := by
  induction records generalizing latest with
  | nil => cases h
  | cons r records ih =>
    rw [eventsAfter, List.flatten_cons, List.mem_append] at h
    rcases h with h | h
    · exact ⟨r, List.mem_cons_self, latest, h⟩
    · obtain ⟨r', hr', hevents⟩ := ih h
      exact ⟨r', List.mem_cons_of_mem r hr', hevents⟩

/-- Whatever came before it, a record brings its thinking and then what its role brings, at its time;
records of unknown role bring nothing. -/
structure BringsOwn (r : SessionRecord) : Prop where
  unknown : Role.parse r.role = none → r.ownEvents = []
  /-- Thinking comes first if something of it is left without control markup. -/
  thinking {role : Role} {thought : String} : Role.parse r.role = some role →
    r.thinking = some thought → Text.allBlank (Markup.strip thought) = false →
      r.ownEvents =
        { payload := .thinking, content := Markup.strip thought, timestamp := r.timestamp } ::
          r.roleEvents none role
  /-- Otherwise the role alone brings events. -/
  silent {role : Role} : Role.parse r.role = some role →
    (∀ thought ∈ r.thinking, Text.allBlank (Markup.strip thought) = true) →
      r.ownEvents = r.roleEvents none role
  kind {role : Role} {e : Event} : e ∈ r.roleEvents none role → e.kind = role.kind
  time {e : Event} : e ∈ r.ownEvents → e.timestamp = r.timestamp
  /-- Notes, progress, summaries, outcomes and invocations without calls carry the metadata. -/
  metadata {e : Event} : e ∈ r.ownEvents →
    e.kind ∈ [.system, .progress, .summary, .toolOutcome] ∨ (e.kind = .toolInvocation ∧ r.calls = []) →
      e.metadata = r.metadata

/-- The outcomes of a session follow its invocations, and nothing else passes from record to record. -/
structure HintsFollow (records : List SessionRecord) : Prop where
  /-- Every invocation says of which category it is. -/
  invocation {e : Event} : e ∈ sessionEvents records → e.kind = .toolInvocation → e.category.isSome
  /-- An outcome carries the category of the nearest invocation before it, or none. -/
  outcome {before after : List Event} {e : Event} : sessionEvents records = before ++ e :: after →
    e.kind = .toolOutcome →
      e.category = (before.reverse.find? Event.isInvocation).bind Event.category
  /-- Apart from that, the events are what each record brings by itself. -/
  own : (sessionEvents records).map (Event.hinted none) = records.flatMap SessionRecord.ownEvents
  brings {r : SessionRecord} : r ∈ records → BringsOwn r

theorem bringsOwn (r : SessionRecord) : BringsOwn r where
  unknown h := by rw [SessionRecord.ownEvents, SessionRecord.events, h]
  thinking hrole hthinking hblank := by
    rw [Markup.allBlank_strip] at hblank
    rw [SessionRecord.ownEvents, SessionRecord.events_of_role hrole, SessionRecord.thinkingEvents,
      hthinking, Option.map_some]
    simp only [hblank]
    rfl
  silent hrole hblank := by
    have hnone : r.thinkingEvents = [] := by
      rw [List.eq_nil_iff_forall_not_mem]
      intro e he
      obtain ⟨thought, hthought, hleft, -⟩ := SessionRecord.mem_thinkingEvents.mp he
      have hall := hblank thought hthought
      rw [Markup.allBlank_strip, hleft] at hall
      cases hall
    rw [SessionRecord.ownEvents, SessionRecord.events_of_role hrole, hnone, List.nil_append]
  kind h := (SessionRecord.of_mem_roleEvents h).1
  time h := SessionRecord.timestamp_of_mem_events h
  metadata h hkind := by
    rcases SessionRecord.mem_events h with h | ⟨role, -, h⟩
    · rw [SessionRecord.kind_of_mem_thinkingEvents h] at hkind
      simp at hkind
    · obtain ⟨hrole, -, hmetadata⟩ := SessionRecord.of_mem_roleEvents h
      rw [hrole] at hkind
      refine hmetadata ?_ ?_ fun htool => ?_
      · rintro rfl
        simp [Role.kind] at hkind
      · rintro rfl
        simp [Role.kind] at hkind
      · rw [htool] at hkind
        simpa [Role.kind] using hkind

/-- **The hint of an outcome is the category of the latest invocation.** -/
theorem hintsFollow (records : List SessionRecord) : HintsFollow records where
  invocation h hkind := by
    obtain ⟨r, -, latest, he⟩ := exists_record_of_mem_eventsAfter h
    exact (SessionRecord.isSome_category_of_toolInvocation he hkind).2
  outcome {before after e} hsplit hkind := by
    rw [followsInvocations_eventsAfter none records before e after hsplit hkind, hintAfter]
    cases before.reverse.find? Event.isInvocation <;> rfl
  own := map_hinted_eventsAfter none records
  brings _ := bringsOwn _

end Chronicle
