import Chronicle.Hook.Record
import Chronicle.Proofs.Interleaving
import Chronicle.Proofs.Timeline.Replay

/-!
# Hooks spliced into a session

Hooks merged into a session leave the items of the session as they are.

* `renumber`: the items with the numbers of the actions counted anew.
* `Spliced`: items that are those of a session and those of hooks, renumbered.
* `Spliced.extend`, `Spliced.extend_hook`: an event of the session and a hook keep items spliced.
* `timelineOf_mergeStreams`: the timeline of a merged stream is spliced from two timelines.
-/

namespace Chronicle

open TimelineItem (isPending isAction)

/-- The items with the numbers `n`, `n + 1`, ... for the actions among them. -/
def renumberFrom (n : Nat) : List TimelineItem → List TimelineItem
  | [] => []
  | .turn t :: items => .turn t :: renumberFrom n items
  | .action a :: items => .action { a with id := n } :: renumberFrom (n + 1) items

def renumber (items : List TimelineItem) : List TimelineItem := renumberFrom 1 items

/-- Items that are those of a session and those of hooks, each in their own order, but for the
numbers of the actions. No hook waits for an outcome. -/
structure Spliced (session hooks all : List TimelineItem) : Prop where
  interleaves : ∃ items, Interleaves session hooks items ∧ all = renumber items
  complete : hooks.any isPending = false

def IsHookItem (e : Event) (id : Nat) (item : TimelineItem) : Prop :=
  ∃ a, item = .action a ∧ a.id = id ∧ a.category = .hook ∧ a.status = .success ∧
    a.timestamp = e.timestamp

/-! ## Numbers -/

theorem renumberFrom_append (n : Nat) (items more : List TimelineItem) :
    renumberFrom n (items ++ more) =
      renumberFrom n items ++ renumberFrom (n + actionCount items) more := by
  induction items generalizing n with
  | nil => rfl
  | cons item items ih =>
    cases item with
    | turn t =>
      rw [List.cons_append, renumberFrom, renumberFrom, ih, List.cons_append]
      rfl
    | action a =>
      have hn : n + 1 + actionCount items = n + actionCount (.action a :: items) := by
        show _ = n + (List.countP isAction (.action a :: items))
        rw [List.countP_cons_of_pos rfl, actionCount]
        omega
      rw [List.cons_append, renumberFrom, renumberFrom, ih, List.cons_append, hn]

theorem actionCount_renumberFrom (n : Nat) (items : List TimelineItem) :
    actionCount (renumberFrom n items) = actionCount items := by
  rw [actionCount, actionCount]
  induction items generalizing n with
  | nil => rfl
  | cons item items ih =>
    cases item with
    | turn t => rw [renumberFrom, List.countP_cons, List.countP_cons, ih]
    | action a =>
      rw [renumberFrom, List.countP_cons, List.countP_cons, ih]
      rfl

theorem any_isPending_renumberFrom (n : Nat) (items : List TimelineItem) :
    (renumberFrom n items).any isPending = items.any isPending := by
  induction items generalizing n with
  | nil => rfl
  | cons item items ih =>
    cases item with
    | turn t => rw [renumberFrom, List.any_cons, List.any_cons, ih]
    | action a =>
      rw [renumberFrom, List.any_cons, List.any_cons, ih]
      rfl

theorem settleLast_renumberFrom (content : String) (finished : Timestamp) (n : Nat)
    (items : List TimelineItem) :
    settleLast content finished (renumberFrom n items) =
      renumberFrom n (settleLast content finished items) := by
  induction items generalizing n with
  | nil => rfl
  | cons item items ih =>
    cases item with
    | turn t =>
      rw [renumberFrom, settleLast, settleLast, any_isPending_renumberFrom, ih]
      split <;> rfl
    | action a =>
      rw [renumberFrom, settleLast, settleLast, any_isPending_renumberFrom, ih]
      split
      · rfl
      · rw [TimelineItem.settle, TimelineItem.settle]
        split <;> rfl

theorem renumber_concat_action {numbered : Nat → Action} (h : IsNumbering numbered) (m : Nat)
    (items : List TimelineItem) :
    renumber (items ++ [.action (numbered m)]) =
      renumber items ++ [.action (numbered (actionCount (renumber items) + 1))] := by
  rw [renumber, renumber, renumberFrom_append, actionCount_renumberFrom, renumberFrom, h.eq_with m,
    h.eq_with (actionCount items + 1), Nat.add_comm]
  rfl

theorem renumber_concat_turn (items : List TimelineItem) (t : Turn) :
    renumber (items ++ [.turn t]) = renumber items ++ [.turn t] := by
  rw [renumber, renumber, renumberFrom_append]
  rfl

/-! ## One event -/

theorem Event.request_of_hook (limits : Limits) {e : Event} (h : e.kind = .hook) :
    ∃ numbered, e.request limits = .action numbered ∧ IsNumbering numbered ∧
      ∀ n, IsHookItem e n (.action (numbered n)) := by
  unfold kind at h
  unfold request
  cases hp : e.payload with
  | hook tool input =>
    exact ⟨_, rfl, isNumbering_mk .., fun n => ⟨_, rfl, rfl, rfl, rfl, rfl⟩⟩
  | _ => simp [hp] at h

/-- An outcome finds the item of the session that it would find without the hooks. -/
theorem Interleaves.settleLast {session hooks all : List TimelineItem}
    (h : Interleaves session hooks all) (hooksComplete : hooks.any isPending = false)
    (content : String) (finished : Timestamp) :
    Interleaves (Chronicle.settleLast content finished session) hooks
      (Chronicle.settleLast content finished all) := by
  induction h with
  | nil => exact .nil
  | @left item session hooks all h ih =>
    rw [Chronicle.settleLast, Chronicle.settleLast, h.any_eq, hooksComplete, Bool.or_false]
    split
    · exact .left (ih hooksComplete)
    · exact .left h
  | @right item session hooks all h ih =>
    rw [List.any_cons, Bool.or_eq_false_iff] at hooksComplete
    rw [Chronicle.settleLast, h.any_eq, hooksComplete.2, Bool.or_false]
    split
    · exact .right (ih hooksComplete.2)
    · rename_i hnone
      rw [TimelineItem.settle_of_not_isPending hooksComplete.1,
        settleLast_of_none (Bool.not_eq_true _ ▸ hnone)]
      exact .right h

namespace Spliced

variable {session hooks all : List TimelineItem}

theorem nil : Spliced [] [] [] := ⟨⟨[], .nil, rfl⟩, rfl⟩

theorem extend (h : Spliced session hooks all) {r : Request} (hr : r.Sound) :
    Spliced (r.extend session) hooks (r.extend all) := by
  obtain ⟨⟨items, hitems, rfl⟩, complete⟩ := h
  refine ⟨?_, complete⟩
  cases hr with
  | ignore => exact ⟨items, hitems, rfl⟩
  | turn t =>
    refine ⟨_, hitems.concat_left (.turn t), ?_⟩
    rw [Request.extend, renumber_concat_turn]
  | @action numbered numbering =>
    refine ⟨_, hitems.concat_left (.action (numbered (actionCount session + 1))), ?_⟩
    rw [Request.extend, renumber_concat_action numbering]
  | @invocation numbered numbering =>
    refine ⟨_, hitems.concat_left (.action (numbered (actionCount session + 1))), ?_⟩
    rw [Request.extend, renumber_concat_action numbering]
  | outcome content finished =>
    -- no hook waits, so the last item that waits is one of the session
    refine ⟨settleLast content finished items, hitems.settleLast complete content finished, ?_⟩
    rw [Request.extend, renumber, settleLast_renumberFrom, renumber]

theorem extend_hook (h : Spliced session hooks all) {numbered : Nat → Action}
    (numbering : IsNumbering numbered) (hcomplete : ∀ n, (numbered n).status ≠ .pending) :
    Spliced session ((Request.action numbered).extend hooks)
      ((Request.action numbered).extend all) := by
  obtain ⟨⟨items, hitems, rfl⟩, complete⟩ := h
  refine ⟨⟨_, hitems.concat_right (.action (numbered (actionCount hooks + 1))), ?_⟩, ?_⟩
  · rw [Request.extend, renumber_concat_action numbering]
  · rw [Request.extend, List.any_append, complete]
    simp [hcomplete]

theorem replay (h : Spliced session hooks all) (limits : Limits) {primary more merged : List Event}
    (hmerged : Interleaves primary more merged) (hhook : ∀ e ∈ more, e.kind = .hook) :
    Spliced (primary.foldl (replayStep limits) session) (more.foldl (replayStep limits) hooks)
      (merged.foldl (replayStep limits) all) := by
  induction hmerged generalizing session hooks all with
  | nil => exact h
  | @left e primary more merged _ ih => exact ih (h.extend (e.sound_request limits)) hhook
  | @right e primary more merged _ ih =>
    obtain ⟨numbered, hr, numbering, hitem⟩ :=
      Event.request_of_hook limits (hhook e List.mem_cons_self)
    refine ih ?_ fun e he => hhook e (List.mem_cons_of_mem _ he)
    rw [replayStep, replayStep, hr]
    refine h.extend_hook numbering fun n => ?_
    obtain ⟨a, ha, -, -, hstatus, -⟩ := hitem n
    cases ha
    rw [hstatus]
    nofun

end Spliced

/-! ## Whole runs -/

theorem exists_foldl_hooks (limits : Limits) (items : List TimelineItem) {hooks : List Event}
    (hhook : ∀ e ∈ hooks, e.kind = .hook) :
    ∃ more, hooks.foldl (replayStep limits) items = items ++ more ∧ more.length = hooks.length ∧
      ∀ i e, hooks[i]? = some e →
        ∃ item, more[i]? = some item ∧ IsHookItem e (actionCount items + i + 1) item := by
  induction hooks generalizing items with
  | nil =>
    refine ⟨[], (List.append_nil items).symm, rfl, fun i e he => ?_⟩
    simp at he
  | cons e hooks ih =>
    obtain ⟨numbered, hr, -, hitem⟩ := Event.request_of_hook limits (hhook e List.mem_cons_self)
    obtain ⟨more, hmore, hlength, hitems⟩ :=
      ih (replayStep limits items e) fun e he => hhook e (List.mem_cons_of_mem _ he)
    rw [replayStep, hr, Request.extend] at hmore hitems
    refine ⟨.action (numbered (actionCount items + 1)) :: more, ?_, ?_, fun i e' he' => ?_⟩
    · rw [List.foldl_cons, replayStep, hr, Request.extend, hmore, List.append_assoc]
      rfl
    · rw [List.length_cons, List.length_cons, hlength]
    · cases i with
      | zero =>
        obtain rfl := Option.some.inj he'
        exact ⟨_, rfl, hitem _⟩
      | succ i =>
        obtain ⟨item, hget, hitem⟩ := hitems i e' he'
        have hnumber : actionCount items + 1 + i + 1 = actionCount items + (i + 1) + 1 := by omega
        rw [actionCount_append, show actionCount [_] = 1 from rfl, hnumber] at hitem
        exact ⟨item, hget, hitem⟩

theorem hooks_map_toEvent (records : List HookRecord) :
    ∀ e ∈ records.map HookRecord.toEvent, e.kind = .hook := by
  intro e he
  obtain ⟨r, -, rfl⟩ := List.mem_map.mp he
  rfl

/-- **A timeline with hooks is the timeline of the session with one item for each hook in between.**
Only the numbers of the actions are counted anew. -/
theorem timelineOf_mergeStreams (limits : Limits) (primary : List Event)
    (records : List HookRecord) :
    ∃ items,
      Interleaves (timelineOf limits primary)
        (timelineOf limits (records.map HookRecord.toEvent)) items ∧
      timelineOf limits (mergeStreams primary (records.map HookRecord.toEvent)) = renumber items ∧
      (timelineOf limits (records.map HookRecord.toEvent)).length = records.length ∧
      ∀ i r, records[i]? = some r →
        ∃ item, (timelineOf limits (records.map HookRecord.toEvent))[i]? = some item ∧
          IsHookItem r.toEvent (i + 1) item := by
  have hspliced := Spliced.nil.replay limits
    (interleaves_mergeBy Event.orderKey primary (records.map HookRecord.toEvent))
    (hooks_map_toEvent records)
  obtain ⟨more, hmore, hlength, hitems⟩ := exists_foldl_hooks limits [] (hooks_map_toEvent records)
  rw [List.nil_append] at hmore
  obtain ⟨items, hitems', hall⟩ := hspliced.interleaves
  rw [timelineOf_eq_replay, timelineOf_eq_replay, timelineOf_eq_replay]
  refine ⟨items, hitems', hall, ?_, fun i r hr => ?_⟩
  · rw [replay, hmore, hlength, List.length_map]
  · have he : (records.map HookRecord.toEvent)[i]? = some r.toEvent := by
      rw [List.getElem?_map, hr, Option.map_some]
    obtain ⟨item, hget, hitem⟩ := hitems i _ he
    rw [show actionCount [] + i + 1 = i + 1 by rw [actionCount, List.countP_nil, Nat.zero_add]]
      at hitem
    rw [replay, hmore]
    exact ⟨item, hget, hitem⟩

end Chronicle
