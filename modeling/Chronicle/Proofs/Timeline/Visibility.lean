import Chronicle.Proofs.Event.Delivery
import Chronicle.Proofs.Session.Hints
import Chronicle.Proofs.Text.Visible
import Chronicle.Proofs.Timeline.Quoting

/-!
# Labels that show

Nearly every label has something to fall back on where the text that it tells is blank. Two have not:
the label of a hook is its content, and the label of a tool on a context server may be one part of its
name, whatever stands in it.

* `Event.Arises`: the events of sessions, of hook records and of the transport.
* `Event.WellNamed`: what the texts of such an event have in common.
* `Label.visible_ofTool_iff`, `Progress.visible_caption`, `SystemNote.visible_label`,
  `visible_summaryTitle`: the labels one by one.
* `Event.Unlabelled`, `Event.visible_label_iff`: the events whose label does not show.
* `LabelsShow`, `labelsShow`: every action of a timeline has a label that shows unless its event is one
  of these.
-/

namespace Chronicle

open Text (Visible BeginsVisibly allBlank headline clip isBlank visible_iff visible_ofList)

/-! ## Invocations -/

namespace Label

/-- All that is left of the tool's name on its server is one part of blanks. -/
def IsBlankPart (tool : String) : Prop :=
  ∃ part, serverParts tool = [part] ∧ part.all isBlank = true

theorem visible_ofServerTool_iff {tool : String} (h : Category.isServerTool tool = true) :
    Visible (ofServerTool tool) ↔ ¬ IsBlankPart tool := by
  have hname : Visible tool := by
    obtain ⟨rest, hrest⟩ := List.isPrefixOf_iff_prefix.mp h
    exact ⟨'m', by rw [← hrest]; exact List.mem_append_left _ (by decide), by decide⟩
  rw [ofServerTool, IsBlankPart]
  rcases hparts : (serverParts tool).reverse with _ | ⟨method, _ | ⟨server, more⟩⟩
  · have hnil : serverParts tool = [] := List.reverse_eq_nil_iff.mp hparts
    simpa [hnil] using hname
  · have hone : serverParts tool = [method] := by
      rw [← List.reverse_reverse (serverParts tool), hparts]
      rfl
    simp [hone, visible_ofList]
  · have hmore (part : List Char) : serverParts tool ≠ [part] := by
      intro hone
      rw [hone] at hparts
      cases hparts
    refine iff_of_true ?_ fun ⟨part, hone, _⟩ => hmore part hone
    exact visible_ofList.mpr ⟨'/', by simp, by decide⟩

theorem visible_ofInput? {limits : Limits} (hshell : 1 ≤ limits.shell) {tool : String}
    (htool : Visible tool) {data : Json} {subject : Subject} {label : String}
    (h : ofInput? limits tool data subject = some label) : Visible label := by
  have hlead (lead text : String) (hshows : Visible lead) : Visible (lead ++ text) :=
    hshows.append_left text
  cases subject with
  | command =>
    obtain ⟨command, hcommand, rfl⟩ := Option.map_eq_some_iff.mp h
    have hshows := (Text.beginsVisibly_of_text? hcommand).visible
    exact (Text.beginsVisibly_headline hshows).visible_clip hshell
  | skill =>
    cases h
    exact hlead _ _ (by decide)
  | file =>
    obtain ⟨path, -, rfl⟩ := Option.map_eq_some_iff.mp h
    exact hlead _ _ (hlead _ _ htool)
  | search =>
    obtain ⟨pattern, -, rfl⟩ := Option.map_eq_some_iff.mp h
    exact hlead _ _ (hlead _ _ htool)
  | _ =>
    obtain ⟨text, -, rfl⟩ := Option.map_eq_some_iff.mp h
    exact hlead _ _ (by decide)

theorem visible_ofTool_iff {limits : Limits} (hshell : 1 ≤ limits.shell) {tool : String}
    (htool : Visible tool) (input : Option Json) :
    Visible (ofTool limits tool input) ↔
      ¬ (Category.isServerTool tool = true ∧ IsBlankPart tool) := by
  rw [ofTool]
  split
  · rename_i hserver
    rw [visible_ofServerTool_iff hserver]
    simp [hserver]
  · rename_i hserver
    refine iff_of_true ?_ fun h => hserver h.1
    cases hlabel : (subject? tool).bind fun subject =>
        (input.bind inputRecord?).bind fun data => ofInput? limits tool data subject with
    | none => exact htool
    | some label =>
      obtain ⟨subject, -, hlabel⟩ := Option.bind_eq_some_iff.mp hlabel
      obtain ⟨data, -, hlabel⟩ := Option.bind_eq_some_iff.mp hlabel
      exact visible_ofInput? hshell htool hlabel

end Label

/-! ## Other events -/

section
variable {limits : Limits} {content : String}

theorem visible_headlineOr (hlabel : 1 ≤ limits.label) (content : String) {fallback : String}
    (h : Visible fallback) : Visible (headlineOr limits content fallback) := by
  rw [headlineOr, Text.isEmpty_headline]
  split
  · exact h
  · rename_i hblank
    have hshows := visible_iff.mpr (Bool.eq_false_iff.mpr hblank)
    exact (Text.beginsVisibly_headline hshows).visible_clip hlabel

def Progress.texts : Progress → List String
  | .agent id prompt => id.toList ++ prompt.toList
  | .shell command => command.toList
  | .server host tool => host.toList ++ tool.toList
  | .hookOutput hook text => hook.toList ++ text.toList
  | .hookCall event tool => event.toList ++ tool.toList
  | .waiting description => description.toList
  | .unknown name => [name]

theorem Progress.visible_caption (hlabel : 1 ≤ limits.label) (content : String)
    {progress : Progress} (h : ∀ text ∈ progress.texts, BeginsVisibly text) :
    Visible (progress.caption limits content).label := by
  have hfallback {fallback : String} (hshows : Visible fallback) :=
    visible_headlineOr hlabel content hshows
  cases progress with
  | agent id prompt =>
    have hprompt : Visible "Agent: " := by decide
    have hid : Visible "Agent " := by decide
    have hbare : Visible (headlineOr limits content "Agent progress") := hfallback (by decide)
    rcases prompt with _ | prompt
    · rcases id with _ | id
      · simpa only [caption] using hbare
      · simpa only [caption] using hid.append_left id
    · simpa only [caption] using hprompt.append_left _
  | shell command =>
    have hlead : Visible "$ " := by decide
    have hbare : Visible (headlineOr limits content "Bash progress") := hfallback (by decide)
    rcases command with _ | command
    · simpa only [caption] using hbare
    · simpa only [caption] using hlead.append_left _
  | server host tool =>
    have hbare : Visible (headlineOr limits content "MCP progress") := hfallback (by decide)
    rcases host with _ | host
    · rcases tool with _ | tool
      · simpa only [caption] using hbare
      · simpa only [caption] using (h tool (by simp [texts])).visible
    · have hhost : Visible host := (h host (by simp [texts])).visible
      rcases tool with _ | tool
      · simpa only [caption] using hhost
      · simpa only [caption] using (hhost.append_left "/").append_left tool
  | hookOutput hook text =>
    have hbare : Visible (headlineOr limits content "Hook progress") := hfallback (by decide)
    rcases text with _ | text
    · simpa only [caption] using hbare
    · have htext : Visible text := (h text (by simp [texts])).visible
      simpa only [caption] using (Text.beginsVisibly_headline htext).visible_clip hlabel
  | hookCall event tool =>
    have hlead : Visible "Hook: " := by decide
    have hbare : Visible (headlineOr limits content "Hook event") := hfallback (by decide)
    rcases event with _ | event
    · simpa only [caption] using hbare
    · simpa only [caption] using hlead.append_left event
  | waiting description =>
    have hlead : Visible "Waiting: " := by decide
    have hbare : Visible (headlineOr limits content "Waiting in queue") := hfallback (by decide)
    rcases description with _ | description
    · simpa only [caption] using hbare
    · simpa only [caption] using hlead.append_left _
  | unknown name => exact (h name (by simp [texts])).visible

def SystemNote.texts : SystemNote → List String
  | .apiError message => message.toList
  | .queueOperation operation => operation.toList
  | .other name => [name]
  | _ => []

theorem SystemNote.visible_tool {note : SystemNote} (h : ∀ text ∈ note.texts, BeginsVisibly text) :
    Visible note.tool := by
  cases note with
  | other name => exact (h name (by simp [texts])).visible
  | _ =>
    rw [tool, name?]
    decide

theorem SystemNote.visible_label (hlabel : 1 ≤ limits.label) (content : String) {note : SystemNote}
    (h : ∀ text ∈ note.texts, BeginsVisibly text) : Visible (note.label limits content) := by
  have htool := visible_tool h
  rw [label]
  split
  · cases note with
    | turnDuration millis =>
      have hlead : Visible "Turn took " := by decide
      rcases millis with _ | millis
      · exact htool
      · simpa only [bareLabel] using (hlead.append_left _).append_left _
    | apiError message =>
      rcases message with _ | message
      · exact htool
      · exact (h message (by simp [texts])).visible_clip hlabel
    | queueOperation operation =>
      have hlead : Visible "Queue: " := by decide
      rcases operation with _ | operation
      · exact htool
      · simpa only [bareLabel] using hlead.append_left operation
    | compactBoundary =>
      rw [bareLabel]
      decide
    | fileSnapshot =>
      rw [bareLabel]
      decide
    | _ => exact htool
  · exact visible_headlineOr hlabel content htool

theorem visible_summaryTitle (limits : Limits) (content : String) :
    Visible (summaryTitle limits content) := by
  rw [summaryTitle]
  split
  · decide
  · rename_i hempty
    split
    · have hblank : ¬ (Text.trim content.toList).all isBlank = true := by
        rwa [Text.all_isBlank_trim]
      rw [visible_ofList]
      simpa using hblank
    · have hlead : Visible "Session summary (" := by decide
      exact (hlead.append_left _).append_left _

end

/-! ## Events -/

/-- An event that a session, a hook record or the transport tells. -/
inductive Event.Arises : Event → Prop
  | session {e : Event} (records : List SessionRecord) (mem : e ∈ sessionEvents records) : Arises e
  | hook (r : HookRecord) : Arises r.toEvent
  | live (l : LiveEvent) : Arises l.toEvent

/-- The texts that an event names show. -/
def Event.WellNamed (e : Event) : Prop :=
  match e.payload with
  | .toolInvocation tool _ => Visible tool
  | .system note => ∀ text ∈ note.texts, BeginsVisibly text
  | .progress progress => ∀ text ∈ progress.texts, BeginsVisibly text
  | _ => True

/-- An event whose label has nothing to show: a hook without content, or an invocation of a tool on a
context server of which only blanks are told. -/
def Event.Unlabelled (e : Event) : Prop :=
  match e.payload with
  | .toolInvocation tool _ => Category.isServerTool tool = true ∧ Label.IsBlankPart tool
  | .hook _ _ => allBlank e.content = true
  | _ => False

/-! ## What arises is well named -/

theorem Progress.beginsVisibly_of_mem_texts (metadata : Option Json) :
    ∀ text ∈ (Progress.of metadata).texts, BeginsVisibly text := by
  have hbare : BeginsVisibly "progress" := ⟨'p', _, rfl, by decide⟩
  intro text hmem
  cases metadata with
  | none => rwa [List.mem_singleton.mp hmem]
  | some data =>
    rw [Progress.of] at hmem
    split at hmem
    · rwa [List.mem_singleton.mp hmem]
    · rename_i subject hsubject
      unfold ofSubject at hmem
      dsimp only at hmem
      split at hmem
      -- two texts, one text, or the subject itself
      case h_1 | h_3 | h_4 | h_5 =>
        rcases List.mem_append.mp hmem with hmem | hmem
        · exact Text.beginsVisibly_of_mem_text? hmem
        · exact Text.beginsVisibly_of_mem_text? hmem
      case h_2 | h_6 | h_7 => exact Text.beginsVisibly_of_mem_text? hmem
      case h_8 =>
        rw [List.mem_singleton.mp hmem]
        exact Text.beginsVisibly_of_text? hsubject

theorem SystemNote.beginsVisibly_of_mem_texts (metadata : Option Json) :
    ∀ text ∈ (SystemNote.of metadata).texts, BeginsVisibly text := by
  intro text hmem
  cases metadata with
  | none => cases hmem
  | some data =>
    rw [SystemNote.of] at hmem
    split at hmem
    · cases hmem
    · rename_i subject hsubject
      unfold ofSubject at hmem
      split at hmem
      case h_3 | h_8 | h_9 => exact Text.beginsVisibly_of_mem_text? hmem
      case h_11 =>
        rw [List.mem_singleton.mp hmem]
        exact Text.beginsVisibly_of_text? hsubject
      all_goals cases hmem

theorem Event.Deliverable.wellNamed {e : Event} (h : e.Deliverable) : e.WellNamed := by
  unfold Deliverable at h
  unfold WellNamed
  cases hp : e.payload with
  | toolInvocation tool input =>
    simp only [hp] at h
    exact visible_iff.mpr h
  | system note =>
    simp only [hp] at h
    rw [h]
    exact SystemNote.beginsVisibly_of_mem_texts e.metadata
  | progress progress =>
    simp only [hp] at h
    rw [h]
    exact Progress.beginsVisibly_of_mem_texts e.metadata
  | _ => trivial

/-- **Whatever tells an event, the texts that it names show.** -/
theorem Event.Arises.wellNamed {e : Event} (h : e.Arises) : e.WellNamed := by
  cases h with
  | session records mem => exact (deliverable_of_mem_eventsAfter mem).wellNamed
  | hook r => trivial
  | live l => exact l.deliverable_toEvent.wellNamed

/-! ## Labels of events -/

theorem Event.visible_label_iff {limits : Limits} (hlabel : 1 ≤ limits.label)
    (hshell : 1 ≤ limits.shell) {e : Event} (hnamed : e.WellNamed) {item : TimelineItem}
    (h : e.ownItem? limits = some item) :
    (∀ label ∈ item.label?, Visible label) ↔ ¬ e.Unlabelled := by
  unfold ownItem? request at h
  unfold WellNamed at hnamed
  unfold Unlabelled
  cases hp : e.payload with
  | user =>
    simp only [hp, ownItem?_turnOf] at h
    obtain ⟨t, -, rfl⟩ := Option.map_eq_some_iff.mp h
    simp
  | assistant =>
    simp only [hp, ownItem?_turnOf] at h
    obtain ⟨t, -, rfl⟩ := Option.map_eq_some_iff.mp h
    simp
  | thinking =>
    simp only [hp] at h
    cases h
    simpa using visible_headlineOr hlabel e.content (by decide)
  | toolInvocation tool input =>
    simp only [hp] at h hnamed
    cases h
    simpa using Label.visible_ofTool_iff hshell hnamed input
  | toolOutcome =>
    simp only [hp] at h
    cases h
  | progress progress =>
    simp only [hp] at h hnamed
    cases h
    simpa using progress.visible_caption hlabel e.content hnamed
  | system note =>
    simp only [hp] at h hnamed
    cases h
    simpa using note.visible_label hlabel e.content hnamed
  | summary =>
    simp only [hp] at h
    cases h
    simpa using visible_summaryTitle limits e.content
  | hook tool input =>
    simp only [hp] at h
    cases h
    simpa [visible_iff] using Text.visible_clip_trimmed_iff e.content hlabel
  | error =>
    simp only [hp] at h
    cases h
    simpa using visible_headlineOr hlabel e.content (by decide)

theorem HookRecord.not_unlabelled_toEvent (r : HookRecord) : ¬ r.toEvent.Unlabelled := by
  intro h
  have hlead : Visible "Hook: " := by decide
  have hshows : Visible r.toEvent.content :=
    ((hlead.append_left r.event).append_left " — ").append_left r.label
  rw [visible_iff, show allBlank r.toEvent.content = true from h] at hshows
  cases hshows

theorem isInvocation_of_unlabelled {records : List SessionRecord} {e : Event}
    (h : e ∈ sessionEvents records) (hlabel : e.Unlabelled) : e.isInvocation = true := by
  have hhook : e.kind ≠ .hook := by
    obtain ⟨r, -, latest, he⟩ := exists_record_of_mem_eventsAfter h
    rcases SessionRecord.mem_events he with he | ⟨role, -, he⟩
    · rw [SessionRecord.kind_of_mem_thinkingEvents he]
      decide
    · rw [(SessionRecord.of_mem_roleEvents he).1]
      cases role <;> decide
  unfold Event.Unlabelled at hlabel
  unfold Event.kind at hhook
  unfold Event.isInvocation Event.kind
  cases hp : e.payload with
  | toolInvocation tool input => rfl
  | hook tool input => simp [hp] at hhook
  | _ => simp [hp] at hlabel

/-- The labels of these events' actions show, but for those that nothing is told of. -/
structure LabelsShow (limits : Limits) (events : List Event) : Prop where
  /-- Each item stems from its event, and its label shows unless the event is unlabelled. -/
  labels : List.Forall₂ (fun e item => IsItemOf e item ∧
    ((∀ label ∈ item.label?, Visible label) ↔ ¬ e.Unlabelled)) (sources events)
      (timelineOf limits events)
  /-- Hook records are never without a label. -/
  hooks (r : HookRecord) : ¬ r.toEvent.Unlabelled
  /-- Of a session only invocations may be. -/
  session {records : List SessionRecord} {e : Event} : e ∈ sessionEvents records → e.Unlabelled →
    e.isInvocation = true

/-- **Every action has a label that shows**, but for hooks without content and for tools on a context
server of which only blanks are told. -/
theorem labelsShow {limits : Limits} (hlabel : 1 ≤ limits.label) (hshell : 1 ≤ limits.shell)
    {events : List Event} (h : ∀ e ∈ events, e.Arises) : LabelsShow limits events where
  labels := by
    have hstems := forall₂_stemsFrom limits events
    have hnamed : ∀ e ∈ sources events, e.WellNamed :=
      fun e he => (h e (List.mem_of_mem_filter he)).wellNamed
    refine ((List.forall₂_and_left _ _).mpr ⟨hnamed, hstems⟩).imp fun e item ⟨hwell, hitem⟩ => ?_
    refine ⟨hitem.isItemOf, ?_⟩
    rw [← item.label?_forget e.isInvocation]
    exact Event.visible_label_iff hlabel hshell hwell hitem
  hooks := HookRecord.not_unlabelled_toEvent
  session := isInvocation_of_unlabelled

/-- Limits of one character, a hook and a call whose name on its server is a blank. -/
theorem labelsShow_narrow :
    (∀ e ∈ [(⟨"7", none, "Stop", none, "", "", none, .null⟩ : HookRecord).toEvent,
        ({ kind := .toolInvocation, tool := some "mcp__ " } : LiveEvent).toEvent], e.Arises) ∧
      LabelsShow ⟨1, 1, 1, 1, 1⟩
        [(⟨"7", none, "Stop", none, "", "", none, .null⟩ : HookRecord).toEvent,
          ({ kind := .toolInvocation, tool := some "mcp__ " } : LiveEvent).toEvent] := by
  have harises : ∀ e ∈ [(⟨"7", none, "Stop", none, "", "", none, .null⟩ : HookRecord).toEvent,
      ({ kind := .toolInvocation, tool := some "mcp__ " } : LiveEvent).toEvent], e.Arises := by
    intro e he
    rcases List.mem_pair.mp he with rfl | rfl
    · exact .hook _
    · exact .live _
  exact ⟨harises, labelsShow (by decide) (by decide) harises⟩

/-- A hook without content, and a call whose name on its server is a blank. -/
theorem not_forall_visible_label :
    (¬ ∀ limits : Limits, 1 ≤ limits.turn → 1 ≤ limits.label → 1 ≤ limits.shell →
      1 ≤ limits.task → 1 ≤ limits.summary → ∀ l : LiveEvent,
        ∀ item ∈ timelineOf limits [l.toEvent], ∀ label ∈ item.label?, Visible label) ∧
    ¬ ∀ limits : Limits, 1 ≤ limits.turn → 1 ≤ limits.label → 1 ≤ limits.shell →
      1 ≤ limits.task → 1 ≤ limits.summary → ∀ records : List SessionRecord,
        ∀ item ∈ timelineOf limits (sessionEvents records), ∀ label ∈ item.label?,
          Visible label := by
  constructor
  · intro h
    have hlabels := h {} (by decide) (by decide) (by decide) (by decide) (by decide)
      { kind := .hook }
    revert hlabels
    decide +kernel
  · intro h
    have hlabels := h {} (by decide) (by decide) (by decide) (by decide) (by decide)
      [{ role := "tool_use", calls := [{ name := "mcp__ " }] }]
    revert hlabels
    decide +kernel

end Chronicle
