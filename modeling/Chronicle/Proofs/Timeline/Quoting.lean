import Chronicle.Proofs.Timeline.Sources

/-!
# Line feeds in labels

Most labels take the first line of a text. The others take a text over as it is, and with it any line
feed in its middle.

* `Event.quoted`: the texts that the label of an event takes over as they are.
* `oneLine_ofTool`, `Progress.oneLine_caption`, `SystemNote.oneLine_label`, `oneLine_summaryTitle`:
  the labels one by one.
* `Event.oneLine_label_iff`: a label is one line exactly if what it takes over is.
-/

namespace Chronicle

open Text (OneLine oneLine_append oneLine_ofList oneLine_headline headline clip)

/-! ## Invocations -/

namespace Label

open Metadata (text?)

/-- What the label of a known tool takes over from its input. Of a command it takes the first line. -/
def Subject.quoted? (limits : Limits) (data : Json) : Subject → Option String
  | .file => (text? data ["file_path", "notebook_path", "path"]).map pathTail
  | .command => none
  | .search => text? data ["pattern", "query"]
  | .skill => text? data ["skill", "name", "command"]
  | .task => (text? data ["description", "subagent_type"]).map fun task => clip task limits.task
  | .page => (text? data ["url"]).map fun url => clip url limits.label
  | .webSearch => text? data ["query"]

/-- What the label of an invocation takes over: of a tool that is not known, its name. -/
def quoted? (limits : Limits) (tool : String) (input : Option Json) : Option String :=
  if Category.isServerTool tool then some (ofServerTool tool)
  else
    match subject? tool with
    | none => some tool
    | some subject => (input.bind inputRecord?).bind fun data => subject.quoted? limits data

theorem oneLine_of_subject? {tool : String} {subject : Subject} (h : subject? tool = some subject) :
    OneLine tool := by
  unfold subject? at h
  split at h <;> first | decide | cases h

theorem oneLine_getD_map {tool : String} (htool : OneLine tool) (told : Option String)
    (label : String → String) :
    OneLine ((told.map label).getD tool) ↔ ∀ text ∈ told, OneLine (label text) := by
  cases told with
  | none => simpa using htool
  | some text => simp

theorem oneLine_inQuotes (text : String) : OneLine (inQuotes text) ↔ OneLine text := by
  have hquote : OneLine "\x22" := by decide
  simp [inQuotes, hquote]

theorem oneLine_ofInput? (limits : Limits) {tool : String} (htool : OneLine tool) (data : Json)
    (subject : Subject) :
    OneLine ((ofInput? limits tool data subject).getD tool) ↔
      ∀ text ∈ subject.quoted? limits data, OneLine text := by
  have hspace : OneLine " " := by decide
  cases subject with
  | file =>
    rw [ofInput?, oneLine_getD_map htool]
    simp [Subject.quoted?, htool, hspace]
  | command =>
    rw [ofInput?, oneLine_getD_map htool]
    simp [Subject.quoted?, (oneLine_headline _).clip]
  | search =>
    rw [ofInput?, oneLine_getD_map htool]
    simp [Subject.quoted?, htool, hspace, oneLine_inQuotes]
  | skill =>
    have hlead : OneLine "Skill: " := by decide
    have hunknown : OneLine "unknown" := by decide
    rw [ofInput?, Subject.quoted?, Option.getD_some, oneLine_append]
    cases text? data ["skill", "name", "command"] <;> simp [hlead, hunknown]
  | task =>
    have hlead : OneLine "Task: " := by decide
    rw [ofInput?, oneLine_getD_map htool]
    simp [Subject.quoted?, hlead]
  | page =>
    have hlead : OneLine "WebFetch " := by decide
    rw [ofInput?, oneLine_getD_map htool]
    simp [Subject.quoted?, hlead]
  | webSearch =>
    have hlead : OneLine "WebSearch " := by decide
    rw [ofInput?, oneLine_getD_map htool]
    simp [Subject.quoted?, hlead, oneLine_inQuotes]

theorem oneLine_ofTool (limits : Limits) (tool : String) (input : Option Json) :
    OneLine (ofTool limits tool input) ↔ ∀ text ∈ quoted? limits tool input, OneLine text := by
  rw [ofTool, quoted?]
  split
  · simp
  · cases hsubject : subject? tool with
    | none => simp
    | some subject =>
      have htool := oneLine_of_subject? hsubject
      cases hdata : input.bind inputRecord? with
      | none => simpa using htool
      | some data => simpa using oneLine_ofInput? limits htool data subject

end Label

/-! ## Other events -/

theorem oneLine_headlineOr (limits : Limits) (content : String) {fallback : String}
    (h : OneLine fallback) : OneLine (headlineOr limits content fallback) := by
  rw [headlineOr]
  split
  · exact h
  · exact (oneLine_headline content).clip limits.label

def Progress.quoted (limits : Limits) : Progress → List String
  | .agent id none => id.toList
  | .agent _ (some _) => []
  | .shell _ => []
  | .server host tool => host.toList ++ tool.toList
  | .hookOutput _ _ => []
  | .hookCall event _ => event.toList
  | .waiting description => (description.map fun text => clip text limits.label).toList
  | .unknown name => [name]

theorem Progress.oneLine_caption (limits : Limits) (content : String) (progress : Progress) :
    OneLine (progress.caption limits content).label ↔
      ∀ text ∈ progress.quoted limits, OneLine text := by
  have hfallback {fallback : String} (h : OneLine fallback) :=
    oneLine_headlineOr limits content h
  cases progress with
  | agent id prompt =>
    have hlead : OneLine "Agent: " := by decide
    have hlead' : OneLine "Agent " := by decide
    have hbare : OneLine (headlineOr limits content "Agent progress") := hfallback (by decide)
    cases prompt with
    | some prompt => simp [caption, quoted, hlead, (oneLine_headline prompt).clip]
    | none => cases id <;> simp [caption, quoted, hlead', hbare]
  | shell command =>
    have hlead : OneLine "$ " := by decide
    have hbare : OneLine (headlineOr limits content "Bash progress") := hfallback (by decide)
    cases command <;> simp [caption, quoted, hlead, hbare, (oneLine_headline _).clip]
  | server host tool =>
    have hslash : OneLine "/" := by decide
    have hbare : OneLine (headlineOr limits content "MCP progress") := hfallback (by decide)
    cases host <;> cases tool <;> simp [caption, quoted, hslash, hbare]
  | hookOutput hook text =>
    have hbare : OneLine (headlineOr limits content "Hook progress") := hfallback (by decide)
    cases text <;> simp [caption, quoted, hbare, (oneLine_headline _).clip]
  | hookCall event tool =>
    have hlead : OneLine "Hook: " := by decide
    have hbare : OneLine (headlineOr limits content "Hook event") := hfallback (by decide)
    cases event <;> simp [caption, quoted, hlead, hbare]
  | waiting description =>
    have hlead : OneLine "Waiting: " := by decide
    have hbare : OneLine (headlineOr limits content "Waiting in queue") := hfallback (by decide)
    cases description <;> simp [caption, quoted, hlead, hbare]
  | unknown name => simp [caption, quoted]

def SystemNote.quoted (limits : Limits) : SystemNote → List String
  | .apiError (some message) => [clip message limits.label]
  | .queueOperation (some operation) => [operation]
  | .other name => [name]
  | _ => []

theorem SystemNote.oneLine_bareLabel (limits : Limits) (note : SystemNote) :
    OneLine (note.bareLabel limits note.tool) ↔ ∀ text ∈ note.quoted limits, OneLine text := by
  cases note with
  | turnDuration millis =>
    cases millis with
    | none => simp [bareLabel, quoted, tool, name?]; decide
    | some millis =>
      have hlead : OneLine "Turn took " := by decide
      have hunit : OneLine " ms" := by decide
      simp [bareLabel, quoted, hlead, hunit, Text.oneLine_digits]
  | apiError message =>
    cases message with
    | none => simp [bareLabel, quoted, tool, name?]; decide
    | some message => simp [bareLabel, quoted]
  | queueOperation operation =>
    cases operation with
    | none => simp [bareLabel, quoted, tool, name?]; decide
    | some operation =>
      have hlead : OneLine "Queue: " := by decide
      simp [bareLabel, quoted, hlead]
  | other name => simp [bareLabel, quoted, tool, name?]
  | _ => simp [bareLabel, quoted, tool, name?]; decide

theorem SystemNote.oneLine_label (limits : Limits) (content : String) (note : SystemNote) :
    OneLine (note.label limits content) ↔
      ∀ text ∈ if (headline content).isEmpty then note.quoted limits else [], OneLine text := by
  rw [label]
  split
  · exact note.oneLine_bareLabel limits
  · rename_i hcontent
    rw [headlineOr, if_neg hcontent]
    simpa using (oneLine_headline content).clip limits.label

theorem oneLine_summaryTitle (limits : Limits) (content : String) :
    OneLine (summaryTitle limits content) := by
  rw [summaryTitle]
  split
  · decide
  · split
    · rename_i hshort
      rw [oneLine_ofList]
      intro hmem
      simp [hmem] at hshort
    · have hlead : OneLine "Session summary (" := by decide
      have hunit : OneLine "w)" := by decide
      simp [hlead, hunit, Text.oneLine_digits]

/-! ## Events -/

/-- The texts that the label of an event takes over as they are. -/
def Event.quoted (limits : Limits) (e : Event) : List String :=
  match e.payload with
  | .toolInvocation tool input => (Label.quoted? limits tool input).toList
  | .progress progress => progress.quoted limits
  | .system note => if (headline e.content).isEmpty then note.quoted limits else []
  | .hook _ _ => [clip (Text.trimmed e.content) limits.label]
  | _ => []

def TimelineItem.label? (item : TimelineItem) : Option String := item.action?.map Action.label

@[simp] theorem TimelineItem.label?_turn (t : Turn) : label? (.turn t) = none := rfl

@[simp] theorem TimelineItem.label?_action (a : Action) : label? (.action a) = some a.label := rfl

theorem TimelineItem.label?_forget (invoked : Bool) (item : TimelineItem) :
    (item.forget invoked).label? = item.label? := by
  cases item with
  | turn t => rfl
  | action a => cases invoked <;> rfl

/-- **A label is one line exactly if what it takes over is.** -/
theorem Event.oneLine_label_iff {limits : Limits} {e : Event} {item : TimelineItem}
    (h : e.ownItem? limits = some item) :
    (∀ label ∈ item.label?, OneLine label) ↔ ∀ text ∈ e.quoted limits, OneLine text := by
  unfold ownItem? request at h
  unfold quoted
  cases hp : e.payload with
  | user =>
    simp only [hp, ownItem?_turnOf] at h
    obtain ⟨t, -, rfl⟩ := Option.map_eq_some_iff.mp h
    simp
  | assistant =>
    simp only [hp, ownItem?_turnOf] at h
    obtain ⟨t, -, rfl⟩ := Option.map_eq_some_iff.mp h
    simp
  | thinking =>
    simp only [hp] at h
    cases h
    simpa using oneLine_headlineOr limits e.content (by decide)
  | toolInvocation tool input =>
    simp only [hp] at h
    cases h
    simpa using Label.oneLine_ofTool limits tool input
  | toolOutcome =>
    simp only [hp] at h
    cases h
  | progress progress =>
    simp only [hp] at h
    cases h
    simpa using progress.oneLine_caption limits e.content
  | system note =>
    simp only [hp] at h
    cases h
    simpa using note.oneLine_label limits e.content
  | summary =>
    simp only [hp] at h
    cases h
    simpa using oneLine_summaryTitle limits e.content
  | hook tool input =>
    simp only [hp] at h
    cases h
    simp
  | error =>
    simp only [hp] at h
    cases h
    simpa using oneLine_headlineOr limits e.content (by decide)

end Chronicle
