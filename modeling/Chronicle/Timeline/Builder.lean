import Chronicle.Content.Markup
import Chronicle.Json.Printer
import Chronicle.Text.Line
import Chronicle.Timeline.Item
import Chronicle.Timeline.Label

/-!
# Building a timeline

A builder takes events in turn. Every event but an outcome, and a turn of which nothing is left,
gets one slot. An invocation leaves its slot open and goes onto a stack; an outcome takes the latest
invocation off the stack and fills its slot. An outcome that meets an empty stack is dropped.

* `Builder.push`: one event.
* `Builder.liveItems`: the items so far, open invocations as pending actions.
* `Builder.finalItems`, `timelineOf`: the items in the end.
-/

namespace Chronicle

open Text

/-! ## Text of an item -/

/-- The first line that is not blank, clipped, or `fallback` if there is none. -/
def headlineOr (limits : Limits) (content fallback : String) : String :=
  let line := headline content
  if line.isEmpty then fallback else clip line limits.label

/-- The text unless it is blank. -/
def nonBlank (content : String) : Option String :=
  if allBlank content then none else some content

/-- The text of a value: its own, or the value printed. -/
def valueText : Json → String
  | .text s => s
  | other => other.pretty

/-- What an action says of itself besides its number, time and status. -/
structure Caption where
  category : Category
  tool : String
  label : String

def Progress.caption (limits : Limits) (content : String) : Progress → Caption
  | .agent id prompt =>
    ⟨.agent, "agent",
      match prompt, id with
      | some prompt, _ => "Agent: " ++ clip (headline prompt) limits.label
      | none, some id => "Agent " ++ id
      | none, none => headlineOr limits content "Agent progress"⟩
  | .shell command =>
    ⟨.builtin, "Bash",
      match command with
      | some command => "$ " ++ clip (headline command) limits.shell
      | none => headlineOr limits content "Bash progress"⟩
  | .server host tool =>
    ⟨.mcp, tool.getD "mcp",
      match host, tool with
      | some host, some tool => host ++ "/" ++ tool
      | none, some tool => tool
      | some host, none => host
      | none, none => headlineOr limits content "MCP progress"⟩
  | .hookOutput hook text =>
    ⟨.hookProgress, hook.getD "hook",
      match text with
      | some text => clip (headline text) limits.label
      | none => headlineOr limits content "Hook progress"⟩
  | .hookCall event tool =>
    ⟨.hook, tool.getD "hook",
      match event with
      | some event => "Hook: " ++ event
      | none => headlineOr limits content "Hook event"⟩
  | .waiting description =>
    ⟨.queue, "queue",
      match description with
      | some description => "Waiting: " ++ clip description limits.label
      | none => headlineOr limits content "Waiting in queue"⟩
  | .unknown name => ⟨.system, name, name⟩

/-- The label of a note without content. -/
def SystemNote.bareLabel (limits : Limits) (tool : String) : SystemNote → String
  | .turnDuration (some millis) => "Turn took " ++ String.ofList (digitsOf millis) ++ " ms"
  | .apiError (some message) => clip message limits.label
  | .queueOperation (some operation) => "Queue: " ++ operation
  | .compactBoundary => "Context compacted"
  | .fileSnapshot => "File snapshot"
  | _ => tool

/-- The name under which a note is shown. -/
def SystemNote.tool (note : SystemNote) : String := note.name?.getD "system"

def SystemNote.label (limits : Limits) (content : String) (note : SystemNote) : String :=
  if (headline content).isEmpty then note.bareLabel limits note.tool
  else headlineOr limits content note.tool

/-- A note of an error is shown as one. -/
def SystemNote.status : SystemNote → Status
  | .apiError _ => .error
  | _ => .success

/-- A short summary of one line is its own label, and a longer one is told by its words. -/
def summaryTitle (limits : Limits) (content : String) : String :=
  let cs := trim content.toList
  if cs.isEmpty then "Session summary"
  else if !cs.contains '\n' && cs.length ≤ limits.summary then String.ofList cs
  else "Session summary (" ++ String.ofList (digitsOf (wordCount content)) ++ "w)"

/-- The tool of a hook; one without a name is called `hook`. -/
def hookToolName (tool : Option String) : String :=
  match tool with
  | some tool => if allBlank tool then "hook" else tool
  | none => "hook"

/-! ## The item of an event -/

/-- What a turn shows of its content, none if it shows nothing. -/
def turnContent (limits : Limits) (content : String) : Option String :=
  let stripped := Markup.strip content
  if stripped.isEmpty then none else some (clip stripped limits.turn)

/-- The turn of an event, if anything is left of its content. -/
def turnOf (limits : Limits) (speaker : Speaker) (e : Event) : Option Turn :=
  (turnContent limits e.content).map fun content => ⟨speaker, content, e.timestamp⟩

/-- What an event asks of a builder. -/
inductive Request where
  /-- Nothing. -/
  | ignore
  /-- A turn. -/
  | turn (t : Turn)
  /-- An action that is complete, but for its number. -/
  | action (numbered : Nat → Action)
  /-- An action that waits for its outcome, but for its number. -/
  | invocation (numbered : Nat → Action)
  /-- The outcome of the latest action that waits. -/
  | outcome (content : String) (timestamp : Timestamp)

def Event.request (limits : Limits) (e : Event) : Request :=
  let act (category : Category) (tool label : String) (status : Status) (input : Option Json)
      (output : Option String) : Nat → Action :=
    fun id => { id, timestamp := e.timestamp, category, tool, label, status, input, output }
  match e.payload with
  | .user => ((turnOf limits .user e).map .turn).getD .ignore
  | .assistant => ((turnOf limits .assistant e).map .turn).getD .ignore
  | .thinking =>
    .action (act .system "thinking" (headlineOr limits e.content "Thinking") .success none
      (some e.content))
  | .toolInvocation tool input =>
    .invocation (act (e.category.getD (.ofTool tool)) tool (Label.ofTool limits tool input) .pending
      input none)
  | .toolOutcome => .outcome e.content e.timestamp
  | .progress progress =>
    let caption := progress.caption limits e.content
    .action (act caption.category caption.tool caption.label .success e.metadata
      (nonBlank e.content))
  | .system note =>
    .action (act (e.category.getD .system) note.tool (note.label limits e.content) note.status
      e.metadata (nonBlank e.content))
  | .summary =>
    .action (act (e.category.getD .summary) "summary" (summaryTitle limits e.content) .success none
      (nonBlank e.content))
  | .hook tool input =>
    .action (act .hook (hookToolName tool) (clip (trimmed e.content) limits.label) .success none
      (input.map valueText))
  | .error =>
    .action (act .error "Error" (headlineOr limits e.content "Error") .error none
      (nonBlank e.content))

/-! ## The builder -/

/-- A place in the timeline. -/
inductive Slot where
  | filled (item : TimelineItem)
  | vacant
deriving DecidableEq

/-- An invocation that waits for its outcome, and the slot that is kept for it. -/
structure PendingAction where
  slot : Nat
  action : Action
deriving DecidableEq

/-- A timeline under construction. -/
structure Builder where
  slots : List Slot := []
  /-- The invocations that wait, the latest first. -/
  waiting : List PendingAction := []
  nextId : Nat := 1
deriving DecidableEq

def Action.resolve (a : Action) (content : String) (finished : Timestamp) : Action :=
  { a with
    output := some content
    status := if Content.reportsFailure content then .error else .success
    durationMs := Timestamp.elapsedMillis a.timestamp finished }

namespace Builder

def fill (slots : List Slot) (place : PendingAction) : List Slot :=
  slots.set place.slot (.filled (.action place.action))

def apply (b : Builder) : Request → Builder
  | .ignore => b
  | .turn t => { b with slots := b.slots ++ [.filled (.turn t)] }
  | .action numbered =>
    { b with
      slots := b.slots ++ [.filled (.action (numbered b.nextId))], nextId := b.nextId + 1 }
  | .invocation numbered =>
    { slots := b.slots ++ [.vacant]
      waiting := ⟨b.slots.length, numbered b.nextId⟩ :: b.waiting
      nextId := b.nextId + 1 }
  | .outcome content timestamp =>
    match b.waiting with
    | [] => b
    | latest :: waiting =>
      { b with
        slots := fill b.slots ⟨latest.slot, latest.action.resolve content timestamp⟩
        waiting := waiting }

def push (limits : Limits) (b : Builder) (e : Event) : Builder := b.apply (e.request limits)

def pushAll (limits : Limits) (b : Builder) (events : List Event) : Builder :=
  events.foldl (push limits) b

def openCount (b : Builder) : Nat := b.waiting.length

/-- What a slot shows: its item, or the invocation that waits for it. -/
def shown? (b : Builder) (index : Nat) : Slot → Option TimelineItem
  | .filled item => some item
  | .vacant => (b.waiting.find? fun place => place.slot == index).map fun place =>
    .action place.action

/-- The items so far; invocations that wait are pending. -/
def liveItems (b : Builder) : List TimelineItem :=
  (b.slots.mapIdx b.shown?).filterMap id

def Slot.item? : Slot → Option TimelineItem
  | .filled item => some item
  | .vacant => none

/-- The items in the end. Invocations that were never answered go into their slots, the earliest
first, and stay pending. -/
def finalItems (b : Builder) : List TimelineItem :=
  (b.waiting.reverse.foldl fill b.slots).filterMap Slot.item?

end Builder

/-- The timeline of a stream of events. -/
def timelineOf (limits : Limits) (events : List Event) : List TimelineItem :=
  (Builder.pushAll limits {} events).finalItems

end Chronicle
