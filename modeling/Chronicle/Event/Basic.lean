import Chronicle.Event.Metadata
import Chronicle.Time.Timestamp

/-!
# Events

Session records, hook records and live events all become events, which a timeline is built from.

* `Payload`, `Event`: what happened, with its text, time, category and metadata.
* `Kind`: the ten kinds of event and their tags.
* `Event.orderKey`: the time by which streams are merged.
-/

namespace Chronicle

inductive Kind where
  | user
  | assistant
  | thinking
  | toolInvocation
  | toolOutcome
  | system
  | progress
  | summary
  | hook
  | error
deriving DecidableEq, Repr

namespace Kind

def all : List Kind :=
  [user, assistant, thinking, toolInvocation, toolOutcome, system, progress, summary, hook, error]

def tag : Kind → String
  | user => "user"
  | assistant => "assistant"
  | thinking => "thinking"
  | toolInvocation => "tool_invocation"
  | toolOutcome => "tool_outcome"
  | system => "system"
  | progress => "progress"
  | summary => "summary"
  | hook => "hook"
  | error => "error"

def ofTag? (text : String) : Option Kind :=
  all.find? fun kind => kind.tag == text

theorem mem_all (kind : Kind) : kind ∈ all := by
  cases kind <;> simp [all]

theorem ofTag?_tag (kind : Kind) : ofTag? kind.tag = some kind := by
  cases kind <;> rfl

end Kind

/-- What happened. -/
inductive Payload where
  | user
  | assistant
  | thinking
  | toolInvocation (tool : String) (input : Option Json)
  | toolOutcome
  | system (note : SystemNote)
  | progress (progress : Progress)
  | summary
  | hook (tool : Option String) (input : Option Json)
  | error
deriving DecidableEq

/-- An event. Its metadata is that of the record that it comes from, unchanged. -/
structure Event where
  payload : Payload
  content : String
  timestamp : Timestamp := none
  category : Option Category := none
  metadata : Option Json := none
deriving DecidableEq

namespace Event

def kind (e : Event) : Kind :=
  match e.payload with
  | .user => .user
  | .assistant => .assistant
  | .thinking => .thinking
  | .toolInvocation _ _ => .toolInvocation
  | .toolOutcome => .toolOutcome
  | .system _ => .system
  | .progress _ => .progress
  | .summary => .summary
  | .hook _ _ => .hook
  | .error => .error

/-- The tool that an invocation or a hook names. -/
def tool? (e : Event) : Option String :=
  match e.payload with
  | .toolInvocation tool _ => some tool
  | .hook tool _ => tool
  | _ => none

def input? (e : Event) : Option Json :=
  match e.payload with
  | .toolInvocation _ input => input
  | .hook _ input => input
  | _ => none

/-- The time by which events are merged; only a known time counts. -/
def orderKey (e : Event) : Timestamp := e.timestamp.known

end Event

end Chronicle
