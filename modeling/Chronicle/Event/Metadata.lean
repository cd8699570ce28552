import Chronicle.Category
import Chronicle.Json.Basic

/-!
# Metadata

Records carry metadata of many makers, which name the same thing in different ways.

* `Metadata.text?`, `Metadata.nat?`: the first of several members that holds something.
* `SystemNote.of`: what a system record reports.
* `Progress.of`: what a progress record reports.
-/

namespace Chronicle

namespace Metadata

/-- A member's text without surrounding blanks, if it is a text and not blank. -/
def textMember? (value : Json) (name : String) : Option String :=
  ((value.get? name).bind Json.text?).bind fun s =>
    if Text.allBlank s then none else some (Text.trimmed s)

/-- The text of the first of these members that holds one. -/
def text? (value : Json) (names : List String) : Option String :=
  names.findSome? (textMember? value)

/-- The natural number of the first of these members that is one. -/
def nat? (value : Json) (names : List String) : Option Nat :=
  names.findSome? fun name => (value.get? name).bind Json.nat?

def subject? (value : Json) : Option String :=
  text? value ["subtype", "type"]

end Metadata

/-! ## System notes -/

/-- What a system record reports. -/
inductive SystemNote where
  | compactBoundary
  | turnDuration (millis : Option Nat)
  | apiError (message : Option String)
  | localCommand
  | informational
  | fileSnapshot
  | queueOperation (operation : Option String)
  | result
  | other (name : String)
  | unspecified
deriving DecidableEq, Repr

namespace SystemNote

def ofSubject (data : Json) (subject : String) : SystemNote :=
  match subject with
  | "compact_boundary" => compactBoundary
  | "turn_duration" => turnDuration (Metadata.nat? data ["durationMs", "duration_ms"])
  | "api_error" => apiError (Metadata.text? data ["message", "error"])
  | "local_command" => localCommand
  | "informational" => informational
  | "file_history_snapshot" => fileSnapshot
  | "file-history-snapshot" => fileSnapshot
  | "queue_operation" => queueOperation (Metadata.text? data ["operation"])
  | "queue-operation" => queueOperation (Metadata.text? data ["operation"])
  | "result" => result
  | name => other name

def of : Option Json → SystemNote
  | none => unspecified
  | some data =>
    match Metadata.subject? data with
    | none => unspecified
    | some subject => ofSubject data subject

/-- The canonical name of a note. -/
def name? : SystemNote → Option String
  | compactBoundary => some "compact_boundary"
  | turnDuration _ => some "turn_duration"
  | apiError _ => some "api_error"
  | localCommand => some "local_command"
  | informational => some "informational"
  | fileSnapshot => some "file_history_snapshot"
  | queueOperation _ => some "queue_operation"
  | result => some "result"
  | other name => some name
  | unspecified => none

/-- The category that a note implies where none is given. -/
def category? : SystemNote → Option Category
  | compactBoundary => some .context
  | fileSnapshot => some .snapshot
  | queueOperation _ => some .queue
  | result => some .result
  | apiError _ => some .error
  | turnDuration _ => none
  | localCommand => none
  | informational => none
  | other _ => none
  | unspecified => none

end SystemNote

/-! ## Progress -/

/-- What a progress record reports. -/
inductive Progress where
  | agent (id prompt : Option String)
  | shell (command : Option String)
  | server (server tool : Option String)
  | hookOutput (hook text : Option String)
  | hookCall (event tool : Option String)
  | waiting (description : Option String)
  | unknown (name : String)
deriving DecidableEq, Repr

namespace Progress

def ofSubject (data : Json) (subject : String) : Progress :=
  let text := Metadata.text? data
  match subject with
  | "agent_progress" =>
    agent (text ["agentId", "agent_id"]) (text ["prompt", "message", "description"])
  | "bash_progress" => shell (text ["command"])
  | "mcp_progress" =>
    server (text ["serverName", "server_name", "server"]) (text ["toolName", "tool_name", "tool"])
  | "hook_progress" =>
    hookOutput (text ["hookName", "hook_name"]) (text ["content", "text", "message"])
  | "hook_event" =>
    hookCall (text ["hookEventName", "hook_event_name", "event_name"])
      (text ["toolName", "tool_name"])
  | "waiting_for_task" =>
    waiting (text ["taskDescription", "task_description", "description"])
  | "queue_wait" => waiting (text ["taskDescription", "task_description", "description"])
  | name => unknown name

def of : Option Json → Progress
  | none => unknown "progress"
  | some data =>
    match Metadata.subject? data with
    | none => unknown "progress"
    | some subject => ofSubject data subject

end Progress

end Chronicle
