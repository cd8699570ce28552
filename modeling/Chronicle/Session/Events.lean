import Chronicle.Content.Markup
import Chronicle.Session.Record

/-!
# Events of a session

`SessionRecord.events` gives the events of one record, and `sessionEvents` those of a session. One
thing passes from record to record: an outcome carries the category of the latest invocation.
-/

namespace Chronicle

/-- The category of the latest invocation, if there was one. -/
abbrev LatestCategory := Option Category

namespace ToolCall

/-- The category of a call; calls are builtin unless they say otherwise. -/
def effectiveCategory (c : ToolCall) : Category := c.category.getD .builtin

def event (timestamp : Timestamp) (c : ToolCall) : Event where
  payload := .toolInvocation (if Text.allBlank c.name then "tool" else c.name) c.input
  content := ""
  timestamp := timestamp
  category := some c.effectiveCategory

end ToolCall

namespace SessionRecord

/-- The thinking of a record, if something of it is left without control markup. -/
def thinkingEvents (r : SessionRecord) : List Event :=
  match r.thinking.map Markup.strip with
  | none => []
  | some thinking =>
    if thinking.isEmpty then []
    else [{ payload := .thinking, content := thinking, timestamp := r.timestamp }]

/-- What someone said, if something of it is left without control markup. -/
def turnEvents (payload : Payload) (r : SessionRecord) : List Event :=
  let content := Markup.strip r.content
  if content.isEmpty then []
  else [{ payload, content, timestamp := r.timestamp, category := r.category }]

def effectiveCategory (r : SessionRecord) : Category := r.category.getD .builtin

/-- The invocation that a record without calls is. -/
def bareInvocation (r : SessionRecord) : Event where
  payload := .toolInvocation "tool" (if r.content.isEmpty then none else some (.text r.content))
  content := r.content
  timestamp := r.timestamp
  category := some r.effectiveCategory
  metadata := r.metadata

/-- An invocation for each call, or one for a record without calls. -/
def invocationEvents (r : SessionRecord) : List Event :=
  if r.calls.isEmpty then [r.bareInvocation] else r.calls.map (ToolCall.event r.timestamp)

/-- The outcome that a record tells, if something of it is left without control markup. -/
def outcomeEvents (latest : LatestCategory) (r : SessionRecord) : List Event :=
  let content := Markup.strip r.content
  if content.isEmpty then []
  else
    [{ payload := .toolOutcome, content, timestamp := r.timestamp, category := latest,
       metadata := r.metadata }]

def systemEvent (r : SessionRecord) : Event :=
  let note := SystemNote.of r.metadata
  { payload := .system note, content := r.content, timestamp := r.timestamp,
    category := r.category.or note.category?, metadata := r.metadata }

def progressEvent (r : SessionRecord) : Event where
  payload := .progress (.of r.metadata)
  content := r.content
  timestamp := r.timestamp
  category := r.category
  metadata := r.metadata

/-- The text of a summary: the content, or what the metadata says if that is blank. -/
def summaryText (r : SessionRecord) : String :=
  if Text.allBlank r.content then
    (r.metadata.bind fun data => Metadata.text? data ["summary"]).getD ""
  else r.content

def summaryEvent (r : SessionRecord) : Event where
  payload := .summary
  content := r.summaryText
  timestamp := r.timestamp
  category := r.category
  metadata := r.metadata

def roleEvents (latest : LatestCategory) (r : SessionRecord) : Role → List Event
  | .user => r.turnEvents .user
  | .assistant => r.turnEvents .assistant
  | .toolInvocation => r.invocationEvents
  | .toolOutcome => r.outcomeEvents latest
  | .system => [r.systemEvent]
  | .progress => [r.progressEvent]
  | .summary => [r.summaryEvent]

/-- The events of a record, thinking first. A record of unknown role has none. -/
def events (latest : LatestCategory) (r : SessionRecord) : List Event :=
  match Role.parse r.role with
  | none => []
  | some role => r.thinkingEvents ++ r.roleEvents latest role

/-- The category that the next outcome carries. -/
def latestAfter (latest : LatestCategory) (r : SessionRecord) : LatestCategory :=
  match Role.parse r.role with
  | some .toolInvocation =>
    match r.calls.getLast? with
    | some call => some call.effectiveCategory
    | none => some r.effectiveCategory
  | _ => latest

end SessionRecord

/-- The events of each record of a session that goes on after `latest`. -/
def eventsAfter (latest : LatestCategory) : List SessionRecord → List (List Event)
  | [] => []
  | r :: more => r.events latest :: eventsAfter (r.latestAfter latest) more

def sessionEvents (records : List SessionRecord) : List Event :=
  (eventsAfter none records).flatten

end Chronicle
