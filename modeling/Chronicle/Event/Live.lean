import Chronicle.Event.Basic
import Chronicle.Json.Decode

/-!
# Live events

Events as the live transport delivers them, one JSON record each.

* `LiveEvent.decode`, `LiveEvent.toJson`: the record of an event.
* `LiveEvent.toEvent`: the event that is delivered.
* `Event.toLive`: an event as the transport would deliver it.
-/

namespace Chronicle

open Json (Source)

/-- A timestamp as any value; a value that tells no time leaves it missing. -/
def Timestamp.decode {ν ε : Type} [Source ν ε] (v : ν) : Except ε Timestamp :=
  (Json.asOptional Json.asValue v).map (·.bind Timestamp.ofJson)

/-- A text, for which null stands if it is empty. -/
def decodeContent {ν ε : Type} [Source ν ε] (v : ν) : Except ε String :=
  (Json.asOptional Json.asText v).map (·.getD "")

/-- The member under which hook events carry the record of the hook. -/
def hookMember : String := "hook_event"

/-- An event as delivered. -/
structure LiveEvent where
  kind : Kind
  content : String := ""
  timestamp : Timestamp := none
  tool : Option String := none
  input : Option Json := none
  category : Option Category := none
  metadata : Option Json := none
deriving DecidableEq

namespace LiveEvent

inductive Field where
  | kind
  | content
  | timestamp
  | tool
  | input
  | category
  | metadata
deriving DecidableEq, Repr

def Field.ofName? : String → Option Field
  | "kind" => some kind
  | "content" => some content
  | "timestamp" => some timestamp
  | "tool_name" => some tool
  | "input" => some input
  | "category_hint" => some category
  | "metadata" => some metadata
  | _ => none

/-- A record of which the kind may still be missing. -/
structure Draft where
  kind : Option Kind := none
  content : String := ""
  timestamp : Timestamp := none
  tool : Option String := none
  input : Option Json := none
  category : Option Category := none
  metadata : Option Json := none

section

variable {ν ε : Type} [Source ν ε]

def store (field : Field) (v : ν) (d : Draft) : Except ε Draft :=
  match field with
  | .kind => do return { d with kind := ← some <$> Json.asVariant Kind.ofTag? v }
  | .content => do return { d with content := ← decodeContent v }
  | .timestamp => do return { d with timestamp := ← Timestamp.decode v }
  | .tool => do return { d with tool := ← Json.asOptional Json.asText v }
  | .input => do return { d with input := ← Json.asOptional Json.asValue v }
  | .category => do
    return { d with category := ← Json.asOptional (Json.asVariant Category.ofTag?) v }
  | .metadata => do return { d with metadata := ← Json.asOptional Json.asValue v }

/-- How a delivered record is laid out. Only the kind is needed. -/
def layout : Json.Layout Field Draft LiveEvent ν ε where
  fieldOf := Field.ofName?
  fields := [.kind, .content, .timestamp, .tool, .input, .category, .metadata]
  store := store
  draft := {}
  finish d := d.kind.map fun kind =>
    { kind, content := d.content, timestamp := d.timestamp, tool := d.tool, input := d.input,
      category := d.category, metadata := d.metadata }

def decode (v : ν) : Except ε LiveEvent := Json.asRecord layout v

end

def toJson (e : LiveEvent) : Json :=
  .record (
    Json.member? "category_hint" (e.category.map fun c => .text c.tag) ++
    [("content", .text e.content)] ++
    Json.member? "input" e.input ++
    [("kind", .text e.kind.tag)] ++
    Json.member? "metadata" e.metadata ++
    [("timestamp", e.timestamp.toJson)] ++
    Json.member? "tool_name" (e.tool.map .text))

/-- The tool of an invocation; one without a name is called `tool`. -/
def invokedTool (name : Option String) : String :=
  match name with
  | some name => if Text.allBlank name then "tool" else name
  | none => "tool"

/-- The tool that the hook's own record names. -/
def hookTool (metadata : Option Json) : Option String := do
  let data ← metadata
  let hook ← data.get? hookMember
  Metadata.text? hook ["tool_name"]

def payload (e : LiveEvent) : Payload :=
  match e.kind with
  | .user => .user
  | .assistant => .assistant
  | .thinking => .thinking
  | .toolInvocation => .toolInvocation (invokedTool e.tool) e.input
  | .toolOutcome => .toolOutcome
  | .system => .system (.of e.metadata)
  | .progress => .progress (.of e.metadata)
  | .summary => .summary
  | .hook => .hook (e.tool.or (hookTool e.metadata)) e.input
  | .error => .error

def toEvent (e : LiveEvent) : Event where
  payload := e.payload
  content := e.content
  timestamp := e.timestamp
  category := e.category
  metadata := e.metadata

end LiveEvent

/-- An event as the transport would deliver it. -/
def Event.toLive (e : Event) : LiveEvent where
  kind := e.kind
  content := e.content
  timestamp := e.timestamp
  tool := e.tool?
  input := e.input?
  category := e.category
  metadata := e.metadata

end Chronicle
