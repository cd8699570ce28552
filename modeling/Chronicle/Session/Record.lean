import Chronicle.Event.Live

/-!
# Session records

The history of a session is a list of records, each of one role.

* `SessionRecord`, `ToolCall`: what a record holds.
* `SessionRecord.decode`, `SessionRecord.toJson`: a record as JSON.
* `Role.parse`: the role that a record names.
-/

namespace Chronicle

open Json (Source)

/-! ## Roles -/

/-- Who or what a record speaks for. -/
inductive Role where
  | user
  | assistant
  | toolInvocation
  | toolOutcome
  | system
  | progress
  | summary
deriving DecidableEq, Repr

def Role.ofName? : String → Option Role
  | "user" => some user
  | "human" => some user
  | "assistant" => some assistant
  | "agent" => some assistant
  | "model" => some assistant
  | "tool_invocation" => some toolInvocation
  | "tool_use" => some toolInvocation
  | "tool_call" => some toolInvocation
  | "tool_outcome" => some toolOutcome
  | "tool_result" => some toolOutcome
  | "tool" => some toolOutcome
  | "system" => some system
  | "progress" => some progress
  | "summary" => some summary
  | _ => none

/-- The role that a text names, in any case and with blanks around it. -/
def Role.parse (text : String) : Option Role :=
  ofName? (String.ofList ((Text.trim text.toList).map Char.toLower))

/-! ## Records -/

structure ToolCall where
  name : String := ""
  input : Option Json := none
  category : Option Category := none
deriving DecidableEq

structure SessionRecord where
  role : String
  content : String := ""
  thinking : Option String := none
  calls : List ToolCall := []
  metadata : Option Json := none
  timestamp : Timestamp := none
  category : Option Category := none
deriving DecidableEq

/-- A category by a text that may name none. -/
def Category.decodeLoose {ν ε : Type} [Source ν ε] (v : ν) : Except ε (Option Category) :=
  (Json.asOptional Json.asText v).map (·.bind Category.parse)

namespace ToolCall

inductive Field where
  | name
  | input
  | category
deriving DecidableEq, Repr

def Field.ofName? : String → Option Field
  | "name" => some name
  | "tool_name" => some name
  | "toolName" => some name
  | "input" => some input
  | "arguments" => some input
  | "category" => some category
  | _ => none

section

variable {ν ε : Type} [Source ν ε]

def store (field : Field) (v : ν) (c : ToolCall) : Except ε ToolCall :=
  match field with
  | .name => do return { c with name := ← Json.asText v }
  | .input => do return { c with input := ← Json.asOptional Json.asValue v }
  | .category => do return { c with category := ← Category.decodeLoose v }

/-- How a call is laid out. No field is needed. -/
def layout : Json.Layout Field ToolCall ToolCall ν ε where
  fieldOf := Field.ofName?
  fields := [.name, .input, .category]
  store := store
  draft := {}
  finish := some

def decode (v : ν) : Except ε ToolCall := Json.asRecord layout v

end

def toJson (c : ToolCall) : Json :=
  .record (
    Json.member? "category" (c.category.map fun c => .text c.tag) ++
    Json.member? "input" c.input ++
    [("name", .text c.name)])

end ToolCall

namespace SessionRecord

inductive Field where
  | role
  | content
  | thinking
  | calls
  | metadata
  | timestamp
  | category
deriving DecidableEq, Repr

def Field.ofName? : String → Option Field
  | "role" => some role
  | "content" => some content
  | "thinking" => some thinking
  | "tool_calls" => some calls
  | "toolCalls" => some calls
  | "metadata" => some metadata
  | "timestamp" => some timestamp
  | "category" => some category
  | _ => none

/-- A record of which the role may still be missing. -/
structure Draft where
  role : Option String := none
  content : String := ""
  thinking : Option String := none
  calls : List ToolCall := []
  metadata : Option Json := none
  timestamp : Timestamp := none
  category : Option Category := none

section

variable {ν ε : Type} [Source ν ε]

def store (field : Field) (v : ν) (d : Draft) : Except ε Draft :=
  match field with
  | .role => do return { d with role := ← some <$> Json.asText v }
  | .content => do return { d with content := ← decodeContent v }
  | .thinking => do return { d with thinking := ← Json.asOptional Json.asText v }
  | .calls => do return { d with calls := ← Json.asEach (fun v _ => ToolCall.decode v) v }
  | .metadata => do return { d with metadata := ← Json.asOptional Json.asValue v }
  | .timestamp => do return { d with timestamp := ← Timestamp.decode v }
  | .category => do return { d with category := ← Category.decodeLoose v }

/-- How a record is laid out. Only the role is needed. -/
def layout : Json.Layout Field Draft SessionRecord ν ε where
  fieldOf := Field.ofName?
  fields := [.role, .content, .thinking, .calls, .metadata, .timestamp, .category]
  store := store
  draft := {}
  finish d := d.role.map fun role =>
    { role, content := d.content, thinking := d.thinking, calls := d.calls,
      metadata := d.metadata, timestamp := d.timestamp, category := d.category }

def decode (v : ν) : Except ε SessionRecord := Json.asRecord layout v

end

/-- The JSON record of a session record. What is absent is left out. -/
def toJson (r : SessionRecord) : Json :=
  .record (
    Json.member? "category" (r.category.map fun c => .text c.tag) ++
    [("content", .text r.content)] ++
    Json.member? "metadata" r.metadata ++
    [("role", .text r.role)] ++
    Json.member? "thinking" (r.thinking.map .text) ++
    Json.member? "timestamp" (r.timestamp.map .ofBinary64) ++
    Json.member? "tool_calls"
      (if r.calls.isEmpty then none else some (.list (r.calls.map ToolCall.toJson))))

end SessionRecord

end Chronicle
