import Chronicle.Event.Basic
import Chronicle.Json.Decode

/-!
# Timeline items

A timeline is a list of turns and actions.

* `Turn`, `Action`, `TimelineItem`: the items.
* `TimelineItem.toJson`, `TimelineItem.decode`: an item as JSON and back.
-/

namespace Chronicle

inductive Speaker where
  | user
  | assistant
deriving DecidableEq, Repr

def Speaker.tag : Speaker → String
  | user => "user"
  | assistant => "assistant"

def Speaker.ofTag? (text : String) : Option Speaker :=
  [user, assistant].find? fun speaker => speaker.tag == text

theorem Speaker.ofTag?_tag (speaker : Speaker) : ofTag? speaker.tag = some speaker := by
  cases speaker <;> rfl

structure Turn where
  speaker : Speaker
  content : String
  timestamp : Timestamp
deriving DecidableEq

/-- How far an action has come. -/
inductive Status where
  | pending
  | success
  | error
deriving DecidableEq, Repr

def Status.tag : Status → String
  | pending => "pending"
  | success => "success"
  | error => "error"

def Status.ofTag? (text : String) : Option Status :=
  [pending, success, error].find? fun status => status.tag == text

theorem Status.ofTag?_tag (status : Status) : ofTag? status.tag = some status := by
  cases status <;> rfl

structure Action where
  id : Nat
  timestamp : Timestamp
  category : Category
  tool : String
  label : String
  status : Status
  input : Option Json := none
  output : Option String := none
  durationMs : Option Nat := none
deriving DecidableEq

inductive TimelineItem where
  | turn (t : Turn)
  | action (a : Action)
deriving DecidableEq

namespace TimelineItem

def action? : TimelineItem → Option Action
  | turn _ => none
  | action a => some a

def timestamp : TimelineItem → Timestamp
  | turn t => t.timestamp
  | action a => a.timestamp

end TimelineItem

/-! ## As JSON -/

def Turn.toJson (t : Turn) : Json :=
  .record [
    ("content", .text t.content),
    ("role", .text t.speaker.tag),
    ("timestamp", t.timestamp.toJson),
    ("type", .text "turn")]

/-- The JSON record of an action. What is absent is left out, but for the time. -/
def Action.toJson (a : Action) : Json :=
  .record (
    [("category", .text a.category.tag)] ++
    Json.member? "duration_ms" (a.durationMs.map .ofNat) ++
    [("id", .ofNat a.id)] ++
    Json.member? "input" a.input ++
    [("label", .text a.label)] ++
    Json.member? "output" (a.output.map .text) ++
    [("status", .text a.status.tag), ("timestamp", a.timestamp.toJson),
      ("tool_name", .text a.tool), ("type", .text "action")])

def TimelineItem.toJson : TimelineItem → Json
  | turn t => t.toJson
  | action a => a.toJson

open Json (Mismatch)

/-- A named constant: its name, or a record of that name alone over nothing. -/
def Json.constant (ofName : String → Option α) : Json → Except Mismatch α
  | .record [(name, .record [])] => Json.asVariant ofName (Json.record [(name, .null)])
  | v => Json.asVariant ofName v

namespace Turn

inductive Field where
  | speaker
  | content
  | timestamp
deriving DecidableEq, Repr

def Field.ofName? : String → Option Field
  | "role" => some speaker
  | "content" => some content
  | "timestamp" => some timestamp
  | _ => none

/-- A turn of which fields may be missing. -/
structure Draft where
  speaker : Option Speaker := none
  content : Option String := none
  timestamp : Option Timestamp := none

def store (field : Field) (v : Json) (d : Draft) : Except Mismatch Draft :=
  match field with
  | .speaker => do return { d with speaker := ← some <$> Json.constant Speaker.ofTag? v }
  | .content => do return { d with content := ← some <$> Json.asText v }
  | .timestamp => do
    return { d with timestamp := ← some <$> Json.asOptional Json.asBinary64 v }

/-- The turn of a draft; a timestamp that is not given is missing. -/
def finish (d : Draft) : Option Turn := do
  let speaker ← d.speaker
  let content ← d.content
  return { speaker, content, timestamp := d.timestamp.getD none }

/-- How a turn is laid out. In a list every field is needed. -/
def layout : Json.Layout Field Draft Turn Json Mismatch where
  fieldOf := Field.ofName?
  fields := [.speaker, .content, .timestamp]
  store := store
  draft := {}
  finish := finish
  finishList d := if d.timestamp.isSome then finish d else none

end Turn

namespace Action

inductive Field where
  | id
  | timestamp
  | category
  | tool
  | label
  | status
  | input
  | output
  | durationMs
deriving DecidableEq, Repr

def Field.ofName? : String → Option Field
  | "id" => some id
  | "timestamp" => some timestamp
  | "category" => some category
  | "tool_name" => some tool
  | "label" => some label
  | "status" => some status
  | "input" => some input
  | "output" => some output
  | "duration_ms" => some durationMs
  | _ => none

/-- An action of which fields may be missing. -/
structure Draft where
  id : Option Nat := none
  timestamp : Option Timestamp := none
  category : Option Category := none
  tool : Option String := none
  label : Option String := none
  status : Option Status := none
  input : Option (Option Json) := none
  output : Option (Option String) := none
  durationMs : Option (Option Nat) := none

def store (field : Field) (v : Json) (d : Draft) : Except Mismatch Draft :=
  match field with
  | .id => do return { d with id := ← some <$> Json.asNat v }
  | .timestamp => do
    return { d with timestamp := ← some <$> Json.asOptional Json.asBinary64 v }
  | .category => do return { d with category := ← some <$> Json.constant Category.ofTag? v }
  | .tool => do return { d with tool := ← some <$> Json.asText v }
  | .label => do return { d with label := ← some <$> Json.asText v }
  | .status => do return { d with status := ← some <$> Json.constant Status.ofTag? v }
  | .input => do return { d with input := ← some <$> Json.asOptional Json.asValue v }
  | .output => do return { d with output := ← some <$> Json.asOptional Json.asText v }
  | .durationMs => do return { d with durationMs := ← some <$> Json.asOptional Json.asNat v }

/-- The action of a draft; what may be absent is so when it is not given. -/
def finish (d : Draft) : Option Action := do
  let id ← d.id
  let category ← d.category
  let tool ← d.tool
  let label ← d.label
  let status ← d.status
  return { id, category, tool, label, status, timestamp := d.timestamp.getD none,
           input := d.input.getD none, output := d.output.getD none,
           durationMs := d.durationMs.getD none }

/-- How an action is laid out. In a list every field is needed. -/
def layout : Json.Layout Field Draft Action Json Mismatch where
  fieldOf := Field.ofName?
  fields := [.id, .timestamp, .category, .tool, .label, .status, .input, .output, .durationMs]
  store := store
  draft := {}
  finish := finish
  finishList d := if d.durationMs.isSome then finish d else none

end Action

namespace TimelineItem

/-- An item of a type, from what is left of its value besides the type. -/
def ofTagged (type : String) (rest : Json) : Except Mismatch TimelineItem :=
  match type with
  | "turn" => turn <$> Json.asRecord Turn.layout rest
  | "action" => action <$> Json.asRecord Action.layout rest
  | _ => .error .shape

/-- Reads an item: a record with its type as a member, or a list with its type in front. -/
def decode : Json → Except Mismatch TimelineItem
  | .record members =>
    match members.lookup "type" with
    | some (.text type) => ofTagged type (.record (members.filter fun m => m.1 != "type"))
    | _ => .error .shape
  | .list (.text type :: fields) => ofTagged type (.list fields)
  | _ => .error .shape

end TimelineItem

end Chronicle
