import Chronicle.Event.Live
import Chronicle.Json.Printer

/-!
# Hook records

The hook history stores one record for each call of a hook. A record is kept as it was read, next to
the fields that are used.

* `HookRecord.ofRaw`: the fields of a stored value.
* `HookRecord.sort`: by time and then by id, records without a time last.
* `HookRecord.toEvent`, `HookRecord.ofEvent?`: the event of a record and back.
-/

namespace Chronicle

open Json (Mismatch)

/-- The record of a hook's call. -/
structure HookRecord where
  id : String
  timestamp : Timestamp := none
  event : String
  tool : Option String := none
  label : String := ""
  group : String := ""
  context : Option Json := none
  /-- The record as it was read. -/
  raw : Json
deriving DecidableEq

namespace HookRecord

/-! ## Reading -/

inductive Field where
  | id
  | timestamp
  | event
  | tool
  | label
  | group
  | context
deriving DecidableEq, Repr

def Field.ofName? : String → Option Field
  | "id" => some id
  | "timestamp" => some timestamp
  | "event_name" => some event
  | "tool_name" => some tool
  | "label" => some label
  | "group" => some group
  | "context" => some context
  | _ => none

/-- A record of which the id and the event may still be missing. -/
structure Draft where
  id : Option String := none
  timestamp : Timestamp := none
  event : Option String := none
  tool : Option String := none
  label : String := ""
  group : String := ""
  context : Option Json := none

/-- An id is a text or a number, which is kept as it is written. -/
def decodeId : Json → Except Mismatch String
  | .text s => .ok s
  | .number n => .ok (String.ofList (Json.numberText n))
  | other => .error (.refused ("hook id must be a string or number, got " ++ other.compact))

def store (field : Field) (v : Json) (d : Draft) : Except Mismatch Draft :=
  match field with
  | .id => do return { d with id := ← some <$> decodeId v }
  | .timestamp => do return { d with timestamp := ← Timestamp.decode v }
  | .event => do return { d with event := ← some <$> Json.asText v }
  | .tool => do return { d with tool := ← Json.asOptional Json.asText v }
  | .label => do return { d with label := ← Json.asText v }
  | .group => do return { d with group := ← Json.asText v }
  | .context => do return { d with context := ← Json.asOptional Json.asValue v }

/-- How a stored record is laid out. The id and the event are needed. -/
def layout (raw : Json) : Json.Layout Field Draft HookRecord Json Mismatch where
  fieldOf := Field.ofName?
  fields := [.id, .timestamp, .event, .tool, .label, .group, .context]
  store := store
  draft := {}
  finish d := do
    let id ← d.id
    let event ← d.event
    return { id, event, timestamp := d.timestamp, tool := d.tool, label := d.label,
             group := d.group, context := d.context, raw }

def ofRaw (raw : Json) : Except Mismatch HookRecord := Json.asRecord (layout raw) raw

/-- The record at a place in a document. Its fields are judged once the whole value has been read,
so what is wrong with them is reported as `resume`. -/
def ofNode (node : Json.Node) (resume : Nat) : Except Nat HookRecord := do
  let raw ← node.value
  (ofRaw raw).mapError fun _ => resume

/-! ## Order -/

/-- By time, missing times last, and then by id. -/
protected def compare (a b : HookRecord) : Ordering :=
  (a.timestamp.compare b.timestamp).then (compare a.id b.id)

/-- Records in order; those equal in time and id stay as they were. -/
def sort (records : List HookRecord) : List HookRecord :=
  records.mergeSort fun a b => (a.compare b).isLE

/-! ## Events -/

/-- The event of a record. It carries the record whole, and time zero stands for a missing time. -/
def toEvent (r : HookRecord) : Event where
  payload := .hook r.tool r.context
  content := "Hook: " ++ r.event ++ " — " ++ r.label
  timestamp := some (r.timestamp.getD .zero)
  category := some .hook
  metadata := some (.record [(hookMember, r.raw)])

def ofEvent? (e : Event) : Option HookRecord := do
  let data ← e.metadata
  let raw ← data.get? hookMember
  (ofRaw raw).toOption

/-- Whether two records are equal as numbers and texts; a NaN equals nothing. -/
def agree (a b : HookRecord) : Bool :=
  a == b && !a.timestamp.any Binary64.isNaN

end HookRecord

end Chronicle
