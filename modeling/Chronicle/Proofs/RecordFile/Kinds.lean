import Chronicle.Hook.Record
import Chronicle.Proofs.Json.Sources
import Chronicle.RecordFile
import Chronicle.Session.Record
import Chronicle.Thread

/-!
# Kinds of records

Files hold records of four kinds. Each kind is read at places in documents (`RecordKind.reader`) and
decoded from values (`RecordKind.decode`).

* `RecordKind.agrees_reader`: both give the same record. Records of hooks are decoded from the value
  of the whole tree; the others are decoded from the tree, which is laid out like the value.
-/

namespace Chronicle

open Json (Agrees LayoutsAlike Mismatch Node)

/-- What the records of a file are. -/
inductive RecordKind where
  | session
  | live
  | hook
  | thread
deriving DecidableEq, Repr

namespace RecordKind

abbrev Record : RecordKind → Type
  | session => SessionRecord
  | live => LiveEvent
  | hook => HookRecord
  | thread => ThreadRecord

def reader : (kind : RecordKind) → RecordFile.Reader kind.Record
  | session => fun node _ => SessionRecord.decode node
  | live => fun node _ => LiveEvent.decode node
  | hook => HookRecord.ofNode
  | thread => fun node _ => ThreadRecord.decode node

def decode : (kind : RecordKind) → Json → Except Mismatch kind.Record
  | session => SessionRecord.decode
  | live => LiveEvent.decode
  | hook => HookRecord.ofRaw
  | thread => ThreadRecord.decode

end RecordKind

/-! ## Fields -/

theorem agrees_decodeTimestamp {node : Node} {v : Json} (h : node.Shows v) :
    Agrees (Timestamp.decode node) (Timestamp.decode v) :=
  (Json.agrees_asOptional h (Json.agrees_asValue h)).map _

theorem agrees_decodeContent {node : Node} {v : Json} (h : node.Shows v) :
    Agrees (decodeContent node) (decodeContent v) :=
  (Json.agrees_asOptional h (Json.agrees_asText h)).map _

theorem agrees_decodeLoose {node : Node} {v : Json} (h : node.Shows v) :
    Agrees (Category.decodeLoose node) (Category.decodeLoose v) :=
  (Json.agrees_asOptional h (Json.agrees_asText h)).map _

/-! ## Layouts -/

theorem ThreadRecord.layoutsAlike :
    LayoutsAlike (ThreadRecord.layout : Json.Layout _ _ _ Node Nat) ThreadRecord.layout where
  store field node v d h := by
    have hname := Json.agrees_asOptional h (Json.agrees_asText h)
    cases field with
    | id => exact hname.bind_pure _
    | parent => exact hname.bind_pure _

theorem ToolCall.layoutsAlike :
    LayoutsAlike (ToolCall.layout : Json.Layout _ _ _ Node Nat) ToolCall.layout where
  store field node v d h := by
    cases field with
    | name => exact (Json.agrees_asText h).bind_pure _
    | input =>
      exact (Json.agrees_asOptional h (Json.agrees_asValue h)).bind_pure _
    | category => exact (agrees_decodeLoose h).bind_pure _

theorem ToolCall.agrees_decode {node : Node} {v : Json} (h : node.Shows v) :
    Agrees (ToolCall.decode node) (ToolCall.decode v) :=
  Json.agrees_asRecord layoutsAlike h

theorem SessionRecord.layoutsAlike :
    LayoutsAlike (SessionRecord.layout : Json.Layout _ _ _ Node Nat) SessionRecord.layout where
  store field node v d h := by
    cases field with
    | role => exact ((Json.agrees_asText h).map some).bind_pure _
    | content => exact (agrees_decodeContent h).bind_pure _
    | thinking =>
      exact (Json.agrees_asOptional h (Json.agrees_asText h)).bind_pure _
    | calls =>
      have hcalls := Json.agrees_asEach (fun _ _ _ _ hcall => ToolCall.agrees_decode hcall) h
      exact hcalls.bind_pure _
    | metadata =>
      exact (Json.agrees_asOptional h (Json.agrees_asValue h)).bind_pure _
    | timestamp => exact (agrees_decodeTimestamp h).bind_pure _
    | category => exact (agrees_decodeLoose h).bind_pure _

theorem LiveEvent.layoutsAlike :
    LayoutsAlike (LiveEvent.layout : Json.Layout _ _ _ Node Nat) LiveEvent.layout where
  store field node v d h := by
    have hvalue := Json.agrees_asOptional h (Json.agrees_asValue h)
    cases field with
    | kind => exact ((Json.agrees_asVariant h).map some).bind_pure _
    | content => exact (agrees_decodeContent h).bind_pure _
    | timestamp => exact (agrees_decodeTimestamp h).bind_pure _
    | tool =>
      exact (Json.agrees_asOptional h (Json.agrees_asText h)).bind_pure _
    | input => exact hvalue.bind_pure _
    | category =>
      exact (Json.agrees_asOptional h (Json.agrees_asVariant h)).bind_pure _
    | metadata => exact hvalue.bind_pure _

/-! ## Kinds -/

theorem HookRecord.agrees_ofNode {node : Node} {v : Json} (h : node.Shows v) (resume : Nat) :
    Agrees (HookRecord.ofNode node resume) (HookRecord.ofRaw v) := by
  unfold HookRecord.ofNode
  rw [h.value]
  show Agrees ((HookRecord.ofRaw v).mapError fun _ => resume) (HookRecord.ofRaw v)
  cases HookRecord.ofRaw v with
  | ok r => exact .ok r
  | error e => exact .error resume e

/-- **A record is read from a document as it is decoded from its value.** -/
theorem RecordKind.agrees_reader (kind : RecordKind) {node : Node} {v : Json} (h : node.Shows v)
    (resume : Nat) : Agrees (kind.reader node resume) (kind.decode v) := by
  cases kind with
  | session => exact Json.agrees_asRecord SessionRecord.layoutsAlike h
  | live => exact Json.agrees_asRecord LiveEvent.layoutsAlike h
  | hook => exact HookRecord.agrees_ofNode h resume
  | thread => exact Json.agrees_asRecord ThreadRecord.layoutsAlike h

end Chronicle
