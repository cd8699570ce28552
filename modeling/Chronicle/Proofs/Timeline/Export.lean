import Chronicle.Proofs.Json.Written
import Chronicle.Proofs.Time.Rereading
import Chronicle.Proofs.Timeline.Sources

/-!
# Timelines that are exported can be read back

An item is written with its type as one of the members, and what it does not have is left out. The
members that are left when the type is taken away are those of a turn or of an action, so the item can
be read from them. Two things are lost: a time that is not finite, and an input that is null.

* `Turn.decode_members`, `Action.decode_members`: what is read of the members besides the type.
* `TimelineItem.decode_toJson`, `decode_toJson_iff`: what any item is read as, and which items are read
  back as they were.
* `StemsFrom.input?`, `forall_exportable_iff`: the input of an item is that of its event, whatever comes
  later, so that a timeline is read back if nothing is lost of its events.
* `ReadBack`, `readBack`: the items of timelines are read back, and told apart as they are written.
-/

namespace Chronicle

open Json (told?)

theorem Json.constant_text {ofName : String → Option α} {name : String} {a : α}
    (h : ofName name = some a) : Json.constant ofName (.text name) = .ok a :=
  asVariant_text h

theorem getD_map_some (o : Option α) : (o.map some).getD none = o := by
  cases o <;> rfl

/-! ## Turns and actions -/

namespace Turn

def members (t : Turn) : List (String × Json) :=
  [("content", .text t.content), ("role", .text t.speaker.tag), ("timestamp", t.timestamp.toJson)]

def reread (t : Turn) : Turn := { t with timestamp := t.timestamp.writable }

theorem toJson_eq (t : Turn) : t.toJson = .record (t.members ++ [("type", .text "turn")]) := rfl

theorem stores_members (t : Turn) :
    Json.Stores layout [.content, .speaker, .timestamp] t.members {}
      ⟨some t.speaker, some t.content, some t.timestamp.writable⟩ := by
  refine .member rfl rfl ?_
  refine .member rfl (Json.bind_some_of_eq_ok (Json.constant_text t.speaker.ofTag?_tag) _) ?_
  exact .member rfl (Json.bind_some_of_eq_ok t.timestamp.asOptional_toJson _) (.nil _)

theorem decode_members (t : Turn) : Json.asRecord layout (.record t.members) = .ok t.reread :=
  Json.asRecord_of_stores _ _ t.stores_members (by decide) rfl

end Turn

namespace Action

def members (a : Action) : List (String × Json) :=
  ("category", .text a.category.tag) ::
    (Json.member? "duration_ms" (a.durationMs.map .ofNat) ++
    ("id", .ofNat a.id) ::
    (Json.member? "input" a.input ++
    ("label", .text a.label) ::
    (Json.member? "output" (a.output.map .text) ++
    [("status", .text a.status.tag), ("timestamp", a.timestamp.toJson),
      ("tool_name", .text a.tool)])))

def reread (a : Action) : Action :=
  { a with timestamp := a.timestamp.writable, input := a.input.bind told? }

theorem toJson_eq (a : Action) : a.toJson = .record (a.members ++ [("type", .text "action")]) := by
  simp only [toJson, members, List.append_assoc, List.cons_append, List.nil_append]

theorem stores_members (a : Action) :
    Json.Stores layout
      [.category, .durationMs, .id, .input, .label, .output, .status, .timestamp, .tool] a.members {}
      ⟨some a.id, some a.timestamp.writable, some a.category, some a.tool, some a.label,
        some a.status, a.input.map told?, a.output.map some, a.durationMs.map some⟩ := by
  refine .member rfl (Json.bind_some_of_eq_ok (Json.constant_text a.category.ofTag?_tag) _) ?_
  refine .optional (fun durationMs =>
      ⟨none, none, some a.category, none, none, none, none, none, durationMs.map some⟩)
    rfl rfl rfl (fun _ => rfl) ?_
  refine .member rfl rfl ?_
  refine .optionalValue (fun input =>
      ⟨some a.id, none, some a.category, none, none, none, input.map told?, none,
        a.durationMs.map some⟩)
    rfl rfl (fun v => Json.bind_some_of_eq_ok (Json.asOptional_asValue v) _) ?_
  refine .member rfl rfl ?_
  refine .optional (fun output =>
      ⟨some a.id, none, some a.category, none, some a.label, none, a.input.map told?,
        output.map some, a.durationMs.map some⟩)
    rfl rfl rfl (fun _ => rfl) ?_
  refine .member rfl (Json.bind_some_of_eq_ok (Json.constant_text a.status.ofTag?_tag) _) ?_
  refine .member rfl (Json.bind_some_of_eq_ok a.timestamp.asOptional_toJson _) ?_
  exact .member rfl rfl (.nil _)

theorem decode_members (a : Action) : Json.asRecord layout (.record a.members) = .ok a.reread := by
  refine Json.asRecord_of_stores _ _ a.stores_members (by decide) ?_
  have hinput : (a.input.map told?).getD none = a.input.bind told? := by
    cases a.input <;> rfl
  show some (Action.mk a.id a.timestamp.writable a.category a.tool a.label a.status
    ((a.input.map told?).getD none) ((a.output.map some).getD none)
    ((a.durationMs.map some).getD none)) = _
  rw [hinput, getD_map_some, getD_map_some]
  rfl

end Action

/-! ## Items -/

namespace TimelineItem

def reread : TimelineItem → TimelineItem
  | turn t => turn t.reread
  | action a => action a.reread

theorem decode_tagged {fields : List (String × Json)} (h : ∀ m ∈ fields, m.1 ≠ "type")
    (type : String) :
    decode (.record (fields ++ [("type", .text type)])) = ofTagged type (.record fields) := by
  have hlookup : (fields ++ [("type", Json.text type)]).lookup "type" = some (.text type) := by
    have hfields : fields.lookup "type" = none :=
      List.lookup_eq_none_iff.mpr fun m hm => bne_iff_ne.mpr (h m hm).symm
    rw [List.lookup_append, hfields, Option.none_or, List.lookup_cons_self]
  have hfilter : (fields ++ [("type", Json.text type)]).filter (fun m => m.1 != "type") = fields := by
    rw [List.filter_append, List.filter_eq_self.mpr fun m hm => bne_iff_ne.mpr (h m hm)]
    simp
  rw [decode, hlookup, hfilter]

/-- **An item is read again but for a null and for its time.** -/
theorem decode_toJson (item : TimelineItem) : decode item.toJson = .ok item.reread := by
  -- all other members are named for fields, and no field is named as the type is
  cases item with
  | turn t =>
    have hnames : ∀ m ∈ t.members, m.1 ≠ "type" := fun m hm htype =>
      t.stores_members.fieldOf_ne_none m hm (by rw [htype]; rfl)
    rw [toJson, t.toJson_eq, decode_tagged hnames, ofTagged, t.decode_members]
    rfl
  | action a =>
    have hnames : ∀ m ∈ a.members, m.1 ≠ "type" := fun m hm htype =>
      a.stores_members.fieldOf_ne_none m hm (by rw [htype]; rfl)
    rw [toJson, a.toJson_eq, decode_tagged hnames, ofTagged, a.decode_members]
    rfl

def input? (item : TimelineItem) : Option Json := item.action?.bind Action.input

/-- The items of which nothing is lost when they are written. -/
structure Exportable (item : TimelineItem) : Prop where
  finite : ∀ x ∈ item.timestamp, x.isFinite = true
  input : item.input? ≠ some .null

theorem reread_eq_self_iff (item : TimelineItem) : item.reread = item ↔ item.Exportable := by
  have hparts : item.Exportable ↔
      item.timestamp.writable = item.timestamp ∧ item.input?.bind told? = item.input? := by
    rw [Timestamp.writable_eq_self_iff, Json.bind_told?_eq_self_iff]
    exact ⟨fun h => ⟨h.finite, h.input⟩, fun h => ⟨h.1, h.2⟩⟩
  rw [hparts]
  cases item with
  | turn t =>
    obtain ⟨speaker, content, timestamp⟩ := t
    simp [reread, Turn.reread, TimelineItem.timestamp, input?, action?]
  | action a =>
    obtain ⟨id, timestamp, category, tool, label, status, input, output, durationMs⟩ := a
    simp [reread, Action.reread, TimelineItem.timestamp, input?, action?]

/-- **The items that are read back as they were** are those of which nothing is lost. -/
theorem decode_toJson_iff (item : TimelineItem) :
    decode item.toJson = .ok item ↔ item.Exportable := by
  rw [decode_toJson, Except.ok.injEq, reread_eq_self_iff]

theorem Exportable.eq_of_toJson_eq {item item' : TimelineItem} (h : item.Exportable)
    (h' : item'.Exportable) (hsame : item.toJson = item'.toJson) : item = item' := by
  have hread := item.decode_toJson_iff.mpr h
  rw [hsame, item'.decode_toJson_iff.mpr h'] at hread
  exact (Except.ok.inj hread).symm

end TimelineItem

/-! ## The items of events -/

/-- The value that an event's action shows as its input. -/
def Event.shownInput? (e : Event) : Option Json :=
  match e.payload with
  | .toolInvocation _ input => input
  | .progress _ => e.metadata
  | .system _ => e.metadata
  | _ => none

theorem TimelineItem.input?_forget (invoked : Bool) (item : TimelineItem) :
    (item.forget invoked).input? = item.input? := by
  cases item with
  | turn t => rfl
  | action a => cases invoked <;> rfl

theorem Event.input?_ownItem? {limits : Limits} {e : Event} {item : TimelineItem}
    (h : e.ownItem? limits = some item) : item.input? = e.shownInput? := by
  unfold ownItem? request at h
  unfold shownInput?
  cases hp : e.payload with
  | user =>
    simp only [hp, ownItem?_turnOf] at h
    obtain ⟨t, -, rfl⟩ := Option.map_eq_some_iff.mp h
    rfl
  | assistant =>
    simp only [hp, ownItem?_turnOf] at h
    obtain ⟨t, -, rfl⟩ := Option.map_eq_some_iff.mp h
    rfl
  | _ =>
    simp only [hp] at h
    cases h <;> rfl

theorem StemsFrom.input? {limits : Limits} {e : Event} {item : TimelineItem}
    (h : StemsFrom limits e item) : item.input? = e.shownInput? := by
  rw [← item.input?_forget e.isInvocation]
  exact Event.input?_ownItem? h

/-- Events of which a timeline loses nothing when it is written. -/
structure Event.Exportable (e : Event) : Prop where
  finite : ∀ x ∈ e.timestamp, x.isFinite = true
  input : e.input? ≠ some .null
  metadata : e.metadata ≠ some .null

instance (e : Event) : Decidable e.Exportable :=
  decidable_of_iff
    ((∀ x ∈ e.timestamp, x.isFinite = true) ∧ e.input? ≠ some .null ∧ e.metadata ≠ some .null)
    ⟨fun h => ⟨h.1, h.2.1, h.2.2⟩, fun h => ⟨h.finite, h.input, h.metadata⟩⟩

theorem Event.Exportable.shownInput? {e : Event} (h : e.Exportable) :
    e.shownInput? ≠ some .null := by
  have hinput := h.input
  unfold Event.input? at hinput
  unfold Event.shownInput?
  cases hp : e.payload with
  | toolInvocation tool input => simpa only [hp] using hinput
  | progress progress => exact h.metadata
  | system note => exact h.metadata
  | _ => simp

theorem IsItemOf.timestamp {e : Event} {item : TimelineItem} (h : IsItemOf e item) :
    item.timestamp = e.timestamp := by
  cases h with
  | turn t _ time => exact time
  | action a _ time => exact time

theorem StemsFrom.exportable_iff {limits : Limits} {e : Event} {item : TimelineItem}
    (h : StemsFrom limits e item) :
    item.Exportable ↔ (∀ x ∈ e.timestamp, x.isFinite = true) ∧ e.shownInput? ≠ some .null := by
  rw [← h.isItemOf.timestamp, ← h.input?]
  exact ⟨fun h => ⟨h.finite, h.input⟩, fun h => ⟨h.1, h.2⟩⟩

/-! ## Timelines -/

section timelines
variable {events : List Event}

theorem forall_exportable_iff (limits : Limits) (events : List Event) :
    (∀ item ∈ timelineOf limits events, item.Exportable) ↔
      ∀ e ∈ sources events,
        (∀ x ∈ e.timestamp, x.isFinite = true) ∧ e.shownInput? ≠ some .null :=
  forall_mem_iff_of_forall₂ (forall₂_stemsFrom limits events) fun _ _ h => h.exportable_iff

theorem exportable_of_mem_timelineOf {limits : Limits} {item : TimelineItem}
    (h : ∀ e ∈ events, e.Exportable) (hitem : item ∈ timelineOf limits events) : item.Exportable :=
  (forall_exportable_iff limits events).mpr
    (fun e he => ⟨(h e (List.mem_of_mem_filter he)).finite,
      (h e (List.mem_of_mem_filter he)).shownInput?⟩) item hitem

/-- The items of the timeline are read back as they were, and no two items, of this timeline or of
this one and another, are written alike. -/
structure ReadBack (limits : Limits) (events : List Event) : Prop where
  same : ∀ item ∈ timelineOf limits events, TimelineItem.decode item.toJson = .ok item
  apart (limits' : Limits) (events' : List Event) : (∀ e ∈ events', e.Exportable) →
    ∀ item ∈ timelineOf limits events, ∀ item' ∈ timelineOf limits' events',
      item.toJson = item'.toJson → item = item'

/-- **The timeline of events of which nothing is lost can be read back.** -/
theorem readBack (limits : Limits) (h : ∀ e ∈ events, e.Exportable) : ReadBack limits events where
  same item hitem := item.decode_toJson_iff.mpr (exportable_of_mem_timelineOf h hitem)
  apart _ _ h' _ hitem _ hitem' hsame :=
    (exportable_of_mem_timelineOf h hitem).eq_of_toJson_eq (exportable_of_mem_timelineOf h' hitem')
      hsame

end timelines

/-- A call that is answered, one that waits, a turn without a time and a note with metadata. -/
theorem readBack_waiting :
    ReadBack {}
      [⟨.toolInvocation "Read" (some (.record [("path", .text "a")])), "", some ⟨0x41D9000000000000⟩,
          none, none⟩,
        ⟨.toolInvocation "Bash" none, "", some ⟨0x41D9000000400000⟩, some .skill, none⟩,
        ⟨.toolOutcome, "error: no", some ⟨0x41D9000000800000⟩, none, none⟩,
        ⟨.user, "go on", none, none, none⟩,
        ⟨.system .compactBoundary, "", none, none,
          some (.record [("subtype", .text "compact_boundary")])⟩] :=
  readBack {} (by decide)

end Chronicle
