import Chronicle.Proofs.Timeline.Quoting
import Chronicle.Report.Text
import Chronicle.Session.Events

/-!
# Lines of a report

A report gives every item a line of its own unless a label breaks it.

* `oneLine_renderLine`: the line of an item is one exactly if the label is.
* `lineCount_printed`: the lines of what is printed, with those that line feeds add.
* `oneLine_renderLine_iff`: what events make lines that break, and what that does to a report.
-/

namespace Chronicle

open Text (OneLine oneLine_append oneLine_ofList lineCount linesOf)

/-! ## The line of an item -/

theorem oneLine_padded (width : Nat) (text : String) : OneLine (padded width text) ↔ OneLine text := by
  have hfill : OneLine (String.ofList (List.replicate (width - text.length) ' ')) := by
    rw [oneLine_ofList]
    intro h
    exact absurd (List.eq_of_mem_replicate h) (by decide)
  simp [padded, hfill]

theorem oneLine_flattened (text : String) : OneLine (flattened text) := by
  rw [flattened, oneLine_ofList, List.mem_map]
  rintro ⟨c, -, hc⟩
  split at hc
  · cases hc
  · rename_i hne
    exact hne (beq_iff_eq.mpr hc)

theorem oneLine_clock (t : Timestamp) : OneLine t.clock := by
  have hdigits (n : Nat) : '\n' ∉ Timestamp.twoDigits n := by
    have hdigit (k : Nat) (hk : k < 10) : '\n' ≠ Nat.digitChar k := by
      decide +revert
    have h1 := hdigit (n / 10 % 10) (by omega)
    have h2 := hdigit (n % 10) (by omega)
    simp [Timestamp.twoDigits, h1, h2]
  rw [Timestamp.clock]
  split
  · decide
  · dsimp only
    split
    · rw [oneLine_ofList]
      simp [hdigits]
    · decide

theorem Category.oneLine_tag (category : Category) : OneLine category.tag := by
  cases category <;> decide

theorem Status.oneLine_word (status : Status) : OneLine status.word := by
  cases status <;> decide

theorem Turn.oneLine_line (t : Turn) : OneLine t.line := by
  have hspeaker : OneLine t.speaker.tag := by cases t.speaker <;> decide
  have hmark : OneLine " > " := by decide
  simp [line, oneLine_padded, oneLine_flattened, hspeaker, hmark]

theorem oneLine_durationNote (millis : Nat) : OneLine (durationNote millis) := by
  have hopen : OneLine " (" := by decide
  have hclose : OneLine " ms)" := by decide
  simp [durationNote, Text.oneLine_digits, hopen, hclose]

theorem Action.oneLine_line (a : Action) : OneLine a.line ↔ OneLine a.label := by
  have hspace : OneLine " " := by decide
  have hduration : OneLine ((a.durationMs.map durationNote).getD "") := by
    cases a.durationMs with
    | none => decide
    | some millis => exact oneLine_durationNote millis
  simp [line, oneLine_padded, Category.oneLine_tag, Status.oneLine_word, hspace, hduration]

theorem oneLine_renderLine (showTimestamps : Bool) (item : TimelineItem) :
    OneLine (renderLine showTimestamps item) ↔ ∀ label ∈ item.label?, OneLine label := by
  have hspace : OneLine " " := by decide
  have hline : OneLine item.line ↔ ∀ label ∈ item.label?, OneLine label := by
    cases item with
    | turn t => exact iff_of_true t.oneLine_line (by simp)
    | action a =>
      rw [TimelineItem.line, a.oneLine_line]
      simp
  rw [renderLine]
  split
  · simp [oneLine_clock, hspace, hline]
  · exact hline

/-! ## What is printed -/

theorem lineCount_printed (lines : List String) :
    lineCount (printed lines) = lines.length + (lines.flatMap String.toList).count '\n' := by
  rw [lineCount, printed, String.toList_join]
  induction lines with
  | nil => rfl
  | cons l lines ih =>
    have hend : "\n".toList = ['\n'] := by decide
    rw [List.map_cons, List.flatMap_cons, String.toList_append, List.append_assoc, hend,
      List.singleton_append, Text.length_linesOf_append, ih, List.flatMap_cons, List.count_append,
      List.length_cons]
    omega

theorem lineCount_printed_eq_iff (lines : List String) :
    lineCount (printed lines) = lines.length ↔ ∀ l ∈ lines, OneLine l := by
  rw [lineCount_printed, Nat.add_eq_left, List.count_eq_zero]
  simp [OneLine]

/-! ## Reports of events -/

theorem Event.quoted_of_not_leavesItem (limits : Limits) {e : Event} (h : e.leavesItem = false) :
    e.quoted limits = [] := by
  unfold leavesItem kind at h
  unfold quoted
  cases hp : e.payload <;> simp [hp] at h ⊢

/-- **The lines of a timeline break exactly at line feeds that labels take over**, and a report has a
line for each item that it shows exactly if none of their lines breaks. -/
theorem oneLine_renderLine_iff (limits : Limits) (showTimestamps : Bool) (events : List Event) :
    ((∀ item ∈ timelineOf limits events, OneLine (renderLine showTimestamps item)) ↔
      ∀ e ∈ events, ∀ text ∈ e.quoted limits, OneLine text) ∧
    ∀ chosen,
      lineCount (timelineText showTimestamps (select chosen (timelineOf limits events))) =
          (select chosen (timelineOf limits events)).length ↔
        ∀ item ∈ select chosen (timelineOf limits events),
          OneLine (renderLine showTimestamps item) := by
  constructor
  · rw [forall_mem_iff_of_forall₂ (forall₂_stemsFrom limits events)
      (P := fun e => ∀ text ∈ e.quoted limits, OneLine text)]
    · constructor
      · intro h e he
        cases hleaves : e.leavesItem with
        | true => exact h e (List.mem_filter.mpr ⟨he, hleaves⟩)
        | false => simp [Event.quoted_of_not_leavesItem limits hleaves]
      · intro h e he
        exact h e (List.mem_of_mem_filter he)
    · intro e item hitem
      rw [oneLine_renderLine, ← item.label?_forget e.isInvocation]
      exact Event.oneLine_label_iff hitem
  · intro chosen
    have hprinted := lineCount_printed_eq_iff
      ((select chosen (timelineOf limits events)).map (renderLine showTimestamps))
    rwa [List.length_map, List.forall_mem_map] at hprinted

/-- A call whose pattern runs over two lines. -/
def searchForTwoLines : SessionRecord where
  role := "tool_use"
  calls := [{ name := "Grep", input := some (.record [("pattern", .text "a\nb")]) }]

theorem not_forall_oneLine_renderLine :
    ¬ ∀ (limits : Limits) (showTimestamps : Bool) (records : List SessionRecord),
      ∀ item ∈ timelineOf limits (sessionEvents records),
        OneLine (renderLine showTimestamps item) := by
  intro h
  have hline := h {} false [searchForTwoLines]
  revert hline
  decide +kernel

end Chronicle
