import Chronicle.Proofs.Json.Members
import Chronicle.Proofs.RecordFile.Kinds
import Chronicle.Proofs.Text.Line

/-!
# The two forms of a file

A file holds records as the items of one list or one on each line. Which form it has shows in its
first character that is not blank.

* `OneALine`: texts of which each line is one of the given texts between blanks, or blank.
* `readLines_of_oneALine`: such a text is read as the records of its lines, whatever the blanks.
* `forms_read_alike`: the same values are the same records in either form.
-/

namespace Chronicle.RecordFile

open Text

/-! ## Lines -/

/-- Blanks on one line. The carriage return before a line feed is one of them. -/
def IsGap (cs : List Char) : Prop := ∀ c ∈ cs, isBlank c = true ∧ c ≠ '\n'

/-- Each of the texts on a line of its own, with blanks around it, and blank lines anywhere. The last
line may end without a line feed. -/
inductive OneALine : List (List Char) → List Char → Prop where
  | rest {gap : List Char} : IsGap gap → OneALine [] gap
  | last {before text after : List Char} :
    IsGap before → IsGap after → OneALine [text] (before ++ text ++ after)
  | blank {gap : List Char} {texts : List (List Char)} {cs : List Char} :
    IsGap gap → OneALine texts cs → OneALine texts (gap ++ '\n' :: cs)
  | line {before text after : List Char} {texts : List (List Char)} {cs : List Char} :
    IsGap before → IsGap after → OneALine texts cs →
      OneALine (text :: texts) (before ++ text ++ after ++ '\n' :: cs)

/-- A text that fills a line up to blanks around it. -/
structure Fills (text : List Char) : Prop where
  feed : '\n' ∉ text
  trimmed : trim text = text
  nonempty : text ≠ []

instance (cs : List Char) : Decidable (IsGap cs) := List.decidableBAll _ cs

theorem IsGap.newline_notMem {gap : List Char} (h : IsGap gap) : '\n' ∉ gap :=
  fun hmem => (h _ hmem).2 rfl

theorem IsGap.trim {gap : List Char} (h : IsGap gap) : trim gap = [] :=
  trim_of_forall_isBlank fun c hc => (h c hc).1

theorem newline_notMem_between {before text after : List Char} (hbefore : IsGap before)
    (htext : '\n' ∉ text) (hafter : IsGap after) : '\n' ∉ before ++ text ++ after := by
  rw [List.mem_append, List.mem_append, not_or, not_or]
  exact ⟨⟨hbefore.newline_notMem, htext⟩, hafter.newline_notMem⟩

theorem trim_between {before text after : List Char} (hbefore : IsGap before) (htext : Fills text)
    (hafter : IsGap after) : trim (before ++ text ++ after) = text := by
  rw [trim_append_of_isBlank fun c hc => (hafter c hc).1, trim,
    trimStart_append_of_isBlank fun c hc => (hbefore c hc).1]
  exact htext.trimmed

/-! ## Reading lines -/

variable {α : Type} {read : Reader α}

theorem readLines_cons_of_blank {line : List Char} (h : trim line = []) (number : Nat)
    (more : List (List Char)) :
    readLines read number (line :: more) = readLines read (number + 1) more := by
  rw [readLines, h]
  rfl

theorem readLines_cons_of_record {line text : List Char} {record : α} (h : trim line = text)
    (hne : text ≠ []) (hread : readLine read text = some record) (number : Nat)
    (more : List (List Char)) :
    readLines read number (line :: more) =
      (readLines read (number + 1) more).map (record :: ·) := by
  have hfull : ¬ text.isEmpty = true := fun hempty => hne (List.isEmpty_iff.mp hempty)
  rw [readLines, h, if_neg hfull, hread]
  rfl

/-- **A text of one record on each line is read as these records.** -/
theorem readLines_of_oneALine {texts : List (List Char)} {cs : List Char} {records : List α}
    (h : OneALine texts cs) (hfills : ∀ text ∈ texts, Fills text)
    (hread : List.Forall₂ (fun text record => readLine read text = some record) texts records)
    (number : Nat) : readLines read number (linesOf cs) = .ok records := by
  induction h generalizing records number with
  | @rest gap hgap =>
    cases hread
    by_cases hnil : gap = []
    · rw [hnil]
      rfl
    · rw [linesOf_of_notMem hgap.newline_notMem hnil, readLines_cons_of_blank hgap.trim]
      rfl
  | @last before text after hbefore hafter =>
    obtain ⟨htext, -⟩ := List.forall_mem_cons.mp hfills
    cases hread with
    | cons hrecord hnone =>
      cases hnone
      have hfeed := newline_notMem_between hbefore htext.feed hafter
      have hne : before ++ text ++ after ≠ [] := by simp [htext.nonempty]
      rw [linesOf_of_notMem hfeed hne,
        readLines_cons_of_record (trim_between hbefore htext hafter) htext.nonempty hrecord]
      rfl
  | @blank gap texts cs hgap _ ih =>
    rw [linesOf_append_newline hgap.newline_notMem,
      readLines_cons_of_blank ((trim_withoutReturn gap).trans hgap.trim)]
    exact ih hfills hread (number + 1)
  | @line before text after texts cs hbefore hafter _ ih =>
    obtain ⟨htext, htexts⟩ := List.forall_mem_cons.mp hfills
    cases hread with
    | cons hrecord hrecords =>
      have htrim := (trim_withoutReturn _).trans (trim_between hbefore htext hafter)
      rw [linesOf_append_newline (newline_notMem_between hbefore htext.feed hafter),
        readLines_cons_of_record htrim htext.nonempty hrecord, ih htexts hrecords (number + 1)]
      rfl

/-! ## Telling the forms apart -/

theorem isList_of_spaced {ps : List Json.Printed} {t : Json.Token} {cs : List Char}
    (h : Json.Spaced (⟨['['], t⟩ :: ps) cs) : isList cs = true := by
  cases h with
  | @cons gap _ _ cs hgap _ =>
    have hblank : ∀ c ∈ gap, isBlank c = true := fun c hc => Json.isBlank_of_isSpace (hgap c hc)
    rw [isList, List.append_assoc, trimStart_append_of_isBlank hblank]
    rfl

/-- A text that opens something other than a list. -/
def OpensElse (text : List Char) : Prop :=
  ∃ c rest, text = c :: rest ∧ isBlank c = false ∧ c ≠ '['

theorem isList_between {before text : List Char} (hbefore : IsGap before) (htext : OpensElse text)
    (rest : List Char) : isList (before ++ (text ++ rest)) = false := by
  obtain ⟨c, more, rfl, hblank, hc⟩ := htext
  rw [isList, trimStart_append_of_isBlank fun c hc => (hbefore c hc).1, trimStart, List.cons_append,
    List.dropWhile_cons_of_neg (by simp [hblank])]
  simpa using hc

theorem isList_of_oneALine {texts : List (List Char)} {cs : List Char} (h : OneALine texts cs)
    (hopens : ∀ text ∈ texts, OpensElse text) : isList cs = false := by
  induction h with
  | @rest gap hgap =>
    have hnil : gap.dropWhile isBlank = [] :=
      List.dropWhile_eq_nil_iff.mpr fun c hc => (hgap c hc).1
    rw [isList, trimStart, hnil]
    rfl
  | last hbefore hafter =>
    rw [List.append_assoc]
    exact isList_between hbefore (hopens _ List.mem_cons_self) _
  | @blank gap texts cs hgap _ ih =>
    rw [isList, trimStart_append_of_isBlank fun c hc => (hgap c hc).1]
    exact ih hopens
  | line hbefore hafter =>
    rw [List.append_assoc, List.append_assoc]
    exact isList_between hbefore (hopens _ List.mem_cons_self) _

/-! ## Printed records -/

theorem fills_record (members : List (String × Json)) :
    Fills (Json.compactChars (.record members)) where
  feed := Json.newline_notMem_compactChars _
  trimmed := by
    have hopen : isBlank '\x7b' = false := rfl
    have hclose : isBlank '\x7d' = false := rfl
    have hfirst := trim_append_cons hopen [] (Json.compactMembers members ++ ['\x7d'])
    rw [trimEnd_append_cons hclose] at hfirst
    exact hfirst
  nonempty := List.cons_ne_nil _ _

theorem opensElse_record (members : List (String × Json)) :
    OpensElse (Json.compactChars (.record members)) :=
  ⟨'\x7b', _, rfl, rfl, by decide⟩

theorem readLine_compactChars (kind : RecordKind) {v : Json} {record : kind.Record}
    (hback : Json.parse (Json.compactChars v) = some v) (hdecode : kind.decode v = .ok record) :
    readLine kind.reader (Json.compactChars v) = some record := by
  obtain ⟨hcanonical, hdepth⟩ := (Json.parse_eq_some_iff (Json.spaced_compactChars v)).mp hback
  obtain ⟨node, hdocument, hspells⟩ := Json.exists_ofText_of_spaced (Json.spaced_compactChars v)
  have hshows : node.Shows v := ⟨0, hspells, hcanonical, by omega⟩
  rw [readLine, hdocument, Json.Document.read, (kind.agrees_reader hshows 0).ok_left hdecode]
  rfl

/-! ## Both forms -/

section

variable (kind : RecordKind) {objects : List Json} {records : List kind.Record}
  (hback : ∀ v ∈ objects, Json.parse (Json.compactChars v) = some v)
  (hdecode : List.Forall₂ (fun v record => kind.decode v = .ok record) objects records)

include hback hdecode

theorem readText_of_oneALine (hrecord : ∀ v ∈ objects, ∃ members, v = .record members)
    {text : String} (h : OneALine (objects.map Json.compactChars) text.toList) :
    readText kind.reader text = .ok records := by
  have hfills : ∀ text ∈ objects.map Json.compactChars, Fills text := by
    intro text htext
    obtain ⟨v, hv, rfl⟩ := List.mem_map.mp htext
    obtain ⟨members, rfl⟩ := hrecord v hv
    exact fills_record members
  have hopens : ∀ text ∈ objects.map Json.compactChars, OpensElse text := by
    intro text htext
    obtain ⟨v, hv, rfl⟩ := List.mem_map.mp htext
    obtain ⟨members, rfl⟩ := hrecord v hv
    exact opensElse_record members
  have hread : List.Forall₂ (fun text record => readLine kind.reader text = some record)
      (objects.map Json.compactChars) records := by
    have hobjects := (List.forall₂_and_left _ _).mpr ⟨hback, hdecode⟩
    exact List.forall₂_map_left_iff.mpr <|
      hobjects.imp fun v record h => readLine_compactChars kind h.1 h.2
  rw [readText, isList_of_oneALine h hopens, if_neg Bool.false_ne_true]
  exact readLines_of_oneALine h hfills hread 1

theorem readText_of_spaced (hdepth : ∀ v ∈ objects, v.depth ≤ 126) {text : String}
    (h : Json.Spaced (Json.printed (.list objects)) text.toList) :
    readText kind.reader text = .ok records := by
  obtain ⟨root, hdocument, hspells⟩ := Json.exists_ofText_of_spaced h
  have hcanonical : Json.Canonical (.list objects) := by
    refine Json.itemsCanonical_iff.mpr fun v hv => ?_
    exact ((Json.parse_eq_some_iff (Json.spaced_compactChars v)).mp (hback v hv)).1
  have hitems : Json.itemsDepth objects ≤ 126 := Json.itemsDepth_le_iff.mpr hdepth
  have hshows : root.Shows (.list objects) := by
    refine ⟨0, hspells, hcanonical, ?_⟩
    rw [Json.depth, Json.depthLimit]
    omega
  have hvalue := Json.asEach_list hdecode
  have hread : Json.asEach kind.reader root = .ok records :=
    (Json.agrees_asEach (fun _ _ _ _ h => kind.agrees_reader h _) hshows).ok_left hvalue
  rw [readText, isList_of_spaced h, if_pos rfl, hdocument, Json.Document.read, hread]
  rfl

end

theorem readBytes_toUTF8 (text : String) : readBytes read text.toUTF8 = readText read text := by
  have hvalid : String.fromUTF8? text.toUTF8 = some text := dif_pos text.isValidUTF8
  rw [readBytes, hvalid]

/-- **The same values are the same records in either form of a file.** -/
theorem forms_read_alike (kind : RecordKind) {objects : List Json} {records : List kind.Record}
    (hrecord : ∀ v ∈ objects, ∃ members, v = .record members)
    (hdepth : ∀ v ∈ objects, v.depth ≤ 126)
    (hback : ∀ v ∈ objects, Json.parse (Json.compactChars v) = some v)
    (hdecode : List.Forall₂ (fun v record => kind.decode v = .ok record) objects records)
    {array lines : String} (harray : Json.Spaced (Json.printed (.list objects)) array.toList)
    (hlines : OneALine (objects.map Json.compactChars) lines.toList) :
    readBytes kind.reader array.toUTF8 = .ok records ∧
      readBytes kind.reader lines.toUTF8 = .ok records := by
  rw [readBytes_toUTF8, readBytes_toUTF8]
  exact ⟨readText_of_spaced kind hback hdecode hdepth harray,
    readText_of_oneALine kind hback hdecode hrecord hlines⟩

/-- Two records of a session, the first with a text that holds a line feed and a bracket. One file
lists them over several lines; the other has a blank line, lines of either ending and blanks. -/
theorem forms_read_alike_session :
    let said : Json := .record [("content", .text "a\n["), ("role", .text "user")]
    let called : Json :=
      .record [("role", .text "agent"),
        ("tool_calls", .list [.record [("input", .list [.number (.int 1)]), ("name", .text "Read")]])]
    let records : List SessionRecord :=
      [{ role := "user", content := "a\n[" },
        { role := "agent", calls := [{ name := "Read", input := some (.list [.number (.int 1)]) }] }]
    let array := Json.pretty (.list [said, called])
    let lines := String.ofList
      (['\t'] ++ Json.compactChars said ++ ['\r'] ++ '\n' :: ([' '] ++ '\n' ::
        ([] ++ Json.compactChars called ++ ['\u3000'])))
    readBytes RecordKind.session.reader array.toUTF8 = .ok records ∧
      readBytes RecordKind.session.reader lines.toUTF8 = .ok records := by
  intro said called records array lines
  have harray : Json.Spaced (Json.printed (.list [said, called])) array.toList := by
    have hchars : array.toList = Json.prettyChars 0 (.list [said, called]) := String.toList_ofList
    rw [hchars]
    exact Json.spaced_prettyChars _ 0
  have hlines : OneALine ([said, called].map Json.compactChars) lines.toList := by
    rw [String.toList_ofList]
    exact .line (by decide) (by decide) (.blank (by decide) (.last (by decide) (by decide)))
  have hrecord : ∀ v ∈ [said, called], ∃ members, v = .record members := by
    simp [said, called]
  have hback : ∀ v ∈ [said, called], Json.parse (Json.compactChars v) = some v := by
    decide +kernel
  exact forms_read_alike .session hrecord (by decide) hback (.cons rfl (.cons rfl .nil)) harray hlines

end Chronicle.RecordFile
