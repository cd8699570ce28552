import Chronicle.Proofs.Json.Tree
import Chronicle.Proofs.Text.Line
import Chronicle.Report.Text

/-!
# Shape and language

The shape of a text is tried as JSON before it is tried as a patch, its language the other way
round. A text that is both is a JSON document of which many lines look like lines of a patch, and
those are lines that begin with a negative number.

* `isPatchLine_of_holdsJson`: no line of a JSON document begins with a plus, two minuses or two
  at signs.
* `listsNegatives`, `isPatch_of_holdsJson`: which JSON documents are taken for patches.
* `ToldAlike`, `toldAlike`: what the language of a text is, given its shape.
-/

namespace Chronicle.Content

open Text

/-- Of three lines or more that are not all blank, three tenths begin with a minus. -/
def listsNegatives (text : String) : Bool :=
  let lines := visibleLines text.toList
  3 ≤ (linesOf text.toList).length && isShare 3 (lines.countP fun line => line.head? = some '-')
    lines.length

/-! ## Starts of lines -/

theorem exists_line_start {cs line : List Char} (h : line ∈ linesOf cs) :
    ∃ before after, cs = before ++ (line ++ after) ∧
      (before = [] ∨ ∃ front, before = front ++ ['\n']) := by
  obtain ⟨first, more, hlines⟩ := List.exists_cons_of_ne_nil (List.ne_nil_of_mem h)
  obtain ⟨⟨after, hfirst⟩, hmore⟩ := prefix_of_linesOf_eq_cons hlines
  rw [hlines] at h
  rcases List.mem_cons.mp h with rfl | h
  · exact ⟨[], after, hfirst.symm, .inl rfl⟩
  · obtain ⟨before, after, hcs⟩ := hmore line h
    exact ⟨before ++ ['\n'], after, by simpa using hcs, .inr ⟨before, rfl⟩⟩

theorem trimStart_of_line_start {before : List Char}
    (h : before = [] ∨ ∃ front, before = front ++ ['\n']) :
    trimStart before = [] ∨ ∃ front, trimStart before = front ++ ['\n'] := by
  rcases h with rfl | ⟨front, rfl⟩
  · exact .inl rfl
  · rw [trimStart, List.dropWhile_append]
    split
    · exact .inl rfl
    · exact .inr ⟨_, rfl⟩

/-! ## Blank texts -/

theorem visibleLines_ne_nil {cs : List Char} {c : Char} (hmem : c ∈ cs) (hc : isBlank c = false) :
    visibleLines cs ≠ [] := by
  obtain ⟨line, hline, hvisible⟩ := exists_visible_mem_linesOf hmem hc
  exact List.ne_nil_of_mem (List.mem_filter.mpr ⟨hline, by rw [hvisible]; rfl⟩)

theorem allBlank_of_isPatch {text : String} (h : isPatch text = true) : allBlank text = false := by
  rw [← Bool.not_eq_true]
  intro hblank
  have hall : ∀ c ∈ text.toList, isBlank c = true := List.all_eq_true.mp hblank
  unfold isPatch at h
  simp only [Bool.or_eq_true, Bool.and_eq_true] at h
  rcases h with hopen | ⟨⟨-, hlines⟩, -⟩
  · obtain ⟨start, hstart, hbegins⟩ := List.any_eq_true.mp hopen
    have hopenings : patchOpenings.all fun start => start.toList.any fun c => !isBlank c := by decide
    obtain ⟨c, hc, hvisible⟩ := List.any_eq_true.mp (List.all_eq_true.mp hopenings start hstart)
    have hbegin : start.toList <+: text.toList := List.isPrefixOf_iff_prefix.mp hbegins
    rw [hall c (hbegin.subset hc)] at hvisible
    cases hvisible
  · obtain ⟨line, hline⟩ := List.exists_mem_of_ne_nil (visibleLines text.toList) (by simpa using hlines)
    obtain ⟨hline, hvisible⟩ := List.mem_filter.mp hline
    obtain ⟨before, after, htext, -⟩ := exists_line_start hline
    have hblankline : line.all isBlank = true := by
      rw [List.all_eq_true]
      exact fun c hc => hall c (by simp [htext, hc])
    rw [hblankline] at hvisible
    cases hvisible

/-! ## JSON documents -/

section
variable {text : String} (h : holdsJson text = true)
include h

theorem exists_of_holdsJson :
    (∃ c more, trim text.toList = c :: more ∧ (c = '\x7b' ∨ c = '[')) ∧
      (Json.parse (trim text.toList)).isSome := by
  unfold holdsJson at h
  simp only at h
  split at h
  · rename_i c d more htrim
    simp only [Bool.and_eq_true, Bool.or_eq_true, beq_iff_eq] at h
    exact ⟨⟨c, d :: more, htrim, h.1⟩, h.2⟩
  · cases h

/-- What is not blank at the start of a line of a document opens the document, or is read where no
token is under way. -/
theorem isSome_scan_of_line_start {before after : List Char} {c : Char}
    (htext : text.toList = before ++ c :: after) (hc : isBlank c = false)
    (hstart : before = [] ∨ ∃ front, before = front ++ ['\n']) :
    (c = '\x7b' ∨ c = '[') ∨ (Json.scan .between (c :: trimEnd after)).isSome := by
  obtain ⟨⟨d, more, htrim, hd⟩, hparse⟩ := exists_of_holdsJson h
  have hscan := Json.isSome_scan_of_parse hparse
  rw [htext, trim_append_cons hc] at htrim hscan
  rcases trimStart_of_line_start hstart with hnil | ⟨front, hfront⟩
  · rw [hnil] at htrim
    cases htrim
    exact .inl hd
  · rw [hfront, List.append_assoc] at hscan
    have hplain : Json.Mode.between.Plain := trivial
    exact .inr (Json.isSome_scan_between_of_append hplain hscan)

theorem not_line_start {before after : List Char} {c : Char}
    (htext : text.toList = before ++ c :: after)
    (hstart : before = [] ∨ ∃ front, before = front ++ ['\n']) :
    c ∉ ['+', '@', 'd', 'I'] := by
  intro hmem
  have hc : isBlank c = false ∧ c ≠ '\x7b' ∧ c ≠ '[' ∧ Json.stepBetween c = .broken := by
    simp only [List.mem_cons, List.not_mem_nil, or_false] at hmem
    rcases hmem with rfl | rfl | rfl | rfl <;> exact ⟨by decide, by decide, by decide, rfl⟩
  obtain ⟨hblank, hrecord, hlist, hbroken⟩ := hc
  rcases isSome_scan_of_line_start h htext hblank hstart with hopen | hscan
  · exact hopen.elim hrecord hlist
  · rw [Json.scan_between_cons, hbroken] at hscan
    cases hscan

theorem not_line_start_two_minuses {before after : List Char}
    (htext : text.toList = before ++ '-' :: '-' :: after)
    (hstart : before = [] ∨ ∃ front, before = front ++ ['\n']) : False := by
  rcases isSome_scan_of_line_start h htext (by decide) hstart with hopen | hscan
  · exact absurd hopen (by decide)
  · rw [trimEnd_cons (by decide) after] at hscan
    cases hscan

/-- **A line of a document looks like a line of a patch exactly if it begins with a minus.** -/
theorem isPatchLine_of_holdsJson {line : List Char} (hline : line ∈ linesOf text.toList) :
    isPatchLine line = decide (line.head? = some '-') := by
  obtain ⟨before, after, htext, hstart⟩ := exists_line_start hline
  cases line with
  | nil => rfl
  | cons c line =>
    have hfirst := not_line_start h htext hstart
    have hplus : c ≠ '+' := fun hc => hfirst (by simp [hc])
    have hat : c ≠ '@' := fun hc => hfirst (by simp [hc])
    by_cases hminus : c = '-'
    · subst hminus
      cases line with
      | nil => rfl
      | cons d line =>
        have hd : d ≠ '-' := by
          rintro rfl
          exact not_line_start_two_minuses h htext hstart
        have hsecond : ['-'].isPrefixOf (d :: line) = false := by
          rw [List.isPrefixOf_cons_cons, beq_false_of_ne (Ne.symm hd), Bool.false_and]
        simpa [isPatchLine, beginsWith] using hsecond
    · have hbegins (start : String) (hmem : start ∈ ["@@", "+", "-"]) :
          beginsWith start (c :: line) = false := by
        simp only [List.mem_cons, List.not_mem_nil, or_false] at hmem
        rcases hmem with rfl | rfl | rfl
        · exact beginsWith_cons_of_ne rfl (Ne.symm hat)
        · exact beginsWith_cons_of_ne rfl (Ne.symm hplus)
        · exact beginsWith_cons_of_ne rfl (Ne.symm hminus)
      rw [isPatchLine, hbegins "@@" (by simp), hbegins "+" (by simp), hbegins "-" (by simp)]
      simp [hminus]

theorem not_beginsWith_patchOpenings :
    patchOpenings.any (beginsWith · text.toList) = false := by
  have hfirst : ([] : List Char) = [] ∨ ∃ front, ([] : List Char) = front ++ ['\n'] := .inl rfl
  rw [List.any_eq_false]
  intro start hstart hbegins
  obtain ⟨after, htext⟩ := List.isPrefixOf_iff_prefix.mp hbegins
  have hletter {c : Char} {rest : List Char} (hrest : start.toList = c :: rest)
      (hc : c ∈ ['+', '@', 'd', 'I']) : False := by
    rw [hrest] at htext
    exact not_line_start h htext.symm hfirst hc
  simp only [patchOpenings, List.mem_cons, List.not_mem_nil, or_false] at hstart
  rcases hstart with rfl | rfl | rfl | rfl | rfl
  · exact hletter rfl (by decide)
  · exact not_line_start_two_minuses h htext.symm hfirst
  · exact hletter rfl (by decide)
  · exact hletter rfl (by decide)
  · exact hletter rfl (by decide)

/-- **Which documents are taken for patches.** -/
theorem isPatch_of_holdsJson : isPatch text = listsNegatives text := by
  have hcount : (visibleLines text.toList).countP isPatchLine =
      (visibleLines text.toList).countP fun line => line.head? = some '-' := by
    apply List.countP_congr
    intro line hline
    rw [isPatchLine_of_holdsJson h (List.mem_filter.mp hline).1]
  have hvisible : (visibleLines text.toList).isEmpty = false := by
    obtain ⟨⟨c, more, htrim, hc⟩, -⟩ := exists_of_holdsJson h
    have hmem : c ∈ text.toList := mem_of_mem_trim (htrim ▸ List.mem_cons_self)
    have hblank : isBlank c = false := by
      rcases hc with rfl | rfl <;> decide
    exact List.isEmpty_eq_false_iff.mpr (visibleLines_ne_nil hmem hblank)
  unfold isPatch listsNegatives
  simp only [not_beginsWith_patchOpenings h, hcount, hvisible, Bool.false_or, Bool.not_false,
    Bool.and_true]

end

/-! ## The guess -/

theorem guess_of_isPatch {text : String} (h : isPatch text = true) :
    Language.guess text = .diff := by
  have hshows : Language.shows text .diff = true := h
  rw [Language.guess, allBlank_of_isPatch h, if_neg Bool.false_ne_true, Language.battery,
    List.find?_cons_of_pos hshows, Option.getD_some]

theorem guess_of_holdsJson {text : String} (h : holdsJson text = true)
    (hpatch : isPatch text = false) : Language.guess text = .json := by
  have hblank : allBlank text = false := by
    obtain ⟨⟨c, more, htrim, hc⟩, -⟩ := exists_of_holdsJson h
    rw [← Bool.not_eq_true]
    intro hblank
    rw [trim_of_forall_isBlank (List.all_eq_true.mp hblank)] at htrim
    cases htrim
  have hdiff : ¬ Language.shows text .diff = true := Bool.eq_false_iff.mp hpatch
  have hshows : Language.shows text .json = true := h
  rw [Language.guess, hblank, if_neg Bool.false_ne_true, Language.battery,
    List.find?_cons_of_neg hdiff, List.find?_cons_of_pos hshows, Option.getD_some]

/-- What the language of a text is, given its shape. -/
structure ToldAlike (text : String) : Prop where
  diff : Shape.of text = .diff → Language.guess text = .diff
  /-- JSON is told as JSON, unless the lines of the document look like those of a patch. -/
  json : Shape.of text = .json →
    Language.guess text = if listsNegatives text then .diff else .json
  /-- An inspection tells the language of the text itself. -/
  inspected : (Inspection.of text).shape = .diff ∨ (Inspection.of text).shape = .json →
    (Inspection.of text).language = Language.guess text

theorem shape_of_diff {text : String} (h : Shape.of text = .diff) : isPatch text = true := by
  unfold Shape.of at h
  split at h
  · cases h
  · split at h
    · assumption
    · split at h <;> cases h

theorem shape_of_json {text : String} (h : Shape.of text = .json) : holdsJson text = true := by
  unfold Shape.of at h
  split at h
  · assumption
  · split at h
    · cases h
    · split at h <;> cases h

/-- **Shape and language agree**, but for documents that list negative numbers line by line. -/
theorem toldAlike (text : String) : ToldAlike text := by
  constructor
  · exact fun h => guess_of_isPatch (shape_of_diff h)
  · intro h
    have hjson := shape_of_json h
    have hlists := isPatch_of_holdsJson hjson
    split
    · rename_i hyes
      exact guess_of_isPatch (hlists.trans hyes)
    · rename_i hno
      exact guess_of_holdsJson hjson (by rw [hlists]; exact Bool.eq_false_iff.mpr hno)
  · intro h
    have hshape : Shape.of text ≠ .lineNumbered := by
      intro hnumbered
      rw [Inspection.shape_of, hnumbered] at h
      exact absurd h (by decide)
    rw [Inspection.language_of, if_neg hshape]

/-- A list of one negative number, laid out on three lines, is JSON and is guessed to be a patch. -/
theorem not_forall_guess_of_shape :
    ¬ ∀ text, (Shape.of text = .diff → Language.guess text = .diff) ∧
      (Shape.of text = .json → Language.guess text = .json) := by
  intro h
  have hshape : Shape.of "[\n-1\n]" = .json := by decide +kernel
  have hguess : Language.guess "[\n-1\n]" = .diff := by decide +kernel
  have hjson := (h "[\n-1\n]").2 hshape
  rw [hguess] at hjson
  cases hjson

end Chronicle.Content
