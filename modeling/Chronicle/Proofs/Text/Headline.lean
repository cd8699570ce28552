import Chronicle.Proofs.Text.Visible

/-!
# Headlines

The headline of a text is its first line that is not blank, without the blanks around it. A text is
one line, or a line with a feed and a text, and a blank line before a feed is passed over:

* `trim_firstLine_of_line`, `trim_firstLine_of_blank`, `trim_firstLine_of_visible`: the three cases.
* `trim_firstLine_of_find?`: which of the lines it is.
* `EndsLine`, `exists_append_headline_append`: what stands before it and behind it.
* `HeadlineTold`, `headlineTold`: a headline, told by the text alone.
-/

namespace Chronicle.Text

/-- The line of which a headline is made, from its first character that is not blank. -/
def firstLine (cs : List Char) : List Char := (linesOf (trimStart cs)).headD []

theorem headline_toList (text : String) : (headline text).toList = trim (firstLine text.toList) :=
  String.toList_ofList

/-- What stands behind a headline: blanks up to the end of the text, or up to the next line feed and
then anything. -/
inductive EndsLine : List Char → Prop where
  | last (gap : List Char) (blank : ∀ c ∈ gap, isBlank c = true) (feedless : '\n' ∉ gap) :
      EndsLine gap
  | feed (gap rest : List Char) (blank : ∀ c ∈ gap, isBlank c = true) (feedless : '\n' ∉ gap) :
      EndsLine (gap ++ '\n' :: rest)

section
variable {line cs : List Char}

/-! ## The line of a headline -/

theorem trim_trimStart (cs : List Char) : trim (trimStart cs) = trim cs := by
  rw [trim, trimStart_trimStart, trim]

theorem trim_firstLine_of_line (h : '\n' ∉ line) : trim (firstLine line) = trim line := by
  have hstart : '\n' ∉ trimStart line := fun hmem => h ((List.dropWhile_sublist _).mem hmem)
  have hline : firstLine line = trimStart line := by
    rw [firstLine]
    by_cases hnil : trimStart line = []
    · rw [hnil]
      rfl
    · rw [linesOf_of_notMem hstart hnil, List.headD_cons]
  rw [hline, trim_trimStart]

theorem trim_firstLine_of_blank (h : line.all isBlank = true) (rest : List Char) :
    trim (firstLine (line ++ '\n' :: rest)) = trim (firstLine rest) := by
  have hline : ∀ c ∈ line ++ ['\n'], isBlank c = true := by
    rw [List.forall_mem_append]
    exact ⟨List.all_eq_true.mp h, List.forall_mem_singleton.mpr rfl⟩
  rw [firstLine, List.append_cons, trimStart_append_of_isBlank hline, firstLine]

theorem trim_firstLine_of_visible (hline : '\n' ∉ line) (h : line.all isBlank = false)
    (rest : List Char) : trim (firstLine (line ++ '\n' :: rest)) = trim line := by
  have hstart : '\n' ∉ trimStart line := fun hmem => hline ((List.dropWhile_sublist _).mem hmem)
  have hsplit : trimStart (line ++ '\n' :: rest) = trimStart line ++ '\n' :: rest := by
    rw [trimStart, List.dropWhile_append, if_neg, trimStart]
    rw [List.isEmpty_iff, List.dropWhile_eq_nil_iff, ← List.all_eq_true, h]
    exact Bool.false_ne_true
  rw [firstLine, hsplit, linesOf_append_newline hstart, List.headD_cons, trim_withoutReturn,
    trim_trimStart]

theorem all_isBlank_withoutReturn (line : List Char) :
    (withoutReturn line).all isBlank = line.all isBlank := by
  rw [withoutReturn]
  split
  · rename_i hlast
    obtain ⟨front, rfl⟩ := List.getLast?_eq_some_iff.mp hlast
    rw [List.dropLast_concat, List.all_append]
    exact (Bool.and_true _).symm
  · rfl

/-- **A headline is made of the first line that is not blank.** -/
theorem trim_firstLine_of_find?
    (h : (linesOf cs).find? (fun line => !line.all isBlank) = some line) :
    trim (firstLine cs) = trim line := by
  induction cs using lines_induction with
  | last only honly =>
    rw [trim_firstLine_of_line honly]
    by_cases hnil : only = []
    · subst hnil
      cases h
    · rw [linesOf_of_notMem honly hnil] at h
      rw [List.mem_singleton.mp (List.mem_of_find?_eq_some h)]
  | feed first rest hfirst ih =>
    rw [linesOf_append_newline hfirst, List.find?_cons, all_isBlank_withoutReturn] at h
    cases hblank : first.all isBlank with
    | true =>
      rw [hblank] at h
      rw [trim_firstLine_of_blank hblank, ih h]
    | false =>
      rw [hblank] at h
      rw [trim_firstLine_of_visible hfirst hblank, ← Option.some.inj h, trim_withoutReturn]

theorem exists_find?_of_visible {text : String} (h : Visible text) :
    ∃ line, (linesOf text.toList).find? (fun line => !line.all isBlank) = some line := by
  obtain ⟨c, hmem, hc⟩ := h
  obtain ⟨line, hline, hvisible⟩ := exists_visible_mem_linesOf hmem hc
  exact Option.isSome_iff_exists.mp (List.find?_isSome.mpr ⟨line, hline, by rw [hvisible]; rfl⟩)

/-! ## What is around a headline -/

theorem exists_append_headline_append (cs : List Char) :
    ∃ lead after, cs = lead ++ (trim (firstLine cs) ++ after) ∧ (∀ c ∈ lead, isBlank c = true) ∧
      EndsLine after := by
  induction cs using lines_induction with
  | last line hline =>
    obtain ⟨lead, trail, hcs, hlead, htrail⟩ := exists_append_trim_append line
    refine ⟨lead, trail, ?_, hlead, .last trail htrail fun hmem => hline ?_⟩
    · rwa [trim_firstLine_of_line hline]
    · rw [hcs]
      exact List.mem_append_right _ (List.mem_append_right _ hmem)
  | feed line rest hline ih =>
    cases hblank : line.all isBlank with
    | true =>
      -- the line and its feed are blanks before the headline of the rest
      obtain ⟨lead, after, hrest, hlead, hafter⟩ := ih
      refine ⟨line ++ '\n' :: lead, after, ?_, ?_, hafter⟩
      · rw [trim_firstLine_of_blank hblank, List.append_assoc, List.cons_append, ← hrest]
      · rw [List.forall_mem_append, List.forall_mem_cons]
        exact ⟨List.all_eq_true.mp hblank, rfl, hlead⟩
    | false =>
      obtain ⟨lead, trail, hcs, hlead, htrail⟩ := exists_append_trim_append line
      refine ⟨lead, trail ++ '\n' :: rest, ?_, hlead, .feed trail rest htrail fun hmem => hline ?_⟩
      · rw [trim_firstLine_of_visible hline hblank]
        conv => lhs; rw [hcs]
        simp only [List.append_assoc]
      · rw [hcs]
        exact List.mem_append_right _ (List.mem_append_right _ hmem)

theorem isBlank_of_head?_trim {c : Char} (h : (trim cs).head? = some c) : isBlank c = false := by
  cases hstart : trimStart cs with
  | nil =>
    rw [trim, hstart] at h
    cases h
  | cons d rest =>
    have hd := isBlank_of_trimStart_eq_cons hstart
    rw [trim, hstart, trimEnd_cons hd] at h
    exact Option.some.inj h ▸ hd

theorem isBlank_of_getLast?_trim {c : Char} (h : (trim cs).getLast? = some c) :
    isBlank c = false := by
  have hlast := List.head?_dropWhile_not isBlank (trimStart cs).reverse
  rw [trim, trimEnd, List.getLast?_reverse] at h
  rw [h] at hlast
  exact hlast

end

/-! ## Headlines of texts -/

/-- What is told of the headline of a text. -/
structure HeadlineTold (text : String) : Prop where
  /-- Only the headline of a text of blanks alone is empty. -/
  empty : headline text = "" ↔ allBlank text = true
  oneLine : OneLine (headline text)
  begins (c : Char) : (headline text).toList.head? = some c → isBlank c = false
  ends (c : Char) : (headline text).toList.getLast? = some c → isBlank c = false
  /-- It stands behind blanks, and blanks stand behind it to the end of its line. -/
  around : ∃ lead after, text.toList = lead ++ ((headline text).toList ++ after) ∧
    (∀ c ∈ lead, isBlank c = true) ∧ EndsLine after

theorem headlineTold (text : String) : HeadlineTold text where
  empty := by
    rw [← String.isEmpty_iff, isEmpty_headline]
  oneLine := oneLine_headline text
  begins c h := by
    rw [headline_toList] at h
    exact isBlank_of_head?_trim h
  ends c h := by
    rw [headline_toList] at h
    exact isBlank_of_getLast?_trim h
  around := by
    rw [headline_toList]
    exact exists_append_headline_append text.toList

end Chronicle.Text
