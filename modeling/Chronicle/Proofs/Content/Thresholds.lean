import Chronicle.Content.Language
import Chronicle.Proofs.Content.Shares
import Chronicle.Proofs.Text.Line

/-!
# Thresholds of the tests on lines

A text is read as a patch, as a listing or as YAML by how many of its lines are of the kind. Each of
the three tests is met exactly where the count in whole numbers meets its tenths. No line of a patch
or with a gutter is blank, so these are counted among all the lines of the text.

* `PatchLine`, `HasGutter`, `DataLine`: the kinds of lines, told by what they are made of.
* `ToldByCounts`, `toldByCounts`: what decides each test.
-/

namespace Chronicle.Content

open Text

/-! ## Kinds of lines -/

/-- One sign before anything but the same sign. -/
def Signed (sign : Char) (line : List Char) : Prop := [sign] <+: line ∧ ¬[sign, sign] <+: line

/-- The header of a hunk, or a line behind a single plus or minus. -/
def PatchLine (line : List Char) : Prop :=
  ['@', '@'] <+: line ∨ Signed '+' line ∨ Signed '-' line

/-- A line behind a gutter: any blanks, at least one digit of any script, and a separator. -/
def HasGutter (line : List Char) : Prop :=
  ∃ indent number separator rest, line = indent ++ (number ++ separator :: rest) ∧
    (∀ c ∈ indent, isBlank c = true) ∧ number ≠ [] ∧ (∀ c ∈ number, isDigit c = true) ∧
    separator ∈ ['→', '\t', ':']

/-- A line that is neither blank nor a comment: what it begins with behind its blanks is no number
sign. -/
def DataLine (line : List Char) : Prop :=
  ∃ indent c rest, line = indent ++ c :: rest ∧ (∀ c ∈ indent, isBlank c = true) ∧
    isBlank c = false ∧ c ≠ '#'

theorem beginsWith_iff {start : String} {cs : List Char} :
    beginsWith start cs = true ↔ start.toList <+: cs :=
  List.isPrefixOf_iff_prefix

theorem isPatchLine_iff {line : List Char} : isPatchLine line = true ↔ PatchLine line := by
  simp only [isPatchLine, Bool.or_eq_true, Bool.and_eq_true, Bool.not_eq_true',
    ← Bool.not_eq_true (beginsWith _ _), beginsWith_iff, or_assoc]
  exact Iff.rfl

theorem not_isBlank_of_isDigit {c : Char} (h : isDigit c = true) : isBlank c = false := by
  have hscripts : ∀ n ∈ [0x85, 0xA0, 0x1680, 0x2000, 0x2001, 0x2002, 0x2003, 0x2004, 0x2005, 0x2006,
      0x2007, 0x2008, 0x2009, 0x200A, 0x2028, 0x2029, 0x202F, 0x205F, 0x3000],
      digitRanges.holds n = false := by decide
  rw [isDigit, Bool.or_eq_true, Bool.and_eq_true] at h
  rcases h with hascii | ⟨hbeyond, hscript⟩
  · exact isBlank_of_isDigit hascii
  · by_contra hblank
    have hnone := hscripts c.toNat (by simp [isBlank] at hblank hbeyond ⊢; omega)
    rw [hnone] at hscript
    cases hscript

theorem isSeparator_iff {c : Char} : isSeparator c = true ↔ c ∈ ['→', '\t', ':'] := by
  simp [isSeparator, or_assoc]

theorem isDigit_of_isSeparator {c : Char} (h : isSeparator c = true) : isDigit c = false := by
  simp only [isSeparator, Bool.or_eq_true, beq_iff_eq] at h
  obtain (rfl | rfl) | rfl := h <;> decide

theorem afterNumber?_gutter {indent number rest : List Char} {separator : Char}
    (hindent : ∀ c ∈ indent, isBlank c = true) (hne : number ≠ [])
    (hnumber : ∀ c ∈ number, isDigit c = true) (hseparator : separator ∈ ['→', '\t', ':']) :
    afterNumber? (indent ++ (number ++ separator :: rest)) = some rest := by
  rw [← isSeparator_iff] at hseparator
  obtain ⟨d, digits, rfl⟩ := List.exists_cons_of_ne_nil hne
  have hd := hnumber d List.mem_cons_self
  have hstart : (indent ++ (d :: digits ++ separator :: rest)).dropWhile isBlank =
      d :: digits ++ separator :: rest := by
    rw [List.dropWhile_append_of_pos hindent, List.cons_append,
      List.dropWhile_cons_of_neg (by simp [not_isBlank_of_isDigit hd])]
  have hend : (d :: digits ++ separator :: rest).dropWhile isDigit = separator :: rest := by
    rw [List.dropWhile_append_of_pos hnumber,
      List.dropWhile_cons_of_neg (by simp [isDigit_of_isSeparator hseparator])]
  unfold afterNumber?
  simp only [hstart, hend]
  rw [hseparator, List.cons_append, List.head?_cons, Option.any_some, hd]
  rfl

theorem hasGutter_of_isSome {line : List Char} (h : (afterNumber? line).isSome = true) :
    HasGutter line := by
  have hline : line = line.takeWhile isBlank ++ line.dropWhile isBlank :=
    List.takeWhile_append_dropWhile.symm
  simp only [afterNumber?] at h
  generalize line.dropWhile isBlank = number at h hline
  have hnumber : number = number.takeWhile isDigit ++ number.dropWhile isDigit :=
    List.takeWhile_append_dropWhile.symm
  cases hrest : number.dropWhile isDigit with
  | nil =>
    rw [hrest] at h
    cases h
  | cons separator rest =>
    rw [hrest] at h hnumber
    obtain ⟨hfirst, hseparator⟩ : number.head?.any isDigit = true ∧ isSeparator separator = true := by
      by_contra hnot
      simp [hnot] at h
    obtain ⟨d, hd, hdigit⟩ := (Option.any_eq_true _ _).mp hfirst
    obtain ⟨more, rfl⟩ := List.head?_eq_some_iff.mp hd
    refine ⟨line.takeWhile isBlank, (d :: more).takeWhile isDigit, separator, rest,
      hline.trans (congrArg _ hnumber), fun c hc => List.mem_takeWhile_imp hc, ?_,
      fun c hc => List.mem_takeWhile_imp hc, isSeparator_iff.mp hseparator⟩
    rw [List.takeWhile_cons_of_pos hdigit]
    exact List.cons_ne_nil _ _

theorem isSome_afterNumber?_iff {line : List Char} :
    (afterNumber? line).isSome = true ↔ HasGutter line := by
  refine ⟨hasGutter_of_isSome, ?_⟩
  rintro ⟨indent, number, separator, rest, rfl, hindent, hne, hnumber, hseparator⟩
  rw [afterNumber?_gutter hindent hne hnumber hseparator]
  rfl

theorem dataLine_iff {line : List Char} :
    (!line.all isBlank && !Language.isComment line) = true ↔ DataLine line := by
  simp only [Bool.and_eq_true, Bool.not_eq_true', Language.isComment]
  constructor
  · rintro ⟨hvisible, hcomment⟩
    cases hstart : trimStart line with
    | nil =>
      rw [List.all_eq_true.mpr (List.dropWhile_eq_nil_iff.mp hstart)] at hvisible
      cases hvisible
    | cons c rest =>
      rw [hstart] at hcomment
      refine ⟨line.takeWhile isBlank, c, rest, ?_, fun c hc => List.mem_takeWhile_imp hc,
        isBlank_of_trimStart_eq_cons hstart, ?_⟩
      · rw [← hstart]
        exact List.takeWhile_append_dropWhile.symm
      · rintro rfl
        exact absurd hcomment (by simp [beginsWith])
  · rintro ⟨indent, c, rest, rfl, hindent, hc, hne⟩
    have hstart : trimStart (indent ++ c :: rest) = c :: rest := by
      rw [trimStart_append_of_isBlank hindent, trimStart, List.dropWhile_cons_of_neg (by simp [hc])]
    rw [hstart]
    exact ⟨List.all_eq_false.mpr ⟨c, by simp, by simp [hc]⟩, beginsWith_cons_of_ne rfl hne.symm⟩

instance : DecidablePred PatchLine := fun _ => decidable_of_iff _ isPatchLine_iff

instance : DecidablePred HasGutter := fun _ => decidable_of_iff _ isSome_afterNumber?_iff

instance : DecidablePred DataLine := fun _ => decidable_of_iff _ dataLine_iff

/-! ## Counts -/

theorem PatchLine.not_all_isBlank {line : List Char} (h : PatchLine line) :
    line.all isBlank = false := by
  obtain ⟨more, rfl⟩ | ⟨⟨more, rfl⟩, -⟩ | ⟨⟨more, rfl⟩, -⟩ := h <;> rfl

theorem HasGutter.not_all_isBlank {line : List Char} (h : HasGutter line) :
    line.all isBlank = false := by
  obtain ⟨indent, number, separator, rest, rfl, -, hne, hnumber, -⟩ := h
  obtain ⟨d, digits, rfl⟩ := List.exists_cons_of_ne_nil hne
  have hd := not_isBlank_of_isDigit (hnumber d List.mem_cons_self)
  exact List.all_eq_false.mpr ⟨d, by simp, by simp [hd]⟩

theorem countP_visibleLines {holds : List Char → Bool} {Kind : List Char → Prop} [DecidablePred Kind]
    (hkind : ∀ {line}, holds line = true ↔ Kind line)
    (hvisible : ∀ {line}, Kind line → line.all isBlank = false) (cs : List Char) :
    (visibleLines cs).countP holds = (linesOf cs).countP Kind := by
  rw [visibleLines, List.countP_filter]
  refine List.countP_congr fun line _ => ?_
  rw [Bool.and_eq_true, decide_eq_true_eq, hkind, Bool.not_eq_true']
  exact and_iff_left_of_imp hvisible

/-- What decides each test, in whole numbers. -/
structure ToldByCounts (text : String) : Prop where
  patch : isPatch text = true ↔ (∃ opening ∈ patchOpenings, opening.toList <+: text.toList) ∨
    3 ≤ (linesOf text.toList).length ∧ 0 < (visibleLines text.toList).length ∧
      3 * (visibleLines text.toList).length ≤ 10 * (linesOf text.toList).countP PatchLine
  listing : isListing text = true ↔
    2 ≤ (linesOf text.toList).length ∧ 0 < (visibleLines text.toList).length ∧
      4 * (visibleLines text.toList).length ≤ 10 * (linesOf text.toList).countP HasGutter
  /-- Lines of YAML are counted among those that hold data. -/
  yaml : Language.looksLikeYaml text = true ↔
    2 ≤ (linesOf text.toList).countP DataLine ∧
      8 * (linesOf text.toList).countP DataLine ≤
        10 * ((linesOf text.toList).filter DataLine).countP Language.yamlLine.occursIn

theorem IsTenths.share_iff {tenths hits : Nat} {w : Rounding.Normal} (hw : IsTenths tenths w)
    {lines : List (List Char)} (hlines : lines.length < 2 ^ 50) (hhits : hits < 2 ^ 50) :
    (!lines.isEmpty && isShare tenths hits lines.length) = true ↔
      0 < lines.length ∧ tenths * lines.length ≤ 10 * hits := by
  rw [Bool.and_eq_true, Bool.not_eq_true', List.isEmpty_eq_false_iff, ← List.length_pos_iff]
  exact and_congr_right fun hpos => hw.isShare_iff hpos hlines hhits

/-- **Each test is met exactly at its tenths** in a text of fewer than two to the fiftieth lines. -/
theorem toldByCounts (text : String) (h : (linesOf text.toList).length < 2 ^ 50) :
    ToldByCounts text := by
  have hvisible : (visibleLines text.toList).length < 2 ^ 50 :=
    (List.length_filter_le ..).trans_lt h
  have hcount (kind : List Char → Bool) : (linesOf text.toList).countP kind < 2 ^ 50 :=
    List.countP_le_length.trans_lt h
  have hdata : (visibleLines text.toList).filter (fun line => !Language.isComment line) =
      (linesOf text.toList).filter DataLine := by
    rw [visibleLines, List.filter_filter]
    refine List.filter_congr fun line _ => ?_
    rw [Bool.eq_iff_iff, decide_eq_true_eq, Bool.and_comm]
    exact dataLine_iff
  constructor
  case patch =>
    simp only [isPatch, Bool.or_eq_true, List.any_eq_true, beginsWith_iff, Bool.and_assoc,
      countP_visibleLines isPatchLine_iff PatchLine.not_all_isBlank]
    rw [Bool.and_eq_true, decide_eq_true_eq, isTenths_three.share_iff hvisible (hcount _)]
  case listing =>
    simp only [isListing, Bool.and_assoc,
      countP_visibleLines isSome_afterNumber?_iff HasGutter.not_all_isBlank]
    rw [Bool.and_eq_true, decide_eq_true_eq, isTenths_four.share_iff hvisible (hcount _)]
  case yaml =>
    simp only [Language.looksLikeYaml, hdata, ← List.countP_eq_length_filter]
    rw [Bool.and_eq_true, decide_eq_true_eq]
    exact and_congr_right fun htwo => isTenths_eight.isShare_iff (by omega) (hcount _)
      (List.countP_le_length.trans_lt ((List.length_filter_le ..).trans_lt h))

/-- Three of ten lines are a patch's and four of ten have a gutter, beside a blank line. -/
theorem toldByCounts_atTenths :
    ∃ text, (linesOf text.toList).length < 2 ^ 50 ∧ ToldByCounts text ∧
      (visibleLines text.toList).length = 10 ∧ (linesOf text.toList).countP PatchLine = 3 ∧
      (linesOf text.toList).countP HasGutter = 4 ∧ isPatch text = true ∧ isListing text = true :=
  ⟨"a\n+b\n-c\n@@\n\n1:d\n 2\te\n\t3→f\n٤:g\n++h\n10", by decide, toldByCounts _ (by decide),
    by decide, by decide, by decide, by decide, by decide⟩

end Chronicle.Content
