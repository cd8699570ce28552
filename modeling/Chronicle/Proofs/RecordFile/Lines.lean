import Chronicle.Proofs.RecordFile.Forms
import Mathlib.Order.Bounds.Defs

/-!
# A bad line is reported by its number in the file

A file that is not one list is read line by line up to the first line that is no record. Lines are
counted by their feeds. A line is read without the blanks around it, a carriage return among them,
so that cutting a text at its feeds alone shows the same lines (`readLines_linesOf`).

* `feedLines`, `BadLine`: the lines of a text, and those of them that are no record.
* `readLines_eq`, `readText_eq_error_iff`: how reading lines can end.
* `ReportsFirstBadLine`, `reportsFirstBadLine`: what is reported of a text, and what that depends
  on.
-/

namespace Chronicle.RecordFile

open Text

/-! ## Lines of a text -/

/-- The lines of a text as feeds end them, with their carriage returns. What is behind the last feed
is a line, if an empty one. -/
def feedLines (text : String) : List (List Char) := text.toList.splitOn '\n'

/-- The line with the number `n`, counted from one on, is no record: it has more than blanks, and
what they surround cannot be decoded. -/
def BadLine (read : Reader α) (text : String) (n : Nat) : Prop :=
  ∃ line, (line, n) ∈ (feedLines text).zipIdx 1 ∧ trim line ≠ [] ∧ readLine read (trim line) = none

/-- The first character that is not blank, if there is one, does not open a list. -/
def OpensNoList (text : String) : Prop :=
  text.toList.find? (fun c => !isBlank c) ≠ some '['

instance (text : String) : Decidable (OpensNoList text) := inferInstanceAs (Decidable (_ ≠ _))

/-- What stands on the lines that are not blank. -/
def filled (lines : List (List Char)) : List (List Char) :=
  (lines.map trim).filter fun line => line ≠ []

/-- The same text with a carriage return before every feed. -/
def withReturns (text : String) : String :=
  String.ofList (text.toList.flatMap fun c => if c = '\n' then ['\r', '\n'] else [c])

/-! ## Reading lines -/

section lines
variable {α : Type} {read : Reader α} {lines : List (List Char)}

def isBad (read : Reader α) (line : List Char) : Bool :=
  !(trim line).isEmpty && (readLine read (trim line)).isNone

theorem isBad_iff {line : List Char} :
    isBad read line = true ↔ trim line ≠ [] ∧ readLine read (trim line) = none := by
  rw [isBad, Bool.and_eq_true, Bool.not_eq_true', Option.isNone_iff_eq_none, ← Bool.not_eq_true,
    List.isEmpty_iff]

theorem isBad_of_blank {line : List Char} (h : trim line = []) : isBad read line = false := by
  rw [isBad, h]
  rfl

theorem line_cases (read : Reader α) (line : List Char) :
    trim line = [] ∨ (∃ record, trim line ≠ [] ∧ readLine read (trim line) = some record) ∨
      isBad read line = true := by
  by_cases hblank : trim line = []
  · exact .inl hblank
  · cases hread : readLine read (trim line) with
    | some record => exact .inr (.inl ⟨record, hblank, rfl⟩)
    | none => exact .inr (.inr (isBad_iff.mpr ⟨hblank, hread⟩))

theorem readLines_cons_of_isBad {line : List Char} (h : isBad read line = true) (number : Nat)
    (more : List (List Char)) :
    readLines read number (line :: more) = .error (.badJson number) := by
  obtain ⟨hfull, hread⟩ := isBad_iff.mp h
  have hfull : ¬ (trim line).isEmpty = true := fun hempty => hfull (List.isEmpty_iff.mp hempty)
  rw [readLines, if_neg hfull, hread]

theorem filled_cons_of_blank {line : List Char} (h : trim line = []) (more : List (List Char)) :
    filled (line :: more) = filled more := by
  simp [filled, h]

theorem filled_cons_of_full {line : List Char} (h : trim line ≠ []) (more : List (List Char)) :
    filled (line :: more) = trim line :: filled more := by
  simp [filled, h]

/-- **Lines are read up to the first bad one**, of which the number is reported. -/
theorem readLines_eq (number : Nat) (lines : List (List Char)) :
    readLines read number lines =
      match lines.findIdx? (isBad read) with
      | some k => .error (.badJson (number + k))
      | none => .ok ((filled lines).filterMap (readLine read)) := by
  induction lines generalizing number with
  | nil => rfl
  | cons line more ih =>
    have hnext (k : Nat) : number + 1 + k = number + (k + 1) := by omega
    rcases line_cases read line with hblank | ⟨record, hfull, hread⟩ | hbad
    · rw [readLines_cons_of_blank hblank, ih, filled_cons_of_blank hblank, List.findIdx?_cons,
        isBad_of_blank hblank]
      cases more.findIdx? (isBad read) with
      | none => rfl
      | some k => exact congrArg (fun n => Except.error (Fault.badJson n)) (hnext k)
    · have hgood : isBad read line = false := by
        rw [← Bool.not_eq_true, isBad_iff, hread]
        simp
      rw [readLines_cons_of_record rfl hfull hread, ih, filled_cons_of_full hfull,
        List.filterMap_cons_some hread, List.findIdx?_cons, hgood]
      cases more.findIdx? (isBad read) with
      | none => rfl
      | some k => exact congrArg (fun n => Except.error (Fault.badJson n)) (hnext k)
    · rw [readLines_cons_of_isBad hbad, List.findIdx?_cons, hbad]
      rfl

theorem readLines_congr {others : List (List Char)} (h : others.map trim = lines.map trim)
    (number : Nat) : readLines read number others = readLines read number lines := by
  have htrim (line : List Char) : isBad read (trim line) = isBad read line := by
    rw [isBad, isBad, trim_trim]
  have hbad (lines : List (List Char)) :
      lines.findIdx? (isBad read) = (lines.map trim).findIdx? (isBad read) := by
    rw [List.findIdx?_map]
    exact congrArg (List.findIdx? · lines) (funext fun line => (htrim line).symm)
  rw [readLines_eq, readLines_eq, hbad, hbad lines, filled, filled, h]

/-- **Cutting a text at its feeds alone shows the same lines.** -/
theorem readLines_linesOf (number : Nat) (cs : List Char) :
    readLines read number (linesOf cs) = readLines read number (cs.splitOn '\n') := by
  induction cs using lines_induction generalizing number with
  | last line hline =>
    rw [List.splitOn_eq_singleton hline]
    by_cases hnil : line = []
    · -- a last line of nothing is a blank line, which is as good as none
      subst hnil
      rfl
    · rw [linesOf_of_notMem hline hnil]
  | feed line rest hline ih =>
    rw [linesOf_append_newline hline, List.splitOn_append_cons_self_of_not_mem hline]
    rw [readLines, readLines, trim_withoutReturn, ih]

end lines

/-! ## Telling a list -/

theorem isList_eq_false_iff {text : String} : isList text.toList = false ↔ OpensNoList text := by
  rw [isList, trimStart, ← List.find?_not_eq_head?_dropWhile, beq_eq_false_iff_ne, OpensNoList]

theorem find?_withReturns (text : String) :
    (withReturns text).toList.find? (fun c => !isBlank c) =
      text.toList.find? fun c => !isBlank c := by
  rw [withReturns, String.toList_ofList]
  induction text.toList with
  | nil => rfl
  | cons c cs ih =>
    rw [List.flatMap_cons, List.find?_append, ih, List.find?_cons]
    by_cases hc : c = '\n'
    · subst hc
      rfl
    · rw [if_neg hc]
      cases hblank : isBlank c <;> simp [hblank]

theorem map_trim_withReturns (text : String) :
    (feedLines (withReturns text)).map trim = (feedLines text).map trim := by
  have hkeep (line : List Char) (hline : '\n' ∉ line) :
      line.flatMap (fun c => if c = '\n' then ['\r', '\n'] else [c]) = line := by
    have hsame : line.flatMap (fun c => if c = '\n' then ['\r', '\n'] else [c]) =
        line.flatMap fun c => [c] :=
      List.flatMap_congr fun c hc => if_neg fun heq : c = '\n' => hline (heq ▸ hc)
    rw [hsame, List.flatMap_singleton']
  have hreturn : ∀ c ∈ ['\r'], isBlank c = true := List.forall_mem_singleton.mpr rfl
  rw [feedLines, feedLines, withReturns, String.toList_ofList]
  induction text.toList using lines_induction with
  | last line hline => rw [hkeep line hline]
  | feed line rest hline ih =>
    have hline' : '\n' ∉ line ++ ['\r'] := by simp [hline]
    have hcut : (line ++ '\n' :: rest).flatMap (fun c => if c = '\n' then ['\r', '\n'] else [c]) =
        (line ++ ['\r']) ++
          '\n' :: rest.flatMap fun c => if c = '\n' then ['\r', '\n'] else [c] := by
      rw [List.flatMap_append, List.flatMap_cons, hkeep line hline, if_pos rfl]
      simp
    rw [hcut, List.splitOn_append_cons_self_of_not_mem hline',
      List.splitOn_append_cons_self_of_not_mem hline, List.map_cons, List.map_cons, ih,
      trim_append_of_isBlank hreturn]

/-! ## Whole texts -/

section texts
variable {α : Type} {read : Reader α} {text : String}

theorem readText_eq (h : OpensNoList text) :
    readText read text = readLines read 1 (feedLines text) := by
  rw [readText, isList_eq_false_iff.mpr h]
  exact readLines_linesOf 1 text.toList

theorem readText_eq_error_iff (h : OpensNoList text) (n : Nat) :
    readText read text = .error (.badJson n) ↔
      ∃ k, (feedLines text).findIdx? (isBad read) = some k ∧ n = 1 + k := by
  rw [readText_eq h, readLines_eq]
  cases (feedLines text).findIdx? (isBad read) with
  | none => simp
  | some k => simp [eq_comm]

theorem exists_findIdx?_take (lines : List (List Char)) (n : Nat) :
    (∃ k, lines.findIdx? (isBad read) = some k ∧ n = 1 + k) ↔
      ∃ k, (lines.take n).findIdx? (isBad read) = some k ∧ n = 1 + k := by
  rw [List.findIdx?_take]
  cases lines.findIdx? (isBad read) with
  | none => simp
  | some i =>
    simp only [Option.bind_some, Option.guard_eq_some_iff, decide_eq_true_eq, Option.some.injEq]
    constructor
    · rintro ⟨k, rfl, hn⟩
      exact ⟨i, ⟨rfl, by omega⟩, hn⟩
    · rintro ⟨k, ⟨rfl, -⟩, hn⟩
      exact ⟨i, rfl, hn⟩

theorem badLine_iff (n : Nat) : BadLine read text n ↔
    ∃ k, ∃ h : k < (feedLines text).length, isBad read (feedLines text)[k] ∧ n = 1 + k := by
  constructor
  · rintro ⟨line, hmem, hbad⟩
    obtain ⟨hn, hline⟩ := List.mk_mem_zipIdx_iff_le_and_getElem?_sub.mp hmem
    obtain ⟨hk, rfl⟩ := List.getElem?_eq_some_iff.mp hline
    exact ⟨n - 1, hk, isBad_iff.mpr hbad, by omega⟩
  · rintro ⟨k, hk, hbad, rfl⟩
    refine ⟨_, List.mk_mem_zipIdx_iff_le_and_getElem?_sub.mpr ⟨by omega, ?_⟩, isBad_iff.mp hbad⟩
    rw [Nat.add_sub_cancel_left, List.getElem?_eq_getElem hk]

theorem isLeast_badLine_iff (n : Nat) : IsLeast {m | BadLine read text m} n ↔
    ∃ k, (feedLines text).findIdx? (isBad read) = some k ∧ n = 1 + k := by
  simp only [List.findIdx?_eq_some_iff_getElem]
  constructor
  · rintro ⟨hmem, hleast⟩
    obtain ⟨k, hk, hbad, rfl⟩ := (badLine_iff n).mp hmem
    refine ⟨k, ⟨hk, hbad, fun j hj hbad => ?_⟩, rfl⟩
    have hle := hleast ((badLine_iff _).mpr ⟨j, hj.trans hk, hbad, rfl⟩)
    omega
  · rintro ⟨k, ⟨hk, hbad, hbefore⟩, rfl⟩
    refine ⟨(badLine_iff _).mpr ⟨k, hk, hbad, rfl⟩, fun m hm => ?_⟩
    obtain ⟨j, hj, hbad, rfl⟩ := (badLine_iff m).mp hm
    have hjk : ¬ j < k := fun hlt => hbefore j hlt hbad
    omega

theorem forall₂_filterMap {β : Type} {f : β → Option α} {bs : List β}
    (h : ∀ b ∈ bs, ∃ a, f b = some a) :
    List.Forall₂ (fun b a => f b = some a) bs (bs.filterMap f) := by
  induction bs with
  | nil => exact .nil
  | cons b bs ih =>
    obtain ⟨⟨a, hb⟩, hbs⟩ := List.forall_mem_cons.mp h
    rw [List.filterMap_cons_some hb]
    exact .cons hb (ih hbs)

theorem exists_record_of_mem_filled {lines : List (List Char)}
    (h : ∀ line ∈ lines, isBad read line = false) :
    ∀ line ∈ filled lines, ∃ record, readLine read line = some record := by
  intro line hmem
  obtain ⟨hmap, hfull⟩ := List.mem_filter.mp hmem
  obtain ⟨own, hown, rfl⟩ := List.mem_map.mp hmap
  rcases line_cases read own with hblank | ⟨record, -, hread⟩ | hbad
  · exact absurd hblank (of_decide_eq_true hfull)
  · exact ⟨record, hread⟩
  · exact absurd hbad (by rw [h own hown]; decide)

/-! ## Blank lines between -/

/-- A text of whole lines, or of none: what it ends in is a feed. -/
def EndsInFeed (text : String) : Prop := ∀ c ∈ text.toList.getLast?, c = '\n'

def fed (lines : List (List Char)) : String := String.ofList (lines.flatMap (· ++ ['\n']))

theorem exists_splitOn_append {before : List Char} (h : ∀ c ∈ before.getLast?, c = '\n') :
    ∃ lines : List (List Char), lines.length = before.count '\n' ∧
      ∀ rest, (before ++ rest).splitOn '\n' = lines ++ rest.splitOn '\n' := by
  induction before using lines_induction with
  | last line hline =>
    have hnil : line = [] := by
      by_contra hne
      have hlast := h _ (List.getLast?_eq_some_getLast hne)
      exact hline (hlast ▸ List.getLast_mem hne)
    subst hnil
    exact ⟨[], rfl, fun rest => rfl⟩
  | feed line more hline ih =>
    have hmore : ∀ c ∈ more.getLast?, c = '\n' := by
      intro c hc
      apply h c
      rw [List.getLast?_append, List.getLast?_cons, hc]
      rfl
    obtain ⟨lines, hlength, hsplit⟩ := ih hmore
    refine ⟨line :: lines, ?_, fun rest => ?_⟩
    · rw [List.length_cons, hlength, List.count_append, List.count_eq_zero_of_not_mem hline,
        List.count_cons_self, Nat.zero_add]
    · rw [List.append_assoc, List.cons_append,
        List.splitOn_append_cons_self_of_not_mem hline, hsplit, List.cons_append]

theorem splitOn_fed_append {gaps : List (List Char)} (h : ∀ gap ∈ gaps, IsGap gap)
    (rest : List Char) :
    ((fed gaps).toList ++ rest).splitOn '\n' = gaps ++ rest.splitOn '\n' := by
  rw [fed, String.toList_ofList]
  induction gaps with
  | nil => rfl
  | cons gap gaps ih =>
    obtain ⟨hgap, hgaps⟩ := List.forall_mem_cons.mp h
    have hcut : (gap :: gaps).flatMap (· ++ ['\n']) ++ rest =
        gap ++ '\n' :: (gaps.flatMap (· ++ ['\n']) ++ rest) := by simp
    rw [hcut, List.splitOn_append_cons_self_of_not_mem hgap.newline_notMem, ih hgaps,
      List.cons_append]

theorem find?_fed {gaps : List (List Char)} (h : ∀ gap ∈ gaps, IsGap gap) :
    (fed gaps).toList.find? (fun c => !isBlank c) = none := by
  rw [fed, String.toList_ofList, List.find?_eq_none]
  intro c hc
  obtain ⟨gap, hgap, hmem⟩ := List.mem_flatMap.mp hc
  rcases List.mem_append.mp hmem with hmem | hmem
  · rw [(h gap hgap c hmem).1]
    decide
  · rw [List.mem_singleton.mp hmem]
    decide

theorem findIdx?_insert {whole gaps rest : List (List Char)} {n : Nat}
    (hgaps : ∀ gap ∈ gaps, IsGap gap) (hn : whole.length < n) :
    (∃ k, (whole ++ (gaps ++ rest)).findIdx? (isBad read) = some k ∧ n + gaps.length = 1 + k) ↔
      ∃ k, (whole ++ rest).findIdx? (isBad read) = some k ∧ n = 1 + k := by
  have hnone : gaps.findIdx? (isBad read) = none :=
    List.findIdx?_eq_none_iff.mpr fun gap hgap => isBad_of_blank (hgaps gap hgap).trim
  rw [List.findIdx?_append, List.findIdx?_append, List.findIdx?_append, hnone]
  cases hwhole : whole.findIdx? (isBad read) with
  | some i =>
    -- the bad line stands among the lines before, so neither side can be
    obtain ⟨hi, -⟩ := List.findIdx?_eq_some_iff_getElem.mp hwhole
    constructor
    · rintro ⟨k, hk, heq⟩
      obtain rfl : i = k := Option.some.inj hk
      omega
    · rintro ⟨k, hk, heq⟩
      obtain rfl : i = k := Option.some.inj hk
      omega
  | none =>
    cases rest.findIdx? (isBad read) with
    | none => simp
    | some j =>
      simp only [Option.map_some, Option.none_or, Option.some.injEq, exists_eq_left']
      omega

/-! ## What is reported -/

/-- Of a text that is not one list, the first bad line is reported, by its number in the text. -/
structure ReportsFirstBadLine (read : Reader α) (text : String) : Prop where
  fails (n : Nat) :
    readText read text = .error (.badJson n) ↔ IsLeast {m | BadLine read text m} n
  /-- Without a bad line, each line that is not blank is a record, in order. -/
  succeeds : (∀ n, ¬ BadLine read text n) → ∃ records, readText read text = .ok records ∧
    List.Forall₂ (fun line record => readLine read line = some record)
      (filled (feedLines text)) records
  /-- What stands behind a line has no part in whether that line is reported. -/
  later (other : String) (n : Nat) : OpensNoList other →
    (feedLines other).take n = (feedLines text).take n →
    (readText read other = .error (.badJson n) ↔ readText read text = .error (.badJson n))
  /-- Blank lines before a line move it by their number. -/
  inserted (before after : String) (gaps : List (List Char)) (n : Nat) : text = before ++ after →
    EndsInFeed before → before.toList.count '\n' < n → (∀ gap ∈ gaps, IsGap gap) →
    (readText read (before ++ fed gaps ++ after) = .error (.badJson (n + gaps.length)) ↔
      readText read text = .error (.badJson n))
  /-- Carriage returns before the feeds change nothing. -/
  returns : readText read (withReturns text) = readText read text
  /-- Nor do any other blanks around what stands on the lines. -/
  blanks (other : String) : OpensNoList other →
    (feedLines other).map trim = (feedLines text).map trim →
    readText read other = readText read text

theorem readText_congr {other : String} (hother : OpensNoList other) (htext : OpensNoList text)
    (h : (feedLines other).map trim = (feedLines text).map trim) :
    readText read other = readText read text := by
  rw [readText_eq hother, readText_eq htext, readLines_congr h]

/-- **A file that is not one list is reported at its first bad line.** -/
theorem reportsFirstBadLine (read : Reader α) {text : String} (h : OpensNoList text) :
    ReportsFirstBadLine read text := by
  constructor
  · intro n
    rw [readText_eq_error_iff h, isLeast_badLine_iff]
  · intro hgood
    have hgood : ∀ line ∈ feedLines text, isBad read line = false := by
      intro line hmem
      obtain ⟨k, hk, rfl⟩ := List.getElem_of_mem hmem
      rw [← Bool.not_eq_true]
      intro hbad
      exact hgood _ ((badLine_iff _).mpr ⟨k, hk, hbad, rfl⟩)
    have hrecords := exists_record_of_mem_filled hgood
    refine ⟨_, ?_, forall₂_filterMap hrecords⟩
    rw [readText_eq h, readLines_eq, List.findIdx?_eq_none_iff.mpr hgood]
  · intro other n hother htake
    rw [readText_eq_error_iff hother, readText_eq_error_iff h, exists_findIdx?_take, htake,
      ← exists_findIdx?_take]
  · intro before after gaps n htext hbefore hn hgaps
    subst htext
    obtain ⟨whole, hlength, hsplit⟩ := exists_splitOn_append hbefore
    have hlines : feedLines (before ++ after) = whole ++ feedLines after := by
      rw [feedLines, String.toList_append, hsplit, feedLines]
    have hinserted : feedLines (before ++ fed gaps ++ after) =
        whole ++ (gaps ++ feedLines after) := by
      rw [feedLines, String.toList_append, String.toList_append, List.append_assoc, hsplit,
        splitOn_fed_append hgaps, feedLines]
    have hopens : OpensNoList (before ++ fed gaps ++ after) := by
      rw [OpensNoList, String.toList_append] at h
      rw [OpensNoList, String.toList_append, String.toList_append, List.append_assoc,
        List.find?_append, List.find?_append, find?_fed hgaps, Option.none_or, ← List.find?_append]
      exact h
    rw [readText_eq_error_iff hopens, readText_eq_error_iff h, hlines, hinserted]
    exact findIdx?_insert hgaps (hlength ▸ hn)
  · refine readText_congr ?_ h (map_trim_withReturns text)
    rw [OpensNoList, find?_withReturns]
    exact h
  · intro other hother hsame
    exact readText_congr hother h hsame

/-- A record, a blank line, and a third line that is no record. -/
theorem reportsFirstBadLine_third :
    let read : Reader SessionRecord := fun node _ => SessionRecord.decode node
    let text := "\x7b\"role\":\"user\",\"content\":\"a\"\x7d\r\n\u3000\r\n\x7b\"role\":1\x7d"
    OpensNoList text ∧ ReportsFirstBadLine read text ∧
      readText read text = .error (.badJson 3) := by
  intro read text
  have hopens : OpensNoList text := by decide
  exact ⟨hopens, reportsFirstBadLine read hopens, by decide +kernel⟩

end texts

end Chronicle.RecordFile
