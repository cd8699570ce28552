import Chronicle.Decimal.Notation
import Chronicle.Text.Clip
import Chronicle.Text.Line
import Mathlib.Data.List.TakeWhile

/-!
# Texts of one line

* `all_isBlank_trim`: a text that has been trimmed is blank only if nothing is left of it.
* `OneLine`: a text without a line feed. Texts put together are one line exactly if their parts are
  (`oneLine_append`), and a headline always is one (`oneLine_headline`).
* `length_linesOf_append`: the lines of a text, counted by its line feeds.
* `linesOf_append_newline`: the first line of a text, without a carriage return at its end, and the
  lines after it.
* `lines_induction`: a text is one line without a feed, or a line, a feed and a text.
-/

namespace Chronicle.Text

/-! ## Trimming -/

theorem mem_of_mem_trim {c : Char} {cs : List Char} (h : c ∈ trim cs) : c ∈ cs := by
  rw [trim, trimEnd, List.mem_reverse] at h
  have hstart : c ∈ trimStart cs := List.mem_reverse.mp ((List.dropWhile_sublist _).mem h)
  exact (List.dropWhile_sublist _).mem hstart

theorem mem_dropWhile_of_not_isBlank {c : Char} {cs : List Char} (h : c ∈ cs)
    (hc : isBlank c = false) : c ∈ cs.dropWhile isBlank := by
  rw [← List.takeWhile_append_dropWhile (p := isBlank) (l := cs), List.mem_append] at h
  rcases h with h | h
  · rw [List.mem_takeWhile_imp h] at hc
    cases hc
  · exact h

theorem mem_trim_of_not_isBlank {c : Char} {cs : List Char} (h : c ∈ cs)
    (hc : isBlank c = false) : c ∈ trim cs := by
  have hstart : c ∈ (trimStart cs).reverse :=
    List.mem_reverse.mpr (mem_dropWhile_of_not_isBlank h hc)
  exact List.mem_reverse.mpr (mem_dropWhile_of_not_isBlank hstart hc)

theorem trim_of_forall_isBlank {cs : List Char} (h : ∀ c ∈ cs, isBlank c = true) :
    trim cs = [] := by
  have hstart : trimStart cs = [] := List.dropWhile_eq_nil_iff.mpr h
  rw [trim, hstart]
  rfl

theorem dropWhile_append_cons {c : Char} (hc : isBlank c = false) (before after : List Char) :
    (before ++ c :: after).dropWhile isBlank = before.dropWhile isBlank ++ c :: after := by
  induction before with
  | nil => rw [List.nil_append, List.dropWhile_cons_of_neg (by simp [hc])]; rfl
  | cons d before ih =>
    rw [List.cons_append, List.dropWhile_cons, List.dropWhile_cons]
    split
    · exact ih
    · rfl

theorem trimEnd_append_cons {c : Char} (hc : isBlank c = false) (before after : List Char) :
    trimEnd (before ++ c :: after) = before ++ c :: trimEnd after := by
  have hreverse : (before ++ c :: after).reverse = after.reverse ++ c :: before.reverse := by
    simp
  rw [trimEnd, hreverse, dropWhile_append_cons hc]
  simp [trimEnd]

theorem trimEnd_cons {c : Char} (hc : isBlank c = false) (cs : List Char) :
    trimEnd (c :: cs) = c :: trimEnd cs :=
  trimEnd_append_cons hc [] cs

theorem trim_append_cons {c : Char} (hc : isBlank c = false) (before after : List Char) :
    trim (before ++ c :: after) = trimStart before ++ c :: trimEnd after := by
  rw [trim, trimStart, dropWhile_append_cons hc, trimEnd_append_cons hc]
  rfl

theorem trimEnd_append_of_isBlank {gap : List Char} (h : ∀ c ∈ gap, isBlank c = true)
    (cs : List Char) : trimEnd (cs ++ gap) = trimEnd cs := by
  have hgap : gap.reverse.dropWhile isBlank = [] :=
    List.dropWhile_eq_nil_iff.mpr fun c hc => h c (List.mem_reverse.mp hc)
  rw [trimEnd, List.reverse_append, List.dropWhile_append, hgap]
  rfl

theorem trim_append_of_isBlank {gap : List Char} (h : ∀ c ∈ gap, isBlank c = true)
    (cs : List Char) : trim (cs ++ gap) = trim cs := by
  rw [trim, trim, trimStart, List.dropWhile_append]
  split
  · rename_i hempty
    have hgap : gap.dropWhile isBlank = [] := List.dropWhile_eq_nil_iff.mpr h
    rw [hgap, trimStart, List.isEmpty_iff.mp hempty]
  · exact trimEnd_append_of_isBlank h _

theorem trimStart_append_of_isBlank {gap : List Char} (h : ∀ c ∈ gap, isBlank c = true)
    (cs : List Char) : trimStart (gap ++ cs) = trimStart cs :=
  List.dropWhile_append_of_pos h

theorem isBlank_of_trimStart_eq_cons {c : Char} {cs rest : List Char}
    (h : trimStart cs = c :: rest) : isBlank c = false := by
  have hhead := List.head?_dropWhile_not isBlank cs
  rw [← trimStart, h] at hhead
  exact hhead

theorem trimStart_trimStart (cs : List Char) : trimStart (trimStart cs) = trimStart cs := by
  cases hstart : trimStart cs with
  | nil => rfl
  | cons c rest =>
    have hc := isBlank_of_trimStart_eq_cons hstart
    rw [trimStart, List.dropWhile_cons_of_neg (by simp [hc])]

theorem trimEnd_trimEnd (cs : List Char) : trimEnd (trimEnd cs) = trimEnd cs := by
  have h := trimStart_trimStart cs.reverse
  rw [trimEnd, trimEnd, List.reverse_reverse]
  exact congrArg List.reverse h

theorem trim_trim (cs : List Char) : trim (trim cs) = trim cs := by
  cases hstart : trimStart cs with
  | nil =>
    have htrim : trim cs = [] := by
      rw [trim, hstart]
      rfl
    rw [htrim]
    rfl
  | cons c rest =>
    have hc := isBlank_of_trimStart_eq_cons hstart
    have htrim : trim cs = c :: trimEnd rest := by rw [trim, hstart, trimEnd_cons hc]
    rw [htrim, ← List.nil_append (c :: trimEnd rest), trim_append_cons hc, trimEnd_trimEnd]
    rfl

theorem exists_append_trim_append (cs : List Char) :
    ∃ lead trail, cs = lead ++ (trim cs ++ trail) ∧ (∀ c ∈ lead, isBlank c = true) ∧
      ∀ c ∈ trail, isBlank c = true := by
  refine ⟨cs.takeWhile isBlank, ((trimStart cs).reverse.takeWhile isBlank).reverse, ?_,
    fun c hc => List.mem_takeWhile_imp hc,
    fun c hc => List.mem_takeWhile_imp (List.mem_reverse.mp hc)⟩
  rw [trim, trimEnd, ← List.reverse_append, List.takeWhile_append_dropWhile, List.reverse_reverse,
    trimStart, List.takeWhile_append_dropWhile]

theorem length_trim_le (cs : List Char) : (trim cs).length ≤ cs.length := by
  obtain ⟨lead, trail, hcs, -⟩ := exists_append_trim_append cs
  conv => rhs; rw [hcs]
  simp only [List.length_append]
  omega

theorem all_isBlank_trim (cs : List Char) : (trim cs).all isBlank = (trim cs).isEmpty := by
  by_cases h : trim cs = []
  · rw [h]
    rfl
  · rw [List.isEmpty_eq_false_iff.mpr h, ← Bool.not_eq_true, List.all_eq_true]
    intro hall
    refine h (trim_of_forall_isBlank fun c hc => ?_)
    by_contra hblank
    rw [Bool.not_eq_true] at hblank
    exact absurd (hall c (mem_trim_of_not_isBlank hc hblank)) (by simp [hblank])

theorem trimmed_eq_empty_iff {s : String} : trimmed s = "" ↔ allBlank s = true := by
  have hempty : trimmed s = "" ↔ trim s.toList = [] := by
    rw [trimmed, ← String.toList_inj, String.toList_ofList]
    rfl
  rw [hempty, allBlank, List.all_eq_true]
  constructor
  · intro h c hc
    by_contra hblank
    have hmem := mem_trim_of_not_isBlank hc (Bool.not_eq_true _ ▸ hblank)
    rw [h] at hmem
    cases hmem
  · exact trim_of_forall_isBlank

theorem isEmpty_ofList (cs : List Char) : (String.ofList cs).isEmpty = cs.isEmpty := by
  rw [Bool.eq_iff_iff]
  simp

/-! ## Texts of one line -/

/-- A text without a line feed. -/
def OneLine (text : String) : Prop := '\n' ∉ text.toList

instance (text : String) : Decidable (OneLine text) := inferInstanceAs (Decidable (_ ∉ _))

@[simp] theorem oneLine_append {a b : String} : OneLine (a ++ b) ↔ OneLine a ∧ OneLine b := by
  simp [OneLine]

theorem oneLine_ofList {cs : List Char} : OneLine (String.ofList cs) ↔ '\n' ∉ cs := by
  rw [OneLine, String.toList_ofList]

theorem oneLine_digits (n : Nat) : OneLine (String.ofList (digitsOf n)) := by
  rw [oneLine_ofList]
  intro h
  have hdigit := Nat.isDigit_of_mem_toDigits (by omega) (by omega) h
  exact absurd hdigit (by decide)

theorem OneLine.clip {text : String} (h : OneLine text) (limit : Nat) :
    OneLine (clip text limit) := by
  rw [Text.clip, oneLine_ofList, clipChars]
  split
  · exact h
  · split
    · exact fun hmem => h (List.mem_of_mem_take hmem)
    · rw [List.mem_append, not_or]
      exact ⟨fun hmem => h (List.mem_of_mem_take hmem), by decide⟩

theorem newline_notMem_of_mem_linesOf {cs line : List Char} (h : line ∈ linesOf cs) :
    '\n' ∉ line := by
  -- along the lines: the last two cases put a character in front of the first line
  fun_induction linesOf cs generalizing line with
  | case1 => cases h
  | case2 cs ih =>
    rcases List.mem_cons.mp h with rfl | h
    · exact List.not_mem_nil
    · exact ih h
  | case3 cs ih =>
    rcases List.mem_cons.mp h with rfl | h
    · exact List.not_mem_nil
    · exact ih h
  | case4 c cs hn hreturn hlines ih =>
    rw [List.mem_singleton.mp h, List.mem_singleton]
    exact fun hc => hn hc.symm
  | case5 c cs hn hreturn first more hlines ih =>
    rw [hlines] at ih
    rcases List.mem_cons.mp h with rfl | h
    · rw [List.mem_cons, not_or]
      exact ⟨fun hc => hn hc.symm, ih List.mem_cons_self⟩
    · exact ih (List.mem_cons_of_mem _ h)

theorem oneLine_headline (text : String) : OneLine (headline text) := by
  rw [headline, oneLine_ofList]
  intro h
  have hline := mem_of_mem_trim h
  cases hlines : linesOf (trimStart text.toList) with
  | nil => simp [hlines] at hline
  | cons line more =>
    rw [hlines, List.headD_cons] at hline
    exact newline_notMem_of_mem_linesOf (hlines ▸ List.mem_cons_self) hline

/-! ## Number of lines -/

theorem length_linesOf_cons (c : Char) (cs : List Char) :
    (linesOf (c :: cs)).length =
      if c = '\n' then (linesOf cs).length + 1 else max 1 (linesOf cs).length := by
  generalize htext : c :: cs = text
  fun_cases linesOf text with
  | case1 => cases htext
  | case2 more =>
    cases htext
    simp
  | case3 more =>
    cases htext
    simp [linesOf]
  | case4 c' more hn hreturn hlines =>
    cases htext
    rw [if_neg hn, hlines]
    rfl
  | case5 c' more hn hreturn line lines hlines =>
    cases htext
    rw [if_neg hn, hlines, List.length_cons, List.length_cons]
    omega

theorem length_linesOf_append (cs rest : List Char) :
    (linesOf (cs ++ '\n' :: rest)).length = cs.count '\n' + 1 + (linesOf rest).length := by
  induction cs with
  | nil =>
    rw [List.nil_append, length_linesOf_cons, if_pos rfl, List.count_nil]
    omega
  | cons c cs ih =>
    rw [List.cons_append, length_linesOf_cons, ih, List.count_cons]
    by_cases hc : c = '\n'
    · simp [hc]
      omega
    · simp [hc]
      omega

/-! ## Cutting into lines -/

/-- A line without the carriage return that belongs to its end. -/
def withoutReturn (line : List Char) : List Char :=
  if line.getLast? = some '\r' then line.dropLast else line

theorem withoutReturn_cons {c : Char} {cs : List Char} (h : c = '\r' → cs ≠ []) :
    withoutReturn (c :: cs) = c :: withoutReturn cs := by
  cases cs with
  | nil =>
    have hc : c ≠ '\r' := fun hc => h hc rfl
    simp [withoutReturn, hc]
  | cons d cs =>
    unfold withoutReturn
    rw [List.getLast?_cons_cons]
    split <;> rfl

theorem trim_withoutReturn (line : List Char) : trim (withoutReturn line) = trim line := by
  unfold withoutReturn
  split
  · rename_i hlast
    obtain ⟨front, rfl⟩ := List.getLast?_eq_some_iff.mp hlast
    have hreturn : ∀ c ∈ ['\r'], isBlank c = true := List.forall_mem_singleton.mpr rfl
    rw [List.dropLast_concat, trim_append_of_isBlank hreturn]
  · rfl

theorem linesOf_cons {c : Char} {cs : List Char} (hc : c ≠ '\n')
    (hreturn : c = '\r' → cs.head? ≠ some '\n') :
    linesOf (c :: cs) =
      match linesOf cs with
      | [] => [[c]]
      | line :: more => (c :: line) :: more := by
  rw [linesOf.eq_def]
  split
  · rename_i heq
    cases heq
  · rename_i heq
    cases heq
    exact absurd rfl hc
  · rename_i heq
    cases heq
    exact absurd rfl (hreturn rfl)
  · rename_i heq
    cases heq
    rfl

/-- A text is one line without a feed, or a line, a feed and a text. -/
@[elab_as_elim]
theorem lines_induction {P : List Char → Prop} (last : ∀ line, '\n' ∉ line → P line)
    (feed : ∀ line rest, '\n' ∉ line → P rest → P (line ++ '\n' :: rest)) (cs : List Char) :
    P cs := by
  induction hn : cs.length using Nat.strong_induction_on generalizing cs with
  | _ n ih =>
    by_cases hmem : '\n' ∈ cs
    · obtain ⟨line, rest, rfl, hline⟩ := List.eq_append_cons_of_mem hmem
      refine feed line rest hline (ih rest.length ?_ rest rfl)
      rw [← hn, List.length_append, List.length_cons]
      omega
    · exact last cs hmem

theorem linesOf_append_newline {line : List Char} (h : '\n' ∉ line) (rest : List Char) :
    linesOf (line ++ '\n' :: rest) = withoutReturn line :: linesOf rest := by
  induction line with
  | nil => rfl
  | cons c line ih =>
    have hc : c ≠ '\n' := fun hc => h (hc ▸ List.mem_cons_self)
    have hline : '\n' ∉ line := fun hmem => h (List.mem_cons_of_mem _ hmem)
    by_cases hlone : c = '\r' ∧ line = []
    · obtain ⟨rfl, rfl⟩ := hlone
      rfl
    · have hnext : c = '\r' → line ≠ [] := fun hc hnil => hlone ⟨hc, hnil⟩
      rw [List.cons_append, linesOf_cons hc, ih hline, withoutReturn_cons hnext]
      intro hreturn hhead
      cases line with
      | nil => exact hnext hreturn rfl
      | cons d line =>
        rw [List.cons_append, List.head?_cons, Option.some.injEq] at hhead
        exact hline (hhead ▸ List.mem_cons_self)

theorem linesOf_of_notMem {line : List Char} (h : '\n' ∉ line) (hne : line ≠ []) :
    linesOf line = [line] := by
  induction line with
  | nil => exact absurd rfl hne
  | cons c line ih =>
    have hc : c ≠ '\n' := fun hc => h (hc ▸ List.mem_cons_self)
    have hline : '\n' ∉ line := fun hmem => h (List.mem_cons_of_mem _ hmem)
    rw [linesOf_cons hc fun _ hhead => hline (List.mem_of_mem_head? hhead)]
    cases line with
    | nil => rfl
    | cons d line => rw [ih hline (List.cons_ne_nil d line)]

theorem prefix_of_linesOf_eq_cons {cs first : List Char} {more : List (List Char)}
    (h : linesOf cs = first :: more) :
    first <+: cs ∧ ∀ line ∈ more, ∃ before after, cs = before ++ '\n' :: (line ++ after) := by
  -- a line of the rest is the first of the rest or stands behind a line feed in it
  have hrest {cs : List Char} (ih : ∀ first more, linesOf cs = first :: more →
      first <+: cs ∧ ∀ line ∈ more, ∃ before after, cs = before ++ '\n' :: (line ++ after))
      (line : List Char) (hline : line ∈ linesOf cs) :
      ∃ before after, '\n' :: cs = before ++ '\n' :: (line ++ after) := by
    cases hlines : linesOf cs with
    | nil =>
      rw [hlines] at hline
      cases hline
    | cons first more =>
      obtain ⟨⟨after, hfirst⟩, hmore⟩ := ih first more hlines
      rw [hlines] at hline
      rcases List.mem_cons.mp hline with rfl | hline
      · exact ⟨[], after, by rw [hfirst]; rfl⟩
      · obtain ⟨before, after, hcs⟩ := hmore line hline
        exact ⟨'\n' :: before, after, by rw [List.cons_append, ← hcs]⟩
  fun_induction linesOf cs generalizing first more with
  | case1 => cases h
  | case2 cs ih =>
    cases h
    exact ⟨List.nil_prefix, hrest fun first more h => ih h⟩
  | case3 cs ih =>
    cases h
    refine ⟨List.nil_prefix, fun line hline => ?_⟩
    obtain ⟨before, after, hcs⟩ := hrest (fun first more h => ih h) line hline
    exact ⟨'\r' :: before, after, by rw [List.cons_append, ← hcs]⟩
  | case4 c cs hn hreturn hlines ih =>
    cases h
    exact ⟨⟨cs, rfl⟩, fun line hline => by cases hline⟩
  | case5 c cs hn hreturn first' more' hlines ih =>
    cases h
    obtain ⟨⟨after, hfirst⟩, hmore⟩ := ih hlines
    refine ⟨⟨after, by rw [List.cons_append, hfirst]⟩, fun line hline => ?_⟩
    obtain ⟨before, after, hcs⟩ := hmore line hline
    exact ⟨c :: before, after, by rw [List.cons_append, ← hcs]⟩

theorem exists_mem_linesOf {cs : List Char} {c : Char} (hmem : c ∈ cs) (hn : c ≠ '\n')
    (hr : c ≠ '\r') : ∃ line ∈ linesOf cs, c ∈ line := by
  fun_induction linesOf cs with
  | case1 => cases hmem
  | case2 cs ih =>
    obtain ⟨line, hline, hc⟩ := ih ((List.mem_cons.mp hmem).resolve_left hn)
    exact ⟨line, List.mem_cons_of_mem _ hline, hc⟩
  | case3 cs ih =>
    have hrest := (List.mem_cons.mp hmem).resolve_left hr
    obtain ⟨line, hline, hc⟩ := ih ((List.mem_cons.mp hrest).resolve_left hn)
    exact ⟨line, List.mem_cons_of_mem _ hline, hc⟩
  | case4 d cs hd hreturn hlines ih =>
    rcases List.mem_cons.mp hmem with rfl | hmem
    · exact ⟨[c], List.mem_singleton_self _, List.mem_singleton_self _⟩
    · obtain ⟨line, hline, -⟩ := ih hmem
      rw [hlines] at hline
      cases hline
  | case5 d cs hd hreturn first more hlines ih =>
    rcases List.mem_cons.mp hmem with rfl | hmem
    · exact ⟨c :: first, List.mem_cons_self, List.mem_cons_self⟩
    · obtain ⟨line, hline, hc⟩ := ih hmem
      rw [hlines] at hline
      rcases List.mem_cons.mp hline with rfl | hline
      · exact ⟨d :: line, List.mem_cons_self, List.mem_cons_of_mem _ hc⟩
      · exact ⟨line, List.mem_cons_of_mem _ hline, hc⟩

theorem exists_visible_mem_linesOf {cs : List Char} {c : Char} (hmem : c ∈ cs)
    (hc : isBlank c = false) : ∃ line ∈ linesOf cs, line.all isBlank = false := by
  have hn : c ≠ '\n' := by
    rintro rfl
    cases hc
  have hr : c ≠ '\r' := by
    rintro rfl
    cases hc
  obtain ⟨line, hline, hcline⟩ := exists_mem_linesOf hmem hn hr
  exact ⟨line, hline, List.all_eq_false.mpr ⟨c, hcline, by simp [hc]⟩⟩

theorem linesOf_joinLines {lines : List (List Char)} (hne : lines ≠ [])
    (hlines : ∀ line ∈ lines, '\n' ∉ line ∧ withoutReturn line = line ∧ line ≠ [])
    (closed : Bool) : linesOf (joinLines lines ++ if closed then ['\n'] else []) = lines := by
  induction lines with
  | nil => exact absurd rfl hne
  | cons line more ih =>
    obtain ⟨⟨hfeed, hreturn, hfirst⟩, hmore⟩ := List.forall_mem_cons.mp hlines
    cases more with
    | nil =>
      cases closed with
      | false =>
        rw [joinLines, if_neg Bool.false_ne_true, List.append_nil, linesOf_of_notMem hfeed hfirst]
      | true =>
        rw [joinLines, if_pos rfl, linesOf_append_newline hfeed, hreturn]
        rfl
    | cons next more =>
      rw [joinLines, List.append_assoc, List.cons_append, linesOf_append_newline hfeed, hreturn,
        ih (List.cons_ne_nil next more) hmore]
      exact List.cons_ne_nil next more

end Chronicle.Text
