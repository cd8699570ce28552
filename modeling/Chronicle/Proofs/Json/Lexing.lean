import Chronicle.Proofs.Json.Number
import Chronicle.Proofs.Json.Scan

/-!
# Reading printed scalars

* `scan_quoted`: a text is read from what is printed for it, escape by escape.
* `scan_numberText`: so is a number where space, a mark or the end follows it, but what is read may be
  another number (`readBack`): reading rounds more often than once. Integers of 64 bits are themselves
  (`readBack_int`).
* `newline_notMem_quoted`, `newline_notMem_numberText`: both are printed on one line.
-/

namespace Chronicle.Json

/-! ## Texts -/

theorem scan_text_of_more {t u : TextLexeme} {c : Char} (h : t.step c = .more u) (cs : List Char) :
    scan (.text t) (c :: cs) = scan (.text u) cs := by
  rw [scan_cons, Mode.step, h]
  rfl

theorem hexValue?_hexDigit : ∀ n < 16, TextLexeme.hexValue? (hexDigit n) = some n := by
  decide

theorem utf8Size_hexDigit : ∀ n < 16, (hexDigit n).utf8Size = 1 := by
  decide

theorem scan_shortEscape {e c : Char} (h : TextLexeme.shortEscape? e = some c)
    (chars cs : List Char) :
    scan (.text { chars }) ('\\' :: e :: cs) = scan (.text { chars := c :: chars }) cs := by
  have hcode : ¬ (e == 'u') = true := by
    intro he
    rw [beq_iff_eq.mp he] at h
    cases h
  have hopened : ({ chars } : TextLexeme).step '\\' = .more { chars, escape := .opened } := rfl
  have hstep : ({ chars, escape := .opened } : TextLexeme).step e =
      .more { chars := c :: chars } := by
    simp only [TextLexeme.step, if_neg hcode, h]
    rfl
  rw [scan_text_of_more hopened, scan_text_of_more hstep]

theorem step_code {n taken value : Nat} (hn : n < 16) (htaken : taken + 1 < 4) (chars : List Char) :
    ({ chars, escape := .code taken value true } : TextLexeme).step (hexDigit n) =
      .more { chars, escape := .code (taken + 1) (value * 16 + n) true } := by
  simp only [TextLexeme.step, hexValue?_hexDigit n hn, utf8Size_hexDigit n hn, if_pos htaken]

theorem step_code_last {n value : Nat} (hn : n < 16) (chars : List Char)
    (hlow : value * 16 + n < 0xD800) :
    ({ chars, escape := .code 3 value true } : TextLexeme).step (hexDigit n) =
      .more { chars := Char.ofNat (value * 16 + n) :: chars } := by
  have hleading : TextLexeme.isLeading (value * 16 + n) = false := by
    simp only [TextLexeme.isLeading, Bool.and_eq_false_iff, decide_eq_false_iff_not]
    omega
  have htrailing : TextLexeme.isTrailing (value * 16 + n) = false := by
    simp only [TextLexeme.isTrailing, Bool.and_eq_false_iff, decide_eq_false_iff_not]
    omega
  simp only [TextLexeme.step, hexValue?_hexDigit n hn, utf8Size_hexDigit n hn]
  simp [TextLexeme.addUnit, hleading, htrailing, TextLexeme.add]

theorem scan_codeEscape {c : Char} (hc : c.toNat < 0x20) (chars cs : List Char) :
    scan (.text { chars })
        ('\\' :: 'u' :: '0' :: '0' :: hexDigit (c.toNat / 16) :: hexDigit (c.toNat % 16) :: cs) =
      scan (.text { chars := c :: chars }) cs := by
  have hopened : ({ chars } : TextLexeme).step '\\' = .more { chars, escape := .opened } := rfl
  have hcode : ({ chars, escape := .opened } : TextLexeme).step 'u' =
      .more { chars, escape := .code 0 0 true } := rfl
  have hfirst : ({ chars, escape := .code 0 0 true } : TextLexeme).step '0' =
      .more { chars, escape := .code 1 0 true } := step_code (n := 0) (by decide) (by decide) chars
  have hsecond : ({ chars, escape := .code 1 0 true } : TextLexeme).step '0' =
      .more { chars, escape := .code 2 0 true } := step_code (n := 0) (by decide) (by decide) chars
  have hvalue : (0 * 16 + c.toNat / 16) * 16 + c.toNat % 16 = c.toNat := by omega
  rw [scan_text_of_more hopened, scan_text_of_more hcode, scan_text_of_more hfirst,
    scan_text_of_more hsecond,
    scan_text_of_more (step_code (n := c.toNat / 16) (by omega) (by decide) chars),
    scan_text_of_more (step_code_last (n := c.toNat % 16) (by omega) chars (by omega)),
    hvalue, Char.ofNat_toNat]

/-- **A character is read from what is printed for it.** -/
theorem scan_escaped (chars : List Char) (c : Char) (cs : List Char) :
    scan (.text { chars }) (escaped c ++ cs) = scan (.text { chars := c :: chars }) cs := by
  have hshort {e d : Char} (he : TextLexeme.shortEscape? e = some d) (hd : (c == d) = true) :
      scan (.text { chars }) ('\\' :: e :: cs) = scan (.text { chars := c :: chars }) cs := by
    rw [beq_iff_eq.mp hd]
    exact scan_shortEscape he chars cs
  unfold escaped
  iterate 7
    split
    · rename_i hd
      exact hshort rfl hd
  split
  · rename_i h
    exact scan_codeEscape h chars cs
  · rename_i hquote hbackslash _ _ _ _ _ hcontrol
    have hstep : ({ chars } : TextLexeme).step c = .more { chars := c :: chars } := by
      simp only [TextLexeme.step, if_neg hquote, if_neg hbackslash, if_neg hcontrol]
      rfl
    exact scan_text_of_more hstep cs

theorem scan_quoted (s : String) (cs : List Char) :
    scan .between (quoted s ++ cs) = (scan .between cs).map (.text (some s) :: ·) := by
  have hchars (before after : List Char) :
      scan (.text { chars := before }) (after.flatMap escaped ++ '\x22' :: cs) =
        (scan .between cs).map (.text (some (String.ofList (before.reverse ++ after))) :: ·) := by
    induction after generalizing before with
    | nil =>
      rw [List.append_nil]
      exact scan_cons _ '\x22' cs
    | cons c after ih =>
      rw [List.flatMap_cons, List.append_assoc, scan_escaped, ih, List.reverse_cons,
        List.append_assoc]
      rfl
  have hopen : quoted s ++ cs = '\x22' :: (s.toList.flatMap escaped ++ '\x22' :: cs) := by
    simp [quoted]
  rw [hopen, scan_between_cons]
  refine (hchars [] s.toList).trans ?_
  simp

/-! ## Words -/

theorem scan_word (l : Char) (ls : List Char) (t : Token) (cs : List Char) :
    scan (.word (l :: ls) t) (l :: ls ++ cs) = (scan .between cs).map (t :: ·) := by
  induction ls generalizing l with
  | nil =>
    refine (scan_cons _ l cs).trans ?_
    rw [Mode.step, if_pos (beq_self_eq_true l)]
    rfl
  | cons l' ls ih =>
    refine (scan_cons _ l _).trans ?_
    rw [Mode.step, if_pos (beq_self_eq_true l)]
    · exact ih l'
    · simp

theorem scan_null (cs : List Char) :
    scan .between ('n' :: 'u' :: 'l' :: 'l' :: cs) = (scan .between cs).map (.null :: ·) :=
  (scan_between_cons 'n' _).trans (scan_word 'u' ['l', 'l'] .null cs)

theorem scan_true (cs : List Char) :
    scan .between ('t' :: 'r' :: 'u' :: 'e' :: cs) = (scan .between cs).map (.bool true :: ·) :=
  (scan_between_cons 't' _).trans (scan_word 'r' ['u', 'e'] (.bool true) cs)

theorem scan_false (cs : List Char) :
    scan .between ('f' :: 'a' :: 'l' :: 's' :: 'e' :: cs) =
      (scan .between cs).map (.bool false :: ·) :=
  (scan_between_cons 'f' _).trans (scan_word 'a' ['l', 's', 'e'] (.bool false) cs)

/-! ## Numbers -/

/-- Space or a token of one character. -/
def Delimits (c : Char) : Prop := isSpace c = true ∨ (mark? c).isSome

/-- Characters before which a number ends. -/
def EndsNumber (cs : List Char) : Prop := ∀ c, cs.head? = some c → Delimits c

def delimiters : List Char := [' ', '\t', '\n', '\r', '[', ']', '\x7b', '\x7d', ':', ',']

theorem mem_of_delimits {c : Char} (hc : Delimits c) : c ∈ delimiters := by
  rcases hc with hc | hc
  · simp only [isSpace, Bool.or_eq_true, beq_iff_eq] at hc
    rcases hc with ((rfl | rfl) | rfl) | rfl <;> decide
  · simp only [delimiters, List.mem_cons, List.not_mem_nil, or_false]
    grind [mark?]

theorem extend_of_delimits {c : Char} (hc : Delimits c) (n : NumberLexeme) : n.extend c = none := by
  have hother : delimiters.all fun c =>
      (NumberLexeme.digit? c).isNone && !List.contains ['.', 'e', 'E', '+', '-'] c := by decide
  have hnone := List.all_eq_true.mp hother c (mem_of_delimits hc)
  rw [Bool.and_eq_true, Option.isNone_iff_eq_none] at hnone
  obtain ⟨hdigit, hsign⟩ := hnone
  simp only [Bool.not_eq_true', List.contains_eq_mem, decide_eq_false_iff_not, List.mem_cons,
    List.not_mem_nil, or_false, not_or] at hsign
  unfold NumberLexeme.extend
  rw [hdigit]
  cases n.part <;> simp [hsign]

theorem stepBetween_of_begin? {c : Char} {n : NumberLexeme} (h : NumberLexeme.begin? c = some n) :
    stepBetween c = .go (.number n) := by
  have hother : delimiters.all fun c => (NumberLexeme.begin? c).isNone := by decide
  have hdelimits : ¬ Delimits c := by
    intro hc
    have hnone := List.all_eq_true.mp hother c (mem_of_delimits hc)
    rw [h] at hnone
    cases hnone
  have hletter {l : Char} (hl : NumberLexeme.begin? l = none) : ¬ (c == l) = true := by
    intro heq
    rw [beq_iff_eq.mp heq, hl] at h
    cases h
  have hspace : ¬ isSpace c = true := fun hc => hdelimits (.inl hc)
  have hmark : mark? c = none :=
    Option.not_isSome_iff_eq_none.mp fun hc => hdelimits (.inr hc)
  have hopen : open? c = some (.number n) := by
    rw [open?, if_neg (hletter rfl), if_neg (hletter rfl), if_neg (hletter rfl),
      if_neg (hletter rfl), h]
    rfl
  rw [stepBetween, if_neg hspace, hmark, hopen]

theorem scan_number_append {n m : NumberLexeme} {cs : List Char} (h : n.run cs = some m)
    (rest : List Char) : scan (.number n) (cs ++ rest) = scan (.number m) rest := by
  induction cs generalizing n with
  | nil =>
    cases h
    rfl
  | cons c cs ih =>
    rw [NumberLexeme.run, List.foldlM_cons] at h
    obtain ⟨n', hextend, hrun⟩ := Option.bind_eq_some_iff.mp h
    rw [List.cons_append, scan_cons, Mode.step, hextend]
    exact ih hrun

/-- What the text of a number reads as. -/
def readBack (n : Number) : Option Number :=
  (NumberLexeme.ofChars? (numberText n)).bind NumberLexeme.value?

theorem readBack_int {n : Int} (hlow : -(Binary64.signBit : Int) ≤ n)
    (hhigh : n < Decimal.significandLimit) : readBack (.int n) = some (.int n) :=
  NumberLexeme.value?_of_intDigits hlow hhigh

theorem scan_numberText (n : Number) {cs : List Char} (hcs : EndsNumber cs) :
    scan .between (numberText n ++ cs) =
      (scan .between cs).map (.number (readBack n) :: ·) := by
  obtain ⟨m, hm, hcomplete⟩ := isNumber_numberText n
  rw [readBack, hm, Option.bind_some]
  cases htext : numberText n with
  | nil =>
    rw [htext] at hm
    cases hm
  | cons c rest =>
    rw [htext] at hm
    obtain ⟨first, hfirst, hrun⟩ := Option.bind_eq_some_iff.mp hm
    rw [List.cons_append, scan_between_cons, stepBetween_of_begin? hfirst]
    refine (scan_number_append hrun cs).trans ?_
    exact scan_number hcomplete fun c hc => extend_of_delimits (hcs c hc) m

/-! ## Line feeds -/

theorem newline_notMem_escaped (c : Char) : '\n' ∉ escaped c := by
  by_cases hcontrol : c.toNat < 0x20
  · have hall : ∀ n < 0x20, '\n' ∉ escaped (Char.ofNat n) := by decide
    rw [← Char.ofNat_toNat c]
    exact hall _ hcontrol
  · have hc : '\n' ≠ c := by
      rintro rfl
      exact hcontrol (by decide)
    unfold escaped
    rw [if_neg hcontrol]
    repeat' split
    all_goals simp [hc]

theorem newline_notMem_quoted (s : String) : '\n' ∉ quoted s := by
  intro h
  rw [quoted, List.cons_append, List.mem_cons, List.mem_append, List.mem_singleton] at h
  rcases h with h | h | h
  · cases h
  · obtain ⟨c, -, hc⟩ := List.mem_flatMap.mp h
    exact newline_notMem_escaped c hc
  · cases h

theorem newline_notMem_of_run {n m : NumberLexeme} {cs : List Char} (h : n.run cs = some m) :
    '\n' ∉ cs := by
  intro hmem
  obtain ⟨before, after, rfl⟩ := List.append_of_mem hmem
  rw [NumberLexeme.run, List.foldlM_append] at h
  obtain ⟨n', -, h⟩ := Option.bind_eq_some_iff.mp h
  rw [List.foldlM_cons, extend_of_delimits (.inl rfl)] at h
  cases h

theorem newline_notMem_numberText (n : Number) : '\n' ∉ numberText n := by
  obtain ⟨m, hm, -⟩ := isNumber_numberText n
  intro h
  cases htext : numberText n with
  | nil =>
    rw [htext] at h
    cases h
  | cons c cs =>
    rw [htext] at hm h
    obtain ⟨first, hfirst, hrun⟩ := Option.bind_eq_some_iff.mp hm
    rcases List.mem_cons.mp h with rfl | h
    · cases hfirst
    · exact newline_notMem_of_run hrun h

end Chronicle.Json
