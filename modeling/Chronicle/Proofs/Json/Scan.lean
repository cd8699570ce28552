import Chronicle.Json.Document

/-!
# Tokens without their lines

Where a text can be read to its end, its tokens do not depend on the lines on which they stand.

* `Tokens.kinds?`: the tokens of such a text. `kinds?_cut`: the lines from which the cutting starts
  do not matter, so `scan` leaves them out.
* `scan_cons`: one character. `scan_number`: a number ends where nothing extends it, and what ends it
  is read again as if no token had been under way.
* `isSome_scan_between_of_append`: no token reaches past a line feed.
-/

namespace Chronicle.Json

/-- The tokens of a text that can be read to its end, without their lines. -/
def Tokens.kinds? : Tokens → Option (List Token)
  | .ends _ => some []
  | .breaks _ => none
  | .token t _ rest => rest.kinds?.map (t :: ·)

/-- The tokens that these characters bring in a mode, if they can be read to their end. -/
def scan (mode : Mode) (cs : List Char) : Option (List Token) := (cut mode 1 1 cs).kinds?

theorem Tokens.size_of_kinds? {ts : Tokens} {kinds : List Token} (h : ts.kinds? = some kinds) :
    ts.size = kinds.length := by
  induction ts generalizing kinds with
  | ends line =>
    cases h
    rfl
  | breaks b => cases h
  | token t line rest ih =>
    obtain ⟨more, hmore, rfl⟩ := Option.map_eq_some_iff.mp h
    rw [size, ih hmore, List.length_cons]

/-! ## Lines do not matter -/

theorem kinds?_finish (mode : Mode) (start line start' line' : Nat) :
    (mode.finish start line).kinds? = (mode.finish start' line').kinds? := by
  cases mode with
  | between => rfl
  | word letters t => cases letters <;> rfl
  | number n =>
    rw [Mode.finish, Mode.finish]
    by_cases hn : n.complete = true
    · rw [if_pos hn, if_pos hn]
      rfl
    · rw [if_neg hn, if_neg hn]
      rfl
  | text t => rfl

theorem kinds?_cut_eq (cs : List Char) (mode : Mode) (start line start' line' : Nat) :
    (cut mode start line cs).kinds? = (cut mode start' line' cs).kinds? := by
  induction cs generalizing mode start line start' line' with
  | nil => exact kinds?_finish mode start line start' line'
  | cons c cs ih =>
    unfold cut
    cases mode.step c with
    | go mode' => cases mode' <;> exact ih _ _ _ _ _
    | emit t mode' => exact congrArg (Option.map (t :: ·)) (ih mode' _ _ _ _)
    | emitTwo t u =>
      exact congrArg (Option.map (t :: ·)) (congrArg (Option.map (u :: ·)) (ih _ _ _ _ _))
    | emitBreak t => rfl
    | broken => rfl

theorem kinds?_cut (mode : Mode) (start line : Nat) (cs : List Char) :
    (cut mode start line cs).kinds? = scan mode cs :=
  kinds?_cut_eq cs mode start line 1 1

theorem kinds?_ofChars (cs : List Char) : (Tokens.ofChars cs).kinds? = scan .between cs := rfl

/-! ## One character -/

def Step.scan (cs : List Char) : Step → Option (List Token)
  | .go mode => Json.scan mode cs
  | .emit t mode => (Json.scan mode cs).map (t :: ·)
  | .emitTwo t u => (Json.scan .between cs).map fun more => t :: u :: more
  | .emitBreak _ => none
  | .broken => none

theorem scan_cons (mode : Mode) (c : Char) (cs : List Char) :
    scan mode (c :: cs) = (mode.step c).scan cs := by
  rw [scan, cut.eq_def]
  simp only
  cases mode.step c with
  | go mode' => cases mode' <;> exact kinds?_cut _ _ _ _
  | emit t mode' => exact congrArg (Option.map (t :: ·)) (kinds?_cut _ _ _ _)
  | emitTwo t u =>
    show ((Tokens.kinds? _).map (u :: ·)).map (t :: ·) = _
    rw [kinds?_cut, Option.map_map]
    rfl
  | emitBreak t => rfl
  | broken => rfl

theorem scan_between_cons (c : Char) (cs : List Char) :
    scan .between (c :: cs) = (stepBetween c).scan cs :=
  scan_cons .between c cs

theorem stepBetween_of_isSpace {c : Char} (hc : isSpace c = true) :
    stepBetween c = .go .between := by
  rw [stepBetween, if_pos hc]

theorem mark?_of_isSpace {c : Char} (hc : isSpace c = true) : mark? c = none := by
  simp only [isSpace, Bool.or_eq_true, beq_iff_eq] at hc
  rcases hc with ((rfl | rfl) | rfl) | rfl <;> rfl

theorem stepBetween_of_mark? {c : Char} {t : Token} (hc : mark? c = some t) :
    stepBetween c = .emit t .between := by
  have hspace : ¬ isSpace c = true := fun hspace => by
    rw [mark?_of_isSpace hspace] at hc
    cases hc
  rw [stepBetween, if_neg hspace, hc]

theorem stepBetween_cases (c : Char) :
    (∃ mode, stepBetween c = .go mode) ∨ (∃ t, stepBetween c = .emit t .between) ∨
      stepBetween c = .broken := by
  by_cases hspace : isSpace c = true
  · exact .inl ⟨.between, stepBetween_of_isSpace hspace⟩
  · cases hmark : mark? c with
    | some t => exact .inr (.inl ⟨t, stepBetween_of_mark? hmark⟩)
    | none =>
      rw [stepBetween, if_neg hspace, hmark]
      cases open? c with
      | some mode => exact .inl ⟨mode, rfl⟩
      | none => exact .inr (.inr rfl)

theorem scan_spaces {gap : List Char} (hgap : ∀ c ∈ gap, isSpace c = true) (cs : List Char) :
    scan .between (gap ++ cs) = scan .between cs := by
  induction gap with
  | nil => rfl
  | cons c gap ih =>
    obtain ⟨hc, hrest⟩ := List.forall_mem_cons.mp hgap
    rw [List.cons_append, scan_between_cons, stepBetween_of_isSpace hc]
    exact ih hrest

theorem scan_mark {c : Char} {t : Token} (hc : mark? c = some t) (cs : List Char) :
    scan .between (c :: cs) = (scan .between cs).map (t :: ·) := by
  rw [scan_between_cons, stepBetween_of_mark? hc]
  rfl

/-! ## Ends of numbers -/

theorem scan_stepAfter (t : Token) (c : Char) (cs : List Char) :
    (stepAfter t c).scan cs = (scan .between (c :: cs)).map (t :: ·) := by
  rw [scan_between_cons, stepAfter]
  rcases stepBetween_cases c with ⟨mode, h⟩ | ⟨u, h⟩ | h
  · rw [h]
    rfl
  · rw [h]
    show (scan .between cs).map _ = ((scan .between cs).map _).map _
    rw [Option.map_map]
    rfl
  · rw [h]
    rfl

theorem scan_number_nil {n : NumberLexeme} (hn : n.complete = true) :
    scan (.number n) [] = some [.number n.value?] := by
  rw [scan, cut, Mode.finish, if_pos hn]
  rfl

/-- **A number ends where nothing extends it.** -/
theorem scan_number {n : NumberLexeme} (hn : n.complete = true) {rest : List Char}
    (hrest : ∀ c, rest.head? = some c → n.extend c = none) :
    scan (.number n) rest = (scan .between rest).map (.number n.value? :: ·) := by
  cases rest with
  | nil => exact scan_number_nil hn
  | cons c cs =>
    rw [← scan_stepAfter, scan_cons, Mode.step, hrest c rfl]
    simp only [hn, if_true]

/-! ## Line feeds -/

/-- No line feed is among the letters that a word under way still waits for. -/
def Mode.Plain : Mode → Prop
  | .word letters _ => '\n' ∉ letters
  | _ => True

theorem plain_of_open? {c : Char} {mode : Mode} (h : open? c = some mode) : mode.Plain := by
  unfold open? at h
  split at h
  · cases h
    trivial
  · split at h
    · cases h
      exact (by decide : '\n' ∉ ['u', 'l', 'l'])
    · split at h
      · cases h
        exact (by decide : '\n' ∉ ['r', 'u', 'e'])
      · split at h
        · cases h
          exact (by decide : '\n' ∉ ['a', 'l', 's', 'e'])
        · obtain ⟨n, -, rfl⟩ := Option.map_eq_some_iff.mp h
          trivial

theorem exists_plain_of_stepBetween {c : Char} {cs : List Char}
    (h : ((stepBetween c).scan cs).isSome) : ∃ mode, mode.Plain ∧ (scan mode cs).isSome := by
  by_cases hspace : isSpace c = true
  · rw [stepBetween_of_isSpace hspace] at h
    exact ⟨.between, trivial, h⟩
  · cases hmark : mark? c with
    | some t =>
      rw [stepBetween_of_mark? hmark] at h
      exact ⟨.between, trivial, by simpa [Step.scan] using h⟩
    | none =>
      rw [stepBetween, if_neg hspace, hmark] at h
      cases hopen : open? c with
      | none =>
        rw [hopen] at h
        cases h
      | some mode =>
        rw [hopen] at h
        exact ⟨mode, plain_of_open? hopen, h⟩

theorem exists_plain_of_scan_cons {mode : Mode} {c : Char} {cs : List Char} (hplain : mode.Plain)
    (h : (scan mode (c :: cs)).isSome) : ∃ mode', mode'.Plain ∧ (scan mode' cs).isSome := by
  have hafter (t : Token) (h : ((stepAfter t c).scan cs).isSome) :
      ∃ mode', mode'.Plain ∧ (scan mode' cs).isSome := by
    rw [scan_stepAfter, Option.isSome_map, scan_between_cons] at h
    exact exists_plain_of_stepBetween h
  rw [scan_cons] at h
  cases mode with
  | between => exact exists_plain_of_stepBetween h
  | word letters t =>
    match letters with
    | [] => exact hafter t h
    | [l] =>
      rw [Mode.step] at h
      split at h
      · exact ⟨.between, trivial, by simpa [Step.scan] using h⟩
      · cases h
    | l :: l' :: ls =>
      rw [Mode.step] at h
      · split at h
        · exact ⟨.word (l' :: ls) t, fun hmem => hplain (List.mem_cons_of_mem _ hmem), h⟩
        · cases h
      · simp
  | number n =>
    rw [Mode.step] at h
    split at h
    · exact ⟨.number _, trivial, h⟩
    · split at h
      · exact hafter _ h
      · cases h
  | text t =>
    rw [Mode.step] at h
    split at h
    · exact ⟨.text _, trivial, h⟩
    · exact ⟨.between, trivial, by simpa [Step.scan] using h⟩
    · cases h

theorem step_of_wrong_digit {t : TextLexeme} {c : Char} {taken value : Nat} {sound : Bool}
    (ht : t.escape = .code taken value sound) (hc : sound = false ∨ TextLexeme.hexValue? c = none) :
    t.step c = .broken ∨ ∃ t' taken' value', t.step c = .more t' ∧
      t'.escape = .code taken' value' false := by
  unfold TextLexeme.step
  simp only [ht]
  cases hdigit : TextLexeme.hexValue? c with
  | none =>
    split
    · exact .inr ⟨_, _, _, rfl, rfl⟩
    · exact .inl (if_neg Bool.false_ne_true)
  | some d =>
    obtain rfl : sound = false := by simpa [hdigit] using hc
    split
    · exact .inr ⟨_, _, _, rfl, rfl⟩
    · exact .inl (if_neg Bool.false_ne_true)

theorem scan_wrong_digit (cs : List Char) {t : TextLexeme} {taken value : Nat}
    (ht : t.escape = .code taken value false) : scan (.text t) cs = none := by
  induction cs generalizing t taken value with
  | nil => rfl
  | cons c cs ih =>
    rw [scan_cons, Mode.step]
    rcases step_of_wrong_digit ht (.inl rfl) with h | ⟨t', _, _, h, ht'⟩
    · rw [h]
      rfl
    · rw [h]
      exact ih ht'

theorem isSome_scan_between_of_newline {mode : Mode} {cs : List Char} (hplain : mode.Plain)
    (h : (scan mode ('\n' :: cs)).isSome) : (scan .between cs).isSome := by
  have hafter (t : Token) (h : ((stepAfter t '\n').scan cs).isSome) :
      (scan .between cs).isSome := by
    rwa [scan_stepAfter, Option.isSome_map, scan_between_cons] at h
  rw [scan_cons] at h
  cases mode with
  | between => exact h
  | word letters t =>
    match letters with
    | [] => exact hafter t h
    | [l] =>
      rw [Mode.step] at h
      split at h
      · simpa [Step.scan] using h
      · cases h
    | l :: l' :: ls =>
      rw [Mode.step] at h
      · split at h
        · rename_i hl
          exact absurd (beq_iff_eq.mp hl ▸ List.mem_cons_self) hplain
        · cases h
      · simp
  | number n =>
    have hextend : n.extend '\n' = none := by
      unfold NumberLexeme.extend
      cases n.part <;> rfl
    rw [Mode.step, hextend] at h
    simp only at h
    split at h
    · exact hafter _ h
    · cases h
  | text t =>
    rw [Mode.step] at h
    cases hescape : t.escape with
    | none =>
      rw [TextLexeme.step, hescape] at h
      cases h
    | opened =>
      rw [TextLexeme.step, hescape] at h
      cases h
    | code taken value sound =>
      -- a line feed is taken as a digit before the escape turns out to be wrong
      have hfeed : TextLexeme.hexValue? '\n' = none := rfl
      rcases step_of_wrong_digit hescape (.inr hfeed) with hstep | ⟨t', _, _, hstep, ht'⟩
      · rw [hstep] at h
        cases h
      · rw [hstep] at h
        simp only [Step.scan, scan_wrong_digit cs ht'] at h
        cases h

/-- **No token reaches past a line feed.** -/
theorem isSome_scan_between_of_append {mode : Mode} {before after : List Char}
    (hplain : mode.Plain) (h : (scan mode (before ++ '\n' :: after)).isSome) :
    (scan .between after).isSome := by
  induction before generalizing mode with
  | nil => exact isSome_scan_between_of_newline hplain h
  | cons c before ih =>
    obtain ⟨mode', hplain', h'⟩ := exists_plain_of_scan_cons hplain h
    exact ih hplain' h'

end Chronicle.Json
