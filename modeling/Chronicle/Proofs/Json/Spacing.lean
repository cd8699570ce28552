import Mathlib.Data.List.Chain
import Chronicle.Proofs.Json.Lexing
import Chronicle.Text.Blank

/-!
# The space between tokens

* `printed`: the tokens of a printed value, each with its characters.
* `Spaced`: texts of these tokens with any space in front of each and at the end. What either printer
  prints is one (`spaced_compactChars`, `spaced_prettyChars`).
* `scan_spaced`: all such texts are cut into the same tokens.

Of two adjacent tokens of a value one is a mark (`isChain_printed`). A number or a word is therefore
followed by space, by a mark or by nothing, and ends there.
-/

namespace Chronicle.Json

/-! ## Tokens of a value -/

/-- A token and the characters that are printed for it. -/
structure Printed where
  chars : List Char
  token : Token

mutual

/-- The tokens that are printed for a value. -/
def printed : Json → List Printed
  | .null => [⟨scalarText .null, .null⟩]
  | .bool b => [⟨scalarText (.bool b), .bool b⟩]
  | .number n => [⟨numberText n, .number (readBack n)⟩]
  | .text s => [⟨quoted s, .text (some s)⟩]
  | .list items => ⟨['['], .openList⟩ :: printedItems items ++ [⟨[']'], .closeList⟩]
  | .record members =>
    ⟨['\x7b'], .openRecord⟩ :: printedMembers members ++ [⟨['\x7d'], .closeRecord⟩]

def printedItems : List Json → List Printed
  | [] => []
  | [v] => printed v
  | v :: vs => printed v ++ ⟨[','], .comma⟩ :: printedItems vs

def printedMembers : List (String × Json) → List Printed
  | [] => []
  | [(k, v)] => ⟨quoted k, .text (some k)⟩ :: ⟨[':'], .colon⟩ :: printed v
  | (k, v) :: vs =>
    ⟨quoted k, .text (some k)⟩ :: ⟨[':'], .colon⟩ :: printed v ++ ⟨[','], .comma⟩ ::
      printedMembers vs

end

/-- Texts of these tokens with any space in front of each and at the end. -/
inductive Spaced : List Printed → List Char → Prop where
  | nil {gap : List Char} : (∀ c ∈ gap, isSpace c = true) → Spaced [] gap
  | cons {gap : List Char} {p : Printed} {ps : List Printed} {cs : List Char} :
    (∀ c ∈ gap, isSpace c = true) → Spaced ps cs → Spaced (p :: ps) (gap ++ p.chars ++ cs)

namespace Printed

def IsMark (p : Printed) : Prop := ∃ c, p.chars = [c] ∧ mark? c = some p.token

/-- Of two adjacent tokens one is a mark. -/
def Apart (p q : Printed) : Prop := p.IsMark ∨ q.IsMark

/-- The token is read from its characters, where a number could end after them. -/
def Reads (p : Printed) : Prop :=
  ∀ cs, EndsNumber cs → scan .between (p.chars ++ cs) = (scan .between cs).map (p.token :: ·)

theorem IsMark.reads {p : Printed} (h : p.IsMark) (cs : List Char) :
    scan .between (p.chars ++ cs) = (scan .between cs).map (p.token :: ·) := by
  obtain ⟨c, hchars, hmark⟩ := h
  rw [hchars]
  exact scan_mark hmark cs

end Printed

theorem Spaced.endsNumber {p : Printed} {ps : List Printed} {cs : List Char} (h : Spaced ps cs)
    (hapart : ∀ q, ps.head? = some q → p.Apart q) (hp : ¬ p.IsMark) : EndsNumber cs := by
  intro c hc
  cases h with
  | nil hgap => exact .inl (hgap c (List.mem_of_mem_head? hc))
  | @cons gap q ps cs hgap hrest =>
    cases gap with
    | cons d gap =>
      obtain rfl := Option.some.inj hc
      exact .inl (hgap d List.mem_cons_self)
    | nil =>
      obtain ⟨d, hchars, hmark⟩ := (hapart q rfl).resolve_left hp
      rw [List.nil_append, hchars] at hc
      obtain rfl := Option.some.inj hc
      exact .inr (by rw [hmark]; rfl)

theorem scan_of_spaced {ps : List Printed} {cs : List Char} (h : Spaced ps cs)
    (hreads : ∀ p ∈ ps, p.Reads) (hapart : ps.IsChain Printed.Apart) :
    scan .between cs = some (ps.map Printed.token) := by
  induction h with
  | @nil gap hgap =>
    rw [← List.append_nil gap, scan_spaces hgap]
    rfl
  | @cons gap p ps cs hgap hrest ih =>
    obtain ⟨hp, hps⟩ := List.forall_mem_cons.mp hreads
    obtain ⟨hnext, hchain⟩ := List.isChain_cons.mp hapart
    have hread : scan .between (p.chars ++ cs) = (scan .between cs).map (p.token :: ·) := by
      by_cases hmark : p.IsMark
      · exact hmark.reads cs
      · exact hp cs (hrest.endsNumber hnext hmark)
    rw [List.append_assoc, scan_spaces hgap, hread, ih hps hchain]
    rfl

namespace Printed

theorem isChain_append_mark {ps qs : List Printed} {q : Printed} (hq : q.IsMark)
    (hps : ps.IsChain Apart) (hqs : qs.IsChain Apart) : (ps ++ q :: qs).IsChain Apart := by
  rw [List.isChain_append, List.isChain_cons]
  refine ⟨hps, ⟨fun _ _ => .inl hq, hqs⟩, fun p _ q' hq' => ?_⟩
  obtain rfl := Option.some.inj hq'
  exact .inr hq

theorem isChain_mark_cons {qs : List Printed} {q : Printed} (hq : q.IsMark)
    (hqs : qs.IsChain Apart) : (q :: qs).IsChain Apart :=
  List.isChain_cons.mpr ⟨fun _ _ => .inl hq, hqs⟩

theorem isMark_comma : (⟨[','], .comma⟩ : Printed).IsMark := ⟨',', rfl, rfl⟩

theorem isMark_colon : (⟨[':'], .colon⟩ : Printed).IsMark := ⟨':', rfl, rfl⟩

theorem isMark_openList : (⟨['['], .openList⟩ : Printed).IsMark := ⟨'[', rfl, rfl⟩

theorem isMark_closeList : (⟨[']'], .closeList⟩ : Printed).IsMark := ⟨']', rfl, rfl⟩

theorem isMark_openRecord : (⟨['\x7b'], .openRecord⟩ : Printed).IsMark := ⟨'\x7b', rfl, rfl⟩

theorem isMark_closeRecord : (⟨['\x7d'], .closeRecord⟩ : Printed).IsMark := ⟨'\x7d', rfl, rfl⟩

end Printed

open Printed

theorem isChain_name_cons {ps : List Printed} (k : String) (h : ps.IsChain Apart) :
    (⟨quoted k, .text (some k)⟩ :: ⟨[':'], .colon⟩ :: ps : List Printed).IsChain Apart := by
  refine List.isChain_cons.mpr ⟨fun q hq => ?_, isChain_mark_cons isMark_colon h⟩
  obtain rfl := Option.some.inj hq
  exact .inr isMark_colon

mutual

theorem isChain_printed (v : Json) : (printed v).IsChain Apart := by
  cases v with
  | list items =>
    exact isChain_mark_cons isMark_openList
      (isChain_append_mark isMark_closeList (isChain_printedItems items) .nil)
  | record members =>
    exact isChain_mark_cons isMark_openRecord
      (isChain_append_mark isMark_closeRecord (isChain_printedMembers members) .nil)
  | _ => exact .singleton _

theorem isChain_printedItems (vs : List Json) : (printedItems vs).IsChain Apart := by
  match vs with
  | [] => exact .nil
  | [v] => exact isChain_printed v
  | v :: w :: vs =>
    exact isChain_append_mark isMark_comma (isChain_printed v) (isChain_printedItems (w :: vs))

theorem isChain_printedMembers (ms : List (String × Json)) :
    (printedMembers ms).IsChain Apart := by
  match ms with
  | [] => exact .nil
  | [(k, v)] => exact isChain_name_cons k (isChain_printed v)
  | (k, v) :: m :: ms =>
    exact isChain_append_mark isMark_comma (isChain_name_cons k (isChain_printed v))
      (isChain_printedMembers (m :: ms))

end

/-- The tokens that values are printed with. -/
inductive Printed.Occurs : Printed → Prop where
  | mark {p : Printed} : p.IsMark → Occurs p
  | null : Occurs ⟨scalarText .null, .null⟩
  | bool (b : Bool) : Occurs ⟨scalarText (.bool b), .bool b⟩
  | number (n : Number) : Occurs ⟨numberText n, .number (readBack n)⟩
  | text (s : String) : Occurs ⟨quoted s, .text (some s)⟩

mutual

theorem occurs_of_mem_printed (v : Json) : ∀ p ∈ printed v, p.Occurs := by
  cases v with
  | null => exact List.forall_mem_singleton.mpr .null
  | bool b => exact List.forall_mem_singleton.mpr (.bool b)
  | number n => exact List.forall_mem_singleton.mpr (.number n)
  | text s => exact List.forall_mem_singleton.mpr (.text s)
  | list items =>
    refine List.forall_mem_cons.mpr ⟨.mark isMark_openList, List.forall_mem_append.mpr ?_⟩
    exact ⟨occurs_of_mem_printedItems items, List.forall_mem_singleton.mpr (.mark isMark_closeList)⟩
  | record members =>
    refine List.forall_mem_cons.mpr ⟨.mark isMark_openRecord, List.forall_mem_append.mpr ?_⟩
    exact ⟨occurs_of_mem_printedMembers members,
      List.forall_mem_singleton.mpr (.mark isMark_closeRecord)⟩

theorem occurs_of_mem_printedItems (vs : List Json) : ∀ p ∈ printedItems vs, p.Occurs := by
  match vs with
  | [] => exact fun _ h => absurd h List.not_mem_nil
  | [v] => exact occurs_of_mem_printed v
  | v :: w :: vs =>
    refine List.forall_mem_append.mpr ⟨occurs_of_mem_printed v, List.forall_mem_cons.mpr ?_⟩
    exact ⟨.mark isMark_comma, occurs_of_mem_printedItems (w :: vs)⟩

theorem occurs_of_mem_printedMembers (ms : List (String × Json)) :
    ∀ p ∈ printedMembers ms, p.Occurs := by
  have hmember (k : String) (v : Json) (h : ∀ p ∈ printed v, p.Occurs) :
      ∀ p ∈ ⟨quoted k, .text (some k)⟩ :: ⟨[':'], .colon⟩ :: printed v, p.Occurs :=
    List.forall_mem_cons.mpr ⟨.text k, List.forall_mem_cons.mpr ⟨.mark isMark_colon, h⟩⟩
  match ms with
  | [] => exact fun _ h => absurd h List.not_mem_nil
  | [(k, v)] => exact hmember k v (occurs_of_mem_printed v)
  | (k, v) :: m :: ms =>
    refine List.forall_mem_append.mpr ⟨hmember k v (occurs_of_mem_printed v), ?_⟩
    exact List.forall_mem_cons.mpr ⟨.mark isMark_comma, occurs_of_mem_printedMembers (m :: ms)⟩

end

theorem Printed.Occurs.reads {p : Printed} (h : p.Occurs) : p.Reads := by
  intro cs hcs
  cases h with
  | mark hmark => exact hmark.reads cs
  | null => exact scan_null cs
  | bool b =>
    cases b with
    | true => exact scan_true cs
    | false => exact scan_false cs
  | number n => exact scan_numberText n hcs
  | text s => exact scan_quoted s cs

def tokens (v : Json) : List Token := (printed v).map Printed.token

/-- **The space between the tokens of a value makes no difference.** -/
theorem scan_spaced {v : Json} {cs : List Char} (h : Spaced (printed v) cs) :
    scan .between cs = some (tokens v) :=
  scan_of_spaced h (fun p hp => (occurs_of_mem_printed v p hp).reads) (isChain_printed v)

/-! ## No space at all -/

theorem isSpace_of_mem_nil : ∀ c ∈ ([] : List Char), isSpace c = true := by simp

theorem isBlank_of_isSpace {c : Char} (h : isSpace c = true) : Text.isBlank c = true := by
  simp only [isSpace, Bool.or_eq_true, beq_iff_eq] at h
  rcases h with ((rfl | rfl) | rfl) | rfl <;> rfl

theorem spaced_flatMap (ps : List Printed) : Spaced ps (ps.flatMap Printed.chars) := by
  induction ps with
  | nil => exact .nil isSpace_of_mem_nil
  | cons p ps ih => exact .cons isSpace_of_mem_nil ih

mutual

theorem flatMap_chars_printed (v : Json) : (printed v).flatMap Printed.chars = compactChars v := by
  cases v with
  | list items =>
    rw [printed, List.flatMap_append, List.flatMap_cons, flatMap_chars_printedItems items]
    rfl
  | record members =>
    rw [printed, List.flatMap_append, List.flatMap_cons, flatMap_chars_printedMembers members]
    rfl
  | _ => exact List.append_nil _

theorem flatMap_chars_printedItems (vs : List Json) :
    (printedItems vs).flatMap Printed.chars = compactItems vs := by
  match vs with
  | [] => rfl
  | [v] => exact flatMap_chars_printed v
  | v :: w :: vs =>
    rw [printedItems, List.flatMap_append, List.flatMap_cons, flatMap_chars_printed v,
      flatMap_chars_printedItems (w :: vs)]
    · rfl
    · simp

theorem flatMap_chars_printedMembers (ms : List (String × Json)) :
    (printedMembers ms).flatMap Printed.chars = compactMembers ms := by
  match ms with
  | [] => rfl
  | [(k, v)] =>
    rw [printedMembers, List.flatMap_cons, List.flatMap_cons, flatMap_chars_printed v]
    rfl
  | (k, v) :: m :: ms =>
    rw [printedMembers, List.flatMap_append, List.flatMap_cons, List.flatMap_cons,
      List.flatMap_cons, flatMap_chars_printed v, flatMap_chars_printedMembers (m :: ms)]
    · simp [compactMembers]
    · simp

end

theorem spaced_compactChars (v : Json) : Spaced (printed v) (compactChars v) := by
  rw [← flatMap_chars_printed]
  exact spaced_flatMap (printed v)

/-! ## A line for each item -/

theorem Spaced.gap_append {ps : List Printed} {cs gap : List Char}
    (hgap : ∀ c ∈ gap, isSpace c = true) (h : Spaced ps cs) : Spaced ps (gap ++ cs) := by
  cases h with
  | nil hrest => exact .nil (List.forall_mem_append.mpr ⟨hgap, hrest⟩)
  | @cons gap' p ps cs hgap' hrest =>
    rw [← List.append_assoc, ← List.append_assoc]
    exact .cons (List.forall_mem_append.mpr ⟨hgap, hgap'⟩) hrest

theorem Spaced.append {ps qs : List Printed} {cs ds : List Char} (hps : Spaced ps cs)
    (hqs : Spaced qs ds) : Spaced (ps ++ qs) (cs ++ ds) := by
  induction hps with
  | nil hgap => exact hqs.gap_append hgap
  | cons hgap _ ih =>
    rw [List.append_assoc]
    exact .cons hgap ih

theorem spaced_singleton (p : Printed) : Spaced [p] p.chars := by
  have h : Spaced [p] ([] ++ p.chars ++ []) := .cons isSpace_of_mem_nil (.nil isSpace_of_mem_nil)
  simpa using h

theorem isSpace_of_mem_newLine (level : Nat) {c : Char} (h : c ∈ newLine level) :
    isSpace c = true := by
  rcases List.mem_cons.mp h with rfl | h
  · rfl
  · rw [List.eq_of_mem_replicate h]
    rfl

mutual

/-- **The two printers print the same tokens.** -/
theorem spaced_prettyChars (v : Json) (level : Nat) : Spaced (printed v) (prettyChars level v) := by
  match v with
  | .null => exact spaced_singleton _
  | .bool b => exact spaced_singleton _
  | .number n => exact spaced_singleton _
  | .text s => exact spaced_singleton _
  | .list [] => exact (spaced_singleton ⟨['['], .openList⟩).append (spaced_singleton ⟨[']'], .closeList⟩)
  | .list (v :: vs) =>
    have hclose := (spaced_singleton ⟨[']'], .closeList⟩).gap_append
      fun _ => isSpace_of_mem_newLine level
    have h := (spaced_singleton ⟨['['], .openList⟩).append
      ((spaced_prettyItems (v :: vs) (level + 1)).append hclose)
    simpa [printed, prettyChars] using h
  | .record [] =>
    exact (spaced_singleton ⟨['\x7b'], .openRecord⟩).append
      (spaced_singleton ⟨['\x7d'], .closeRecord⟩)
  | .record (m :: ms) =>
    have hclose := (spaced_singleton ⟨['\x7d'], .closeRecord⟩).gap_append
      fun _ => isSpace_of_mem_newLine level
    have h := (spaced_singleton ⟨['\x7b'], .openRecord⟩).append
      ((spaced_prettyMembers (m :: ms) (level + 1)).append hclose)
    simpa [printed, prettyChars] using h

theorem spaced_prettyItems (vs : List Json) (level : Nat) :
    Spaced (printedItems vs) (prettyItems level vs) := by
  have hitem (v : Json) (h : Spaced (printed v) (prettyChars level v)) :
      Spaced (printed v) (newLine level ++ prettyChars level v) :=
    h.gap_append fun _ => isSpace_of_mem_newLine level
  match vs with
  | [] => exact .nil (by simp [prettyItems])
  | [v] => exact hitem v (spaced_prettyChars v level)
  | v :: w :: vs =>
    have h := (hitem v (spaced_prettyChars v level)).append
      ((spaced_singleton ⟨[','], .comma⟩).append (spaced_prettyItems (w :: vs) level))
    simpa [printedItems, prettyItems] using h

theorem spaced_prettyMembers (ms : List (String × Json)) (level : Nat) :
    Spaced (printedMembers ms) (prettyMembers level ms) := by
  have hmember (k : String) (v : Json) (h : Spaced (printed v) (prettyChars level v)) :
      Spaced (⟨quoted k, .text (some k)⟩ :: ⟨[':'], .colon⟩ :: printed v)
        (newLine level ++ (quoted k ++ ([':'] ++ ([' '] ++ prettyChars level v)))) :=
    ((spaced_singleton ⟨quoted k, .text (some k)⟩).append
      ((spaced_singleton ⟨[':'], .colon⟩).append (h.gap_append (List.forall_mem_singleton.mpr rfl)))).gap_append
        fun _ => isSpace_of_mem_newLine level
  match ms with
  | [] => exact .nil (by simp [prettyMembers])
  | [(k, v)] =>
    have h := hmember k v (spaced_prettyChars v level)
    simpa [printedMembers, prettyMembers] using h
  | (k, v) :: m :: ms =>
    have h := (hmember k v (spaced_prettyChars v level)).append
      ((spaced_singleton ⟨[','], .comma⟩).append (spaced_prettyMembers (m :: ms) level))
    simpa [printedMembers, prettyMembers] using h

end

/-! ## Line feeds -/

theorem Printed.Occurs.newline_notMem {p : Printed} (h : p.Occurs) : '\n' ∉ p.chars := by
  cases h with
  | mark hmark =>
    obtain ⟨c, hchars, hc⟩ := hmark
    rw [hchars, List.mem_singleton]
    rintro rfl
    cases hc
  | null => decide
  | bool b => cases b <;> decide
  | number n => exact newline_notMem_numberText n
  | text s => exact newline_notMem_quoted s

/-- **A value is printed on one line.** -/
theorem newline_notMem_compactChars (v : Json) : '\n' ∉ compactChars v := by
  intro h
  rw [← flatMap_chars_printed] at h
  obtain ⟨p, hp, hchar⟩ := List.mem_flatMap.mp h
  exact (occurs_of_mem_printed v p hp).newline_notMem hchar

end Chronicle.Json
