import Chronicle.Proofs.Decimal.Digits
import Chronicle.Proofs.Json.Number
import Chronicle.Toml.Reader
import Mathlib.Data.List.Basic

/-!
# Written tables are read back

A table is written as a header and a line for each of its pairs.

* `Reads`: a text that is read as a value up to the end of its line. `reads_digitsOf`, `reads_quoted`
  and the words for truth values are such texts.
* `Pair`, `Table`: what is written, with what makes it readable.
* `lines?_header`, `lines?_pair`: what one line adds to the document read so far. `lines?_table` says
  it of a whole table, by induction on its pairs.
-/

namespace Chronicle.Toml

open Json (IsDigits IsWhole isWhole_digitsOf)

/-! ## Characters -/

theorem ne_of_holds {holds : Char → Bool} {c d : Char} (hc : holds c = true)
    (hd : holds d = false) : c ≠ d :=
  ne_of_apply_ne holds (by rw [hc, hd]; exact Bool.noConfusion)

theorem beq_of_holds {holds : Char → Bool} {c d : Char} (hc : holds c = true)
    (hd : holds d = false) : (c == d) = false :=
  beq_eq_false_iff_ne.mpr (ne_of_holds hc hd)

/-! ## Numbers -/

/-- A text that is read as a value, however the document goes on after its line. -/
def Reads (text : List Char) (v : Toml) : Prop :=
  ∀ steps rest, value? 0 (steps + 1) (text ++ '\n' :: rest) = some (v, '\n' :: rest)

section numbers
variable {holds : Char → Bool} {c : Char} {cs ds rest : List Char} {steps count value n : Nat}

theorem digitRun?_cons (hc : holds c = true) (hcs : cs.head? ≠ some '_') :
    digitRun? holds (steps + 1) (c :: cs) =
      match digitRun? holds steps cs with
      | some (more, rest) => some (c :: more, rest)
      | none => some ([c], cs) := by
  have hnot (d : Char) (rest : List Char) (heq : cs = '_' :: d :: rest) : False := by
    rw [heq] at hcs
    exact hcs rfl
  exact (digitRun?.eq_3 _ _ _ _ hnot).trans (if_pos hc)

theorem digitRun?_newline (steps : Nat) (rest : List Char) :
    digitRun? Char.isDigit steps ('\n' :: rest) = none := by
  cases steps with
  | zero => rfl
  | succ steps =>
    unfold digitRun?
    rfl

theorem digitRun?_digits (hds : IsDigits ds) (hsteps : ds.length ≤ steps) (rest : List Char) :
    digitRun? Char.isDigit steps (ds ++ '\n' :: rest) = some (ds, '\n' :: rest) := by
  obtain ⟨hne, hdigits⟩ := hds
  induction ds generalizing steps with
  | nil => exact absurd rfl hne
  | cons c ds ih =>
    obtain ⟨steps, rfl⟩ : ∃ k, steps = k + 1 := ⟨steps - 1, by simp at hsteps; omega⟩
    have hc := hdigits c List.mem_cons_self
    cases ds with
    | nil => rw [List.singleton_append, digitRun?_cons hc (by simp), digitRun?_newline]
    | cons d ds =>
      have hd : d ≠ '_' := by
        rintro rfl
        exact absurd (hdigits '_' (by simp)) (by decide)
      rw [List.cons_append, digitRun?_cons hc (by simpa using hd),
        ih (by simp at hsteps ⊢; omega) (by simp)
          fun x hx => hdigits x (List.mem_cons_of_mem _ hx)]

theorem head?_of_append_eq_cons (hds : ds ≠ []) {after : List Char} (h : ds ++ rest = c :: after) :
    ds.head? = some c := by
  cases ds with
  | nil => exact absurd rfl hds
  | cons d ds => exact congrArg List.head? h

theorem wholeDigits?_digits (hds : IsWhole ds) (rest : List Char) :
    wholeDigits? (ds ++ '\n' :: rest) = some (ds, '\n' :: rest) := by
  obtain ⟨hdigits, hzero⟩ := hds
  unfold wholeDigits?
  split
  · rename_i more heq
    have hone := hzero (head?_of_append_eq_cons hdigits.1 heq)
    rw [hone] at heq ⊢
    obtain ⟨-, rfl⟩ := List.cons.inj heq
    rfl
  · exact digitRun?_digits hdigits (by simp) rest

theorem after?_digits (hds : ∀ d ∈ ds, d.isDigit = true)
    (hholds : ∀ d, d.isDigit = true ∨ d = '\n' → holds d = false) (rest : List Char) :
    Time.Moment.after? holds (ds ++ '\n' :: rest) = none := by
  cases ds with
  | nil => rw [List.nil_append, Time.Moment.after?, hholds _ (.inr rfl)]; rfl
  | cons d ds =>
    rw [List.cons_append, Time.Moment.after?, hholds d (.inl (hds d List.mem_cons_self))]
    rfl

theorem digits?_digits (hds : ∀ d ∈ ds, d.isDigit = true) (count value : Nat) (rest : List Char) :
    Time.Moment.digits? count value (ds ++ '\n' :: rest) = none ∨
      ∃ value' ds', (∀ d ∈ ds', d.isDigit = true) ∧
        Time.Moment.digits? count value (ds ++ '\n' :: rest) = some (value', ds' ++ '\n' :: rest) := by
  induction count generalizing value ds with
  | zero => exact .inr ⟨value, ds, hds, rfl⟩
  | succ count ih =>
    cases ds with
    | nil => exact .inl rfl
    | cons d ds =>
      rw [List.cons_append, Time.Moment.digits?, if_pos (hds d List.mem_cons_self)]
      exact ih (fun x hx => hds x (List.mem_cons_of_mem _ hx)) _

theorem date?_digits (hds : ∀ d ∈ ds, d.isDigit = true) (rest : List Char) :
    date? (ds ++ '\n' :: rest) = none := by
  have hmark (mark : Char) (hdigit : mark.isDigit = false) (hnewline : mark ≠ '\n') (ds : List Char)
      (hds : ∀ d ∈ ds, d.isDigit = true) :
      Time.Moment.after? (· == mark) (ds ++ '\n' :: rest) = none := by
    refine after?_digits hds ?_ rest
    rintro d (hd | rfl)
    · exact beq_of_holds hd hdigit
    · exact beq_eq_false_iff_ne.mpr hnewline.symm
  have hdate : calendarDate? (ds ++ '\n' :: rest) = none := by
    rw [calendarDate?]
    rcases digits?_digits hds 4 0 rest with h | ⟨value, ds', hds', h⟩
    · rw [h]
      rfl
    · rw [h]
      simp only [Option.bind_eq_bind, Option.bind_some, hmark '-' rfl (by decide) ds' hds']
      rfl
  have htime : timeOfDay? (ds ++ '\n' :: rest) = none := by
    rw [timeOfDay?]
    rcases digits?_digits hds 2 0 rest with h | ⟨value, ds', hds', h⟩
    · rw [h]
      rfl
    · rw [h]
      simp only [Option.bind_eq_bind, Option.bind_some, hmark ':' rfl (by decide) ds' hds']
      rfl
  rw [date?, hdate, htime]
  rfl

theorem sign_digits (hds : IsDigits ds) (rest : List Char) :
    sign (ds ++ '\n' :: rest) = (false, ds ++ '\n' :: rest) := by
  obtain ⟨c, cs, rfl⟩ := List.exists_cons_of_ne_nil hds.1
  have hc := hds.2 c List.mem_cons_self
  rw [List.cons_append, sign]
  unfold Decimal.splitSign
  split
  · rename_i heq
    exact absurd (List.cons.inj heq).1 (ne_of_holds hc rfl)
  · rename_i heq
    exact absurd (List.cons.inj heq).1 (ne_of_holds hc rfl)
  · rfl

theorem float?_digits (hds : IsWhole ds) (rest : List Char) : float? (ds ++ '\n' :: rest) = none := by
  obtain ⟨c, cs, rfl⟩ := List.exists_cons_of_ne_nil hds.1.1
  have hc := hds.1.2 c List.mem_cons_self
  have hword (word : List Char) (d : Char) (hd : d.isDigit = false) :
      List.isPrefixOf (d :: word) (c :: cs ++ '\n' :: rest) = false := by
    rw [List.cons_append, List.isPrefixOf, Bool.beq_comm, beq_of_holds hc hd, Bool.false_and]
  rw [float?, sign_digits hds.1]
  simp only [hword _ 'i' rfl, hword _ 'n' rfl, wholeDigits?_digits hds]
  rfl

theorem basedInt?_digits (hds : IsWhole ds) (rest : List Char) :
    basedInt? (ds ++ '\n' :: rest) = none := by
  unfold basedInt?
  split
  · rename_i mark more heq
    rw [hds.2 (head?_of_append_eq_cons hds.1.1 heq)] at heq
    obtain ⟨-, heq⟩ := List.cons.inj heq
    obtain ⟨rfl, -⟩ := List.cons.inj heq
    rfl
  · rfl

theorem valueIn_ten (hds : ∀ d ∈ ds, d.isDigit = true) :
    valueIn 10 ds = Decimal.valueOf (ds.map Decimal.digitValue) := by
  rw [valueIn, Decimal.valueOf, List.foldl_map]
  refine List.foldl_ext _ _ _ fun n d hd => ?_
  rw [hexValue?, if_pos (hds d hd)]
  rfl

theorem fit?_natCast (hn : n < 0x8000000000000000) : fit? (n : Int) = some (.int n) := by
  rw [fit?, if_pos]
  simp only [Bool.and_eq_true, decide_eq_true_eq]
  omega

theorem decimalInt?_digitsOf (hn : n < 0x8000000000000000) (rest : List Char) :
    decimalInt? (digitsOf n ++ '\n' :: rest) = some (.int n, '\n' :: rest) := by
  have hwhole := isWhole_digitsOf n
  rw [decimalInt?, sign_digits hwhole.1]
  dsimp only
  rw [wholeDigits?_digits hwhole, Option.bind_eq_bind, Option.bind_some]
  simp only [Bool.false_eq_true, if_false]
  rw [valueIn_ten hwhole.1.2, valueOf_digitsOf, fit?_natCast hn]
  rfl

theorem number?_digitsOf (hn : n < 0x8000000000000000) (rest : List Char) :
    number? (digitsOf n ++ '\n' :: rest) = some (.int n, '\n' :: rest) := by
  have hwhole := isWhole_digitsOf n
  rw [number?, date?_digits hwhole.1.2, float?_digits hwhole, basedInt?_digits hwhole,
    decimalInt?_digitsOf hn]
  rfl

/-- **The digits of a number are read as this number.** -/
theorem reads_digitsOf (hn : n < 0x8000000000000000) : Reads (digitsOf n) (.int n) := by
  intro steps rest
  have hnumber := number?_digitsOf hn rest
  obtain ⟨c, cs, hcs⟩ := List.exists_cons_of_ne_nil (isWhole_digitsOf n).1.1
  have hc : c.isDigit = true := (isWhole_digitsOf n).1.2 c (by rw [hcs]; exact List.mem_cons_self)
  have hne (d : Char) (hd : d.isDigit = false) : (c == d) = false := beq_of_holds hc hd
  rw [hcs, List.cons_append] at hnumber ⊢
  rw [value?]
  simp only [hne '\x22' rfl, hne singleQuote rfl, hne '[' rfl, hne '\x7b' rfl, hne 't' rfl,
    hne 'f' rfl, hne 'i' rfl, hne 'n' rfl, hc, Bool.or_false, Bool.true_or,
    Bool.false_eq_true, if_false, if_true]
  exact hnumber

end numbers

/-! ## Texts and truth values -/

section texts
variable {cs done rest : List Char} {steps : Nat}

/-- A character that stands for itself in a text in double quotes. -/
def isLiteral (c : Char) : Bool := isPlain c && c != '\x22' && c != '\\'

theorem basicText_literals (hcs : ∀ c ∈ cs, isLiteral c = true) (hsteps : cs.length < steps)
    (done rest : List Char) :
    basicText steps done (cs ++ '\x22' :: rest) =
      some (String.ofList (done.reverse ++ cs), rest) := by
  induction cs generalizing steps done with
  | nil =>
    obtain ⟨steps, rfl⟩ : ∃ k, steps = k + 1 := ⟨steps - 1, by simp at hsteps; omega⟩
    simp [basicText]
  | cons c cs ih =>
    obtain ⟨steps, rfl⟩ : ∃ k, steps = k + 1 := ⟨steps - 1, by simp at hsteps; omega⟩
    have hc := hcs c List.mem_cons_self
    simp only [isLiteral, Bool.and_eq_true, bne_iff_ne] at hc
    obtain ⟨⟨hplain, hquote⟩, hescape⟩ := hc
    have hlen : cs.length < steps := by simpa using hsteps
    have hrest := ih (fun d hd => hcs d (List.mem_cons_of_mem _ hd)) hlen (c :: done)
    simp [basicText, hquote, hescape, hplain, hrest]

/-- **A text in double quotes is read as this text.** -/
theorem reads_quoted {s : String} (hs : s.toList.all isLiteral) :
    Reads ('\x22' :: s.toList ++ ['\x22']) (.text s) := by
  intro steps rest
  have hliteral := List.all_eq_true.mp hs
  have hthree : afterThree? '\x22' ('\x22' :: (s.toList ++ '\x22' :: '\n' :: rest)) = none := by
    rw [afterThree?, if_neg]
    cases hlist : s.toList with
    | nil => simp [List.isPrefixOf]
    | cons c cs =>
      have hc := hliteral c (by rw [hlist]; exact List.mem_cons_self)
      simp only [isLiteral, Bool.and_eq_true, bne_iff_ne] at hc
      simp [List.isPrefixOf, Ne.symm hc.1.2]
  have hquoted : quoted? ('\x22' :: (s.toList ++ '\x22' :: '\n' :: rest)) = some (s, '\n' :: rest) := by
    rw [quoted?, hthree]
    simp [basicText_literals hliteral]
  rw [show '\x22' :: s.toList ++ ['\x22'] ++ '\n' :: rest =
    '\x22' :: (s.toList ++ '\x22' :: '\n' :: rest) by simp, value?, hquoted]
  rfl

theorem reads_true : Reads ['t', 'r', 'u', 'e'] (.bool true) := fun _ _ => rfl

theorem reads_false : Reads ['f', 'a', 'l', 's', 'e'] (.bool false) := fun _ _ => rfl

end texts

/-! ## Keys -/

/-- A name that is a key without quotes. -/
def IsKey (name : String) : Prop := name.toList ≠ [] ∧ name.toList.all isBare = true

instance (name : String) : Decidable (IsKey name) :=
  inferInstanceAs (Decidable (name.toList ≠ [] ∧ name.toList.all isBare = true))

section keys
variable {name : String} {c : Char} {cs after rest : List Char}

theorem IsKey.exists_cons (h : IsKey name) :
    ∃ c cs, name.toList = c :: cs ∧ isBare c = true ∧ ∀ d ∈ cs, isBare d = true := by
  obtain ⟨c, cs, hcs⟩ := List.exists_cons_of_ne_nil h.1
  have hall := List.all_eq_true.mp h.2
  rw [hcs] at hall
  exact ⟨c, cs, hcs, hall c List.mem_cons_self, fun d hd => hall d (List.mem_cons_of_mem _ hd)⟩

theorem dropGap_cons (hc : isGap c = false) (cs : List Char) : dropGap (c :: cs) = c :: cs := by
  rw [dropGap, List.dropWhile_cons_of_neg (by simp [hc])]

theorem isGap_of_isBare (hc : isBare c = true) : isGap c = false :=
  Bool.or_eq_false_iff.mpr ⟨beq_of_holds hc rfl, beq_of_holds hc rfl⟩

theorem keyPart?_append (h : IsKey name) (hafter : ∀ d ∈ after.head?, isBare d = false) :
    keyPart? (name.toList ++ after) = some (name, after) := by
  obtain ⟨c, cs, hcs, hc, hbare⟩ := h.exists_cons
  have hall : ∀ d ∈ c :: cs, isBare d = true := List.forall_mem_cons.mpr ⟨hc, hbare⟩
  have hstop : after.takeWhile isBare = [] ∧ after.dropWhile isBare = after := by
    cases after with
    | nil => exact ⟨rfl, rfl⟩
    | cons d after =>
      have hd := hafter d rfl
      exact ⟨List.takeWhile_cons_of_neg (by simp [hd]), List.dropWhile_cons_of_neg (by simp [hd])⟩
  rw [hcs, List.cons_append, keyPart?, ← List.cons_append,
    List.takeWhile_append_of_pos hall, List.dropWhile_append_of_pos hall, hstop.1, hstop.2,
    beq_of_holds hc rfl, beq_of_holds hc rfl, List.append_nil, ← hcs]
  simp [h.1]

theorem key?_append (h : IsKey name) (hafter : ∀ d ∈ after.head?, isBare d = false)
    (hgap : dropGap after = c :: rest) (hc : c ≠ '.') :
    key? (name.toList ++ after) = some (([], name), c :: rest) := by
  have hname : dropGap (name.toList ++ after) = name.toList ++ after := by
    obtain ⟨d, ds, hds, hd, -⟩ := h.exists_cons
    rw [hds, List.cons_append, dropGap_cons (isGap_of_isBare hd)]
  have hparts (steps : Nat) :
      keyParts? (steps + 1) (name.toList ++ after) = some ([name], c :: rest) := by
    rw [keyParts?, hname, keyPart?_append h hafter]
    simp only [Option.bind_eq_bind, Option.bind_some, hgap]
    split
    · rename_i heq
      exact absurd (List.cons.inj heq).1 hc
    · rfl
  rw [key?, show nestingLimit - 1 = 78 + 1 from rfl, hparts]
  rfl

end keys

/-! ## Lines -/

structure Pair where
  key : String
  text : List Char
  value : Toml
  isKey : IsKey key
  reads : Reads text value

def Pair.line (p : Pair) : List Char := p.key.toList ++ (' ' :: '=' :: ' ' :: p.text ++ ['\n'])

def Pair.entry (p : Pair) : String × Toml := (p.key, p.value)

/-- A table as it is written, with a header and its pairs. -/
structure Table where
  name : String
  pairs : List Pair
  isKey : IsKey name
  nodup : (pairs.map Pair.key).Nodup

def Table.lines (t : Table) : List Char :=
  '[' :: (t.name.toList ++ ']' :: '\n' :: t.pairs.flatMap Pair.line)

def Table.entry (t : Table) : String × Toml :=
  (t.name, .table false false (t.pairs.map Pair.entry))

section lines
variable {p : Progress} {c : Char} {cs rest text : List Char} {v : Toml} {steps : Nat}
  {name key : String} {before inner : Entries}

theorem Reads.dropGap (h : Reads text v) (rest : List Char) :
    Toml.dropGap (text ++ '\n' :: rest) = text ++ '\n' :: rest := by
  have hread := h 0 rest
  cases text with
  | nil => rfl
  | cons c text =>
    rw [List.cons_append]
    refine dropGap_cons ?_ _
    rw [isGap, Bool.or_eq_false_iff, beq_eq_false_iff_ne, beq_eq_false_iff_ne]
    constructor
    · rintro rfl
      cases hread
    · rintro rfl
      cases hread

theorem dropComment_cons (hmark : c ≠ '#') (cs : List Char) : dropComment (c :: cs) = c :: cs := by
  unfold dropComment
  split
  · rename_i heq
    exact absurd (List.cons.inj heq).1 hmark
  · rfl

theorem dropLines_cons (hc : isGap c = false) (hmark : c ≠ '#') (hfeed : c ≠ '\n')
    (hreturn : c ≠ '\r') (steps : Nat) (cs : List Char) :
    dropLines steps (c :: cs) = c :: cs := by
  cases steps with
  | zero => rfl
  | succ steps =>
    have hnewline : afterNewline? (c :: cs) = none := by
      unfold afterNewline?
      split
      · rename_i heq
        exact absurd (List.cons.inj heq).1 hfeed
      · rename_i heq
        exact absurd (List.cons.inj heq).1 hreturn
      · rfl
    rw [dropLines]
    simp only [dropGap_cons hc, dropComment_cons hmark, hnewline]

/-- A document goes on with the line that begins here. -/
theorem lines?_cons (hc : isGap c = false) (hmark : c ≠ '#') (hfeed : c ≠ '\n')
    (hreturn : c ≠ '\r') {p' : Progress} (hline : line? p (c :: cs) = some (p', rest)) :
    lines? (steps + 1) p (c :: cs) = lines? steps p' rest := by
  rw [lines?, dropLines_cons hc hmark hfeed hreturn]
  simp only [dropComment_cons hmark, List.isEmpty_cons, hline, Bool.false_eq_true, if_false]

theorem lines?_newline (steps : Nat) (p : Progress) (cs : List Char) :
    lines? (steps + 1) p ('\n' :: cs) = lines? (steps + 1) p cs := by
  rw [lines?, lines?]
  rfl

theorem afterLine?_newline (rest : List Char) : afterLine? ('\n' :: rest) = some rest := rfl

theorem lines?_header (h : IsKey name) (hnew : p.entries.lookup name = none) (rest : List Char) :
    lines? (steps + 1) p ('[' :: (name.toList ++ ']' :: '\n' :: rest)) =
      lines? steps ⟨p.entries ++ [(name, .table false false [])], some ([], name)⟩ rest := by
  have hkey : key? (name.toList ++ ']' :: '\n' :: rest) = some (([], name), ']' :: '\n' :: rest) :=
    key?_append h (by simp [isBare]) rfl (by decide)
  have henter : p.entries.enter [] name =
      some (p.entries ++ [(name, .table false false [])]) := by
    rw [Entries.enter, Entries.descend, hnew]
  obtain ⟨c, cs, hcs, hc, -⟩ := h.exists_cons
  refine lines?_cons rfl (by decide) (by decide) (by decide) ?_
  rw [line?.eq_2, hkey]
  · simp only [Option.bind_eq_bind, Option.bind_some, afterChar?, henter]
    rfl
  · intro cs' heq
    rw [hcs] at heq
    rw [(List.cons.inj heq).1] at hc
    exact absurd hc (by decide)

/-- The document so far, with a table at its end that is still being written. -/
def Progress.within (before : Entries) (name : String) (inner : Entries) : Progress :=
  ⟨before ++ [(name, .table false false inner)], some ([], name)⟩

theorem lookup_concat_of_none (h : before.lookup name = none) (v : Toml) :
    List.lookup name (before ++ [(name, v)]) = some v := by
  rw [List.lookup_append, h, Option.none_or, List.lookup_cons_self]

theorem replace_concat_of_none (h : before.lookup name = none) (v w : Toml) :
    Entries.replace name w (before ++ [(name, v)]) = before ++ [(name, w)] := by
  induction before with
  | nil => simp [Entries.replace]
  | cons e before ih =>
    rw [List.lookup_cons] at h
    split at h
    · cases h
    · rename_i hne
      have hne' : (e.1 == name) = false := by
        rw [beq_eq_false_iff_ne] at hne ⊢
        exact hne.symm
      rw [List.cons_append, Entries.replace, hne', ih h]
      rfl

theorem define_within (hname : before.lookup name = none) (hkey : inner.lookup key = none)
    (v : Toml) : (Progress.within before name inner).define [] key v =
      some (.within before name (inner ++ [(key, v)])) := by
  have hinner : Entries.define [] key v inner = some (inner ++ [(key, v)]) := by
    rw [Entries.define, Entries.descend, hkey]
    rfl
  simp only [Progress.define, Progress.within, List.nil_append, Entries.descend,
    lookup_concat_of_none hname, hinner, replace_concat_of_none hname]
  rfl

theorem lines?_pair (q : Pair) (hname : before.lookup name = none)
    (hkey : inner.lookup q.key = none) (rest : List Char) :
    lines? (steps + 1) (.within before name inner) (q.line ++ rest) =
      lines? steps (.within before name (inner ++ [q.entry])) rest := by
  obtain ⟨c, cs, hcs, hc, -⟩ := q.isKey.exists_cons
  have hread : key? (q.key.toList ++ ' ' :: '=' :: ' ' :: (q.text ++ '\n' :: rest)) =
      some (([], q.key), '=' :: ' ' :: (q.text ++ '\n' :: rest)) :=
    key?_append q.isKey (by simp [isBare]) rfl (by decide)
  have hne (d : Char) (hd : isBare d = false) : c ≠ d := ne_of_holds hc hd
  have hline : q.line ++ rest =
      q.key.toList ++ ' ' :: '=' :: ' ' :: (q.text ++ '\n' :: rest) := by
    simp [Pair.line]
  rw [hline, hcs, List.cons_append]
  refine lines?_cons (isGap_of_isBare hc) (hne _ rfl) (hne _ rfl) (hne _ rfl) ?_
  rw [← List.cons_append, ← hcs, line?.eq_3, hread]
  · have hgap : dropGap (' ' :: (q.text ++ '\n' :: rest)) = q.text ++ '\n' :: rest :=
      q.reads.dropGap rest
    simp only [Option.bind_eq_bind, Option.bind_some, afterChar?, beq_self_eq_true, if_true, hgap,
      q.reads _ rest, afterLine?_newline, define_within hname hkey]
    rfl
  -- a key without quotes does not begin with a bracket, so the line is no header
  · intro cs' heq
    rw [hcs, List.cons_append] at heq
    exact hne '[' rfl (List.cons.inj heq).1
  · intro cs' heq
    rw [hcs, List.cons_append] at heq
    exact hne '[' rfl (List.cons.inj heq).1

theorem lookup_eq_none_of_nodup {pairs : List Pair} {q : Pair}
    (h : (inner.map Prod.fst ++ (q :: pairs).map Pair.key).Nodup) : inner.lookup q.key = none := by
  rw [List.lookup_eq_none_iff]
  intro e he
  rw [bne_iff_ne]
  rintro heq
  exact (List.nodup_append.mp h).2.2 e.1 (List.mem_map_of_mem he) q.key (by simp) heq.symm

theorem lines?_pairs {pairs : List Pair} (hname : before.lookup name = none)
    (h : (inner.map Prod.fst ++ pairs.map Pair.key).Nodup) (rest : List Char) :
    lines? (steps + pairs.length) (.within before name inner) (pairs.flatMap Pair.line ++ rest) =
      lines? steps (.within before name (inner ++ pairs.map Pair.entry)) rest := by
  induction pairs generalizing inner with
  | nil => simp
  | cons q pairs ih =>
    rw [List.length_cons, ← Nat.add_assoc, List.flatMap_cons, List.append_assoc,
      lines?_pair q hname (lookup_eq_none_of_nodup h), ih]
    · simp
    · simpa [Pair.entry] using h

theorem Table.length_pairs_lt (t : Table) : t.pairs.length < t.lines.length := by
  have hpairs (pairs : List Pair) : pairs.length ≤ (pairs.flatMap Pair.line).length := by
    induction pairs with
    | nil => exact Nat.le_refl 0
    | cons q pairs ih =>
      have hline : 1 ≤ q.line.length := by
        simp only [Pair.line, List.length_append, List.length_cons]
        omega
      rw [List.flatMap_cons, List.length_append, List.length_cons]
      omega
  have hall := hpairs t.pairs
  simp only [Table.lines, List.length_cons, List.length_append]
  omega

/-- **A table that was written is read with all its pairs.** -/
theorem lines?_table (t : Table) (hnew : p.entries.lookup t.name = none) (rest : List Char) :
    lines? (steps + (t.pairs.length + 1)) p (t.lines ++ rest) =
      lines? steps ⟨p.entries ++ [t.entry], some ([], t.name)⟩ rest := by
  have hlines : t.lines ++ rest =
      '[' :: (t.name.toList ++ ']' :: '\n' :: (t.pairs.flatMap Pair.line ++ rest)) := by
    simp [Table.lines]
  rw [hlines, ← Nat.add_assoc, lines?_header t.isKey hnew]
  exact lines?_pairs hnew (by simpa using t.nodup) rest

end lines

end Chronicle.Toml
