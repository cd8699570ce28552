import Chronicle.Json.Lexeme
import Chronicle.Json.Printer
import Chronicle.Proofs.Decimal.Digits

/-!
# Printed numbers

Every number that is printed is written in the grammar of JSON, and an integer also reads as itself.

* `IsMagnitude`: digits without a needless zero in front, with a fraction or not, with an exponent or
  not. Such a text, with or without a minus, can be read to its end and may end there (`IsNumber`).
* `isNumber_numberText`: what is printed is such a text, for integers as for binary64 numbers in
  either notation.
* `value?_of_intDigits`: the digits of an integer of 64 bits have this integer as their value.
-/

namespace Chronicle.Json

/-! ## Runs of digits -/

namespace NumberLexeme

def run (n : NumberLexeme) (cs : List Char) : Option NumberLexeme := cs.foldlM extend n

def ofChars? : List Char → Option NumberLexeme
  | [] => none
  | c :: cs => (begin? c).bind fun n => n.run cs

variable {n m : NumberLexeme} {c : Char} {cs : List Char}

theorem run_cons_of_extend (h : n.extend c = some m) (cs : List Char) :
    n.run (c :: cs) = m.run cs := by
  rw [run, List.foldlM_cons, h]
  rfl

theorem run_append_of_run {cs : List Char} (h : n.run cs = some m) (more : List Char) :
    n.run (cs ++ more) = m.run more := by
  unfold run at h ⊢
  rw [List.foldlM_append, h]
  rfl

end NumberLexeme

/-- Digits from 0 to 9, at least one. -/
def IsDigits (cs : List Char) : Prop := cs ≠ [] ∧ ∀ c ∈ cs, c.isDigit = true

/-- The part that is read after a digit that does not open a number. -/
def NumberPart.afterDigit? : NumberPart → Option NumberPart
  | .whole => some .whole
  | .point | .fraction => some .fraction
  | .mark | .sign | .exponent => some .exponent
  | .minus | .zero => none

theorem NumberPart.afterDigit?_afterDigit? {p q : NumberPart} (h : p.afterDigit? = some q) :
    q.afterDigit? = some q := by
  cases p <;> cases h <;> rfl

namespace NumberLexeme

theorem exists_extend_digit {n : NumberLexeme} {q : NumberPart} {c : Char}
    (hpart : n.part.afterDigit? = some q) (hc : c.isDigit = true) :
    ∃ m, n.extend c = some m ∧ m.part = q := by
  unfold extend digit?
  rw [if_pos hc]
  cases hp : n.part with
  | minus => rw [hp] at hpart; cases hpart
  | zero => rw [hp] at hpart; cases hpart
  | _ => rw [hp] at hpart; cases hpart; exact ⟨_, rfl, rfl⟩

theorem exists_run_digits {n : NumberLexeme} {q : NumberPart} {cs : List Char}
    (hpart : n.part.afterDigit? = some q) (hcs : IsDigits cs) :
    ∃ m, n.run cs = some m ∧ m.part = q := by
  obtain ⟨hne, hdigits⟩ := hcs
  induction cs generalizing n with
  | nil => exact absurd rfl hne
  | cons c cs ih =>
    obtain ⟨hc, hrest⟩ := List.forall_mem_cons.mp hdigits
    obtain ⟨m, hm, hq⟩ := exists_extend_digit hpart hc
    rw [run_cons_of_extend hm]
    cases cs with
    | nil => exact ⟨m, rfl, hq⟩
    | cons d cs =>
      have hagain : m.part.afterDigit? = some q := by
        rw [hq]
        exact NumberPart.afterDigit?_afterDigit? hpart
      exact ih hagain (List.cons_ne_nil d cs) hrest

/-- The part that a digit opens: zero stands alone and the others lead further digits. -/
def opened (c : Char) : NumberPart := if c = '0' then .zero else .whole

theorem sub_eq_zero_iff_of_isDigit {c : Char} (hc : c.isDigit = true) :
    c.toNat - '0'.toNat = 0 ↔ c = '0' := by
  have hrange : 48 ≤ c.toNat ∧ c.toNat ≤ 57 := by
    simpa [Char.isDigit, UInt32.le_iff_toNat_le] using hc
  constructor
  · intro h
    have hnat : c.toNat = '0'.toNat := by
      change c.toNat - 48 = 0 at h
      change c.toNat = 48
      omega
    exact Char.toNat_inj.mp hnat
  · rintro rfl
    rfl

def ofDigit (negative : Bool) (c : Char) : NumberLexeme where
  part := opened c
  negative := negative
  whole := [Decimal.digitValue c]

@[simp] theorem part_ofDigit (negative : Bool) (c : Char) :
    (ofDigit negative c).part = opened c := rfl

theorem begin?_of_isDigit {c : Char} (hc : c.isDigit = true) :
    begin? c = some (ofDigit false c) := by
  have hminus : ¬ (c == '-') = true := by
    rintro h
    rw [beq_iff_eq.mp h] at hc
    exact absurd hc (by decide)
  rw [begin?, if_neg hminus, digit?, if_pos hc]
  simp only [Option.map_some, ofDigit, opened, beq_iff_eq, sub_eq_zero_iff_of_isDigit hc]
  rfl

theorem extend_minus_of_isDigit {c : Char} (hc : c.isDigit = true) :
    ({ part := .minus, negative := true } : NumberLexeme).extend c = some (ofDigit true c) := by
  unfold extend digit?
  simp only [if_pos hc, ofDigit, opened, beq_iff_eq, sub_eq_zero_iff_of_isDigit hc]
  rfl

end NumberLexeme

/-! ## The grammar -/

/-- Digits of which the first is not zero, or zero alone. -/
def IsWhole (cs : List Char) : Prop := IsDigits cs ∧ (cs.head? = some '0' → cs = ['0'])

/-- Nothing, or a point and digits. -/
def IsFraction (cs : List Char) : Prop := cs = [] ∨ ∃ ds, cs = '.' :: ds ∧ IsDigits ds

/-- Nothing, or a mark, a sign and digits. -/
def IsExponent (cs : List Char) : Prop :=
  cs = [] ∨ ∃ sign ds, cs = 'e' :: sign :: ds ∧ (sign = '+' ∨ sign = '-') ∧ IsDigits ds

def IsMagnitude (cs : List Char) : Prop :=
  ∃ whole fraction exponent, cs = whole ++ fraction ++ exponent ∧ IsWhole whole ∧
    IsFraction fraction ∧ IsExponent exponent

namespace NumberLexeme

theorem exists_run_whole {n : NumberLexeme} {c : Char} {cs : List Char} (hn : n.part = opened c)
    (hcs : IsWhole (c :: cs)) :
    ∃ m, n.run cs = some m ∧ (m.part = .zero ∨ m.part = .whole) := by
  obtain ⟨⟨-, hdigits⟩, hzero⟩ := hcs
  obtain ⟨-, hrest⟩ := List.forall_mem_cons.mp hdigits
  cases cs with
  | nil =>
    refine ⟨n, rfl, ?_⟩
    rw [hn, opened]
    by_cases hc : c = '0'
    · exact .inl (if_pos hc)
    · exact .inr (if_neg hc)
  | cons d ds =>
    have hc : c ≠ '0' := by
      rintro rfl
      cases hzero rfl
    have hpart : n.part.afterDigit? = some .whole := by
      rw [hn, opened, if_neg hc]
      rfl
    obtain ⟨m, hm, hq⟩ := exists_run_digits hpart ⟨List.cons_ne_nil d ds, hrest⟩
    exact ⟨m, hm, .inr hq⟩

theorem exists_run_fraction {n : NumberLexeme} {cs : List Char}
    (hn : n.part = .zero ∨ n.part = .whole) (hcs : IsFraction cs) :
    ∃ m, n.run cs = some m ∧ (m.part = .zero ∨ m.part = .whole ∨ m.part = .fraction) := by
  rcases hcs with rfl | ⟨ds, rfl, hds⟩
  · exact ⟨n, rfl, or_assoc.mp (.inl hn)⟩
  · have hpoint : ∃ m, n.extend '.' = some m ∧ m.part = .point := by
      unfold extend
      rcases hn with hn | hn
      · rw [hn]
        exact ⟨_, rfl, rfl⟩
      · rw [hn]
        exact ⟨_, rfl, rfl⟩
    obtain ⟨p, hp, hpart⟩ := hpoint
    have hafter : p.part.afterDigit? = some .fraction := by
      rw [hpart]
      rfl
    obtain ⟨m, hm, hq⟩ := exists_run_digits hafter hds
    rw [run_cons_of_extend hp]
    exact ⟨m, hm, .inr (.inr hq)⟩

theorem exists_run_exponent {n : NumberLexeme} {cs : List Char}
    (hn : n.part = .zero ∨ n.part = .whole ∨ n.part = .fraction) (hcs : IsExponent cs) :
    ∃ m, n.run cs = some m ∧ m.complete = true := by
  rcases hcs with rfl | ⟨sign, ds, rfl, hsign, hds⟩
  · refine ⟨n, rfl, ?_⟩
    rw [complete]
    rcases hn with hn | hn | hn <;> rw [hn]
  · have hmark : ∃ m, n.extend 'e' = some m ∧ m.part = .mark := by
      unfold extend
      rcases hn with hn | hn | hn <;> rw [hn] <;> exact ⟨_, rfl, rfl⟩
    obtain ⟨p, hp, hmarked⟩ := hmark
    have hsigned : ∃ m, p.extend sign = some m ∧ m.part = .sign := by
      unfold extend
      rw [hmarked]
      rcases hsign with rfl | rfl <;> exact ⟨_, rfl, rfl⟩
    obtain ⟨q, hq, hpart⟩ := hsigned
    have hafter : q.part.afterDigit? = some .exponent := by
      rw [hpart]
      rfl
    obtain ⟨m, hm, hend⟩ := exists_run_digits hafter hds
    rw [run_cons_of_extend hp, run_cons_of_extend hq]
    refine ⟨m, hm, ?_⟩
    rw [complete, hend]

theorem exists_run_magnitude {n : NumberLexeme} {c : Char} {cs : List Char}
    (hn : n.part = opened c) (hcs : IsMagnitude (c :: cs)) :
    ∃ m, n.run cs = some m ∧ m.complete = true := by
  obtain ⟨whole, fraction, exponent, heq, hwhole, hfraction, hexponent⟩ := hcs
  cases whole with
  | nil => exact absurd rfl hwhole.1.1
  | cons d ds =>
    obtain ⟨rfl, rfl⟩ := List.cons.inj heq
    obtain ⟨p, hp, hpart⟩ := exists_run_whole hn hwhole
    obtain ⟨q, hq, hpart'⟩ := exists_run_fraction hpart hfraction
    obtain ⟨m, hm, hcomplete⟩ := exists_run_exponent hpart' hexponent
    refine ⟨m, ?_, hcomplete⟩
    show n.run (ds ++ fraction ++ exponent) = some m
    rw [List.append_assoc, run_append_of_run hp, run_append_of_run hq, hm]

end NumberLexeme

/-- A text is a number, if it can be read to its end and may end there. -/
def IsNumber (cs : List Char) : Prop := ∃ n, NumberLexeme.ofChars? cs = some n ∧ n.complete = true

theorem IsMagnitude.exists_cons {cs : List Char} (h : IsMagnitude cs) :
    ∃ c ds, cs = c :: ds ∧ c.isDigit = true := by
  obtain ⟨whole, fraction, exponent, rfl, ⟨⟨hne, hdigits⟩, -⟩, -, -⟩ := h
  obtain ⟨c, ds, rfl⟩ := List.exists_cons_of_ne_nil hne
  exact ⟨c, _, rfl, hdigits c List.mem_cons_self⟩

theorem IsMagnitude.isNumber {cs : List Char} (h : IsMagnitude cs) : IsNumber cs := by
  obtain ⟨c, ds, rfl, hc⟩ := h.exists_cons
  have hfirst := NumberLexeme.begin?_of_isDigit hc
  obtain ⟨m, hm, hcomplete⟩ := NumberLexeme.exists_run_magnitude (NumberLexeme.part_ofDigit false c) h
  refine ⟨m, ?_, hcomplete⟩
  rw [NumberLexeme.ofChars?, hfirst]
  exact hm

theorem IsMagnitude.isNumber_minus {cs : List Char} (h : IsMagnitude cs) :
    IsNumber ('-' :: cs) := by
  obtain ⟨c, ds, rfl, hc⟩ := h.exists_cons
  have hfirst := NumberLexeme.extend_minus_of_isDigit hc
  obtain ⟨m, hm, hcomplete⟩ := NumberLexeme.exists_run_magnitude (NumberLexeme.part_ofDigit true c) h
  refine ⟨m, ?_, hcomplete⟩
  rw [← hm, ← NumberLexeme.run_cons_of_extend hfirst]
  rfl

/-! ## Printed integers -/

theorem isDigits_digitsOf (n : Nat) : IsDigits (digitsOf n) :=
  ⟨Nat.toDigits_ne_nil, fun _ hc => Nat.isDigit_of_mem_toDigits (by decide) (by decide) hc⟩

theorem isWhole_digitsOf (n : Nat) : IsWhole (digitsOf n) := by
  refine ⟨isDigits_digitsOf n, fun h => ?_⟩
  by_cases hn : n = 0
  · rw [hn]
    rfl
  · exact absurd h (head?_digitsOf_ne_zero hn)

theorem IsWhole.isMagnitude {cs : List Char} (h : IsWhole cs) : IsMagnitude cs :=
  ⟨cs, [], [], by simp, h, .inl rfl, .inl rfl⟩

theorem isNumber_intDigits (n : Int) : IsNumber (intDigits n) := by
  have h := (isWhole_digitsOf n.natAbs).isMagnitude
  unfold intDigits
  split
  · exact h.isNumber_minus
  · exact h.isNumber

namespace NumberLexeme

theorem run_whole {n : NumberLexeme} (hn : n.part = .whole) {cs : List Char}
    (hcs : ∀ c ∈ cs, c.isDigit = true) :
    n.run cs = some { n with whole := (cs.map Decimal.digitValue).reverse ++ n.whole } := by
  induction cs generalizing n with
  | nil => rfl
  | cons c cs ih =>
    obtain ⟨hc, hrest⟩ := List.forall_mem_cons.mp hcs
    have hextend : n.extend c = some { n with whole := Decimal.digitValue c :: n.whole } := by
      unfold extend digit?
      rw [hn, if_pos hc]
      rfl
    rw [run_cons_of_extend hextend]
    have hnext := ih (n := { n with whole := Decimal.digitValue c :: n.whole }) hn hrest
    rw [hnext]
    simp

theorem run_ofDigit {c : Char} {cs : List Char} (hcs : IsWhole (c :: cs)) (negative : Bool) :
    (ofDigit negative c).run cs = some
      { part := opened c, negative := negative
        whole := ((c :: cs).map Decimal.digitValue).reverse } := by
  obtain ⟨⟨-, hdigits⟩, hzero⟩ := hcs
  cases cs with
  | nil => rfl
  | cons d ds =>
    have hc : c ≠ '0' := by
      rintro rfl
      cases hzero rfl
    have hpart : (ofDigit negative c).part = .whole := by
      rw [part_ofDigit, opened, if_neg hc]
    rw [run_whole hpart (List.forall_mem_cons.mp hdigits).2]
    simp [ofDigit]

/-- The number that the digits of a natural number are, behind a minus or not. -/
def ofDigits (negative : Bool) (n : Nat) : NumberLexeme where
  part := if n = 0 then .zero else .whole
  negative := negative
  whole := ((digitsOf n).map Decimal.digitValue).reverse

theorem exists_digitsOf_cons (n : Nat) :
    ∃ c cs, digitsOf n = c :: cs ∧ c.isDigit = true ∧
      ∀ negative, (ofDigit negative c).run cs = some (ofDigits negative n) := by
  obtain ⟨c, cs, hcs⟩ := List.exists_cons_of_ne_nil (isDigits_digitsOf n).1
  have hwhole : IsWhole (c :: cs) := hcs ▸ isWhole_digitsOf n
  refine ⟨c, cs, hcs, hwhole.1.2 c List.mem_cons_self, fun negative => ?_⟩
  have hzero : c = '0' ↔ n = 0 := by
    constructor
    · intro hc
      by_cases hn : n = 0
      · exact hn
      · exact absurd (by rw [hcs, hc]; rfl) (head?_digitsOf_ne_zero hn)
    · rintro rfl
      exact (List.cons.inj hcs).1.symm
  rw [run_ofDigit hwhole, ofDigits, hcs, opened]
  simp only [hzero]

theorem ofChars?_digitsOf (n : Nat) : ofChars? (digitsOf n) = some (ofDigits false n) := by
  obtain ⟨c, cs, hcs, hc, hrun⟩ := exists_digitsOf_cons n
  rw [hcs, ofChars?, begin?_of_isDigit hc]
  exact hrun false

theorem ofChars?_minus_digitsOf (n : Nat) :
    ofChars? ('-' :: digitsOf n) = some (ofDigits true n) := by
  obtain ⟨c, cs, hcs, hc, hrun⟩ := exists_digitsOf_cons n
  rw [hcs, ← hrun true, ← run_cons_of_extend (extend_minus_of_isDigit hc)]
  rfl

theorem isInteger_ofDigits (negative : Bool) (n : Nat) : (ofDigits negative n).isInteger = true := by
  rw [isInteger, ofDigits]
  by_cases hn : n = 0
  · simp only [hn, if_true]
  · simp only [hn, if_false]

theorem valueOf_whole_ofDigits (negative : Bool) (n : Nat) :
    Decimal.valueOf (ofDigits negative n).whole.reverse = n := by
  rw [ofDigits, List.reverse_reverse, valueOf_digitsOf]

theorem value?_ofDigits {n : Nat} (hn : n < Decimal.significandLimit) :
    (ofDigits false n).value? = some (.int n) := by
  have hnegative : (ofDigits false n).negative = false := rfl
  unfold value?
  rw [valueOf_whole_ofDigits, isInteger_ofDigits]
  simp [hnegative, hn]

theorem value?_ofDigits_minus {n : Nat} (hpos : 0 < n) (hn : n ≤ Binary64.signBit) :
    (ofDigits true n).value? = some (.int (-n)) := by
  have hnegative : (ofDigits true n).negative = true := rfl
  unfold value?
  rw [valueOf_whole_ofDigits, isInteger_ofDigits]
  simp [hnegative, hpos, hn]

/-- **An integer of 64 bits is read from its digits as itself.** -/
theorem value?_of_intDigits {n : Int} (hlow : -(Binary64.signBit : Int) ≤ n)
    (hhigh : n < Decimal.significandLimit) :
    (ofChars? (intDigits n)).bind value? = some (.int n) := by
  unfold intDigits
  split
  · have hvalue : -(n.natAbs : Int) = n := by omega
    rw [ofChars?_minus_digitsOf, Option.bind_some, value?_ofDigits_minus (by omega) (by omega),
      hvalue]
  · have hvalue : (n.natAbs : Int) = n := by omega
    rw [ofChars?_digitsOf, Option.bind_some, value?_ofDigits (by omega), hvalue]

end NumberLexeme

/-! ## Printed decimals -/

/-- Digits that do not begin with a zero. -/
def IsLed (cs : List Char) : Prop := IsDigits cs ∧ cs.head? ≠ some '0'

theorem isLed_digitsOf {n : Nat} (hn : n ≠ 0) : IsLed (digitsOf n) :=
  ⟨isDigits_digitsOf n, head?_digitsOf_ne_zero hn⟩

theorem IsLed.isWhole_append {cs more : List Char} (h : IsLed cs)
    (hmore : ∀ c ∈ more, c.isDigit = true) : IsWhole (cs ++ more) := by
  obtain ⟨⟨hne, hdigits⟩, hhead⟩ := h
  obtain ⟨c, ds, rfl⟩ := List.exists_cons_of_ne_nil hne
  refine ⟨⟨List.cons_ne_nil _ _, ?_⟩, fun h => absurd h hhead⟩
  intro d hd
  rcases List.mem_append.mp hd with hd | hd
  · exact hdigits d hd
  · exact hmore d hd

theorem isDigit_of_mem_replicate_zero {n : Nat} {c : Char} (h : c ∈ List.replicate n '0') :
    c.isDigit = true := by
  rw [List.eq_of_mem_replicate h]
  rfl

theorem isMagnitude_positional {digits : List Char} (h : IsLed digits) (exponent : Int) :
    IsMagnitude (Decimal.positional digits exponent) := by
  have hdigits := h.1.2
  unfold Decimal.positional
  split
  · exact ⟨_, ['.', '0'], [], (List.append_nil _).symm,
      h.isWhole_append fun c => isDigit_of_mem_replicate_zero,
      .inr ⟨['0'], rfl, isDigits_digitsOf 0⟩, .inl rfl⟩
  · rename_i hneg
    simp only
    split
    · rename_i hplaces
      -- the point stands between two of the digits
      have hfront : IsLed (digits.take (digits.length - (-exponent).toNat)) := by
        obtain ⟨c, ds, rfl⟩ := List.exists_cons_of_ne_nil h.1.1
        obtain ⟨k, hk⟩ : ∃ k, (c :: ds).length - (-exponent).toNat = k + 1 :=
          ⟨_, (Nat.succ_pred_eq_of_pos (by omega)).symm⟩
        rw [hk]
        exact ⟨⟨List.cons_ne_nil _ _, fun d hd => hdigits d (List.mem_of_mem_take hd)⟩, h.2⟩
      have hback : IsDigits (digits.drop (digits.length - (-exponent).toNat)) := by
        refine ⟨?_, fun d hd => hdigits d (List.mem_of_mem_drop hd)⟩
        intro hnil
        rw [List.drop_eq_nil_iff] at hnil
        omega
      refine ⟨_, _, [], (List.append_nil _).symm, ?_, .inr ⟨_, rfl, hback⟩, .inl rfl⟩
      exact List.append_nil (digits.take _) ▸ hfront.isWhole_append (by simp)
    · refine ⟨['0'], _, [], (List.append_nil _).symm, isWhole_digitsOf 0, .inr ⟨_, rfl, ?_⟩, .inl rfl⟩
      refine ⟨by simp [h.1.1], fun d hd => ?_⟩
      rcases List.mem_append.mp hd with hd | hd
      · exact isDigit_of_mem_replicate_zero hd
      · exact hdigits d hd

theorem isMagnitude_scientific {digits : List Char} (h : IsLed digits) (leading : Int) :
    IsMagnitude (Decimal.scientific digits leading) := by
  obtain ⟨⟨hne, hdigits⟩, hhead⟩ := h
  have hexponent : IsExponent
      ('e' :: (if leading < 0 then '-' else '+') :: digitsOf leading.natAbs) := by
    refine .inr ⟨_, _, rfl, ?_, isDigits_digitsOf _⟩
    split
    · exact .inr rfl
    · exact .inl rfl
  have hone {c : Char} {cs : List Char} (h : digits = c :: cs) : IsWhole [c] := by
    subst h
    exact ⟨⟨List.cons_ne_nil _ _, fun d hd => hdigits d (List.mem_cons.mpr (.inl (by simpa using hd)))⟩,
      fun h => absurd h hhead⟩
  unfold Decimal.scientific
  match digits, hne with
  | [c], _ => exact ⟨[c], [], _, by simp, hone rfl, .inl rfl, hexponent⟩
  | c :: d :: ds, _ =>
    refine ⟨[c], '.' :: d :: ds, _, by simp, hone rfl, .inr ⟨_, rfl, ?_⟩, hexponent⟩
    exact ⟨List.cons_ne_nil _ _, fun e he => hdigits e (List.mem_cons_of_mem _ he)⟩

theorem isMagnitude_written {d : Decimal} (hd : d.digits ≠ 0) : IsMagnitude d.written := by
  unfold Decimal.written
  simp only
  split
  · exact isMagnitude_positional (isLed_digitsOf hd) _
  · exact isMagnitude_scientific (isLed_digitsOf hd) _

theorem isNumber_written (x : Binary64) : IsNumber x.written := by
  have hmagnitude :
      IsMagnitude (if x.magnitude == 0 then ['0', '.', '0'] else x.shortest.written) := by
    split
    · exact ⟨['0'], ['.', '0'], [], rfl, isWhole_digitsOf 0,
        .inr ⟨['0'], rfl, isDigits_digitsOf 0⟩, .inl rfl⟩
    · rename_i hx
      exact isMagnitude_written (Binary64.digits_shortest_ne_zero (by simpa using hx))
  unfold Binary64.written
  simp only
  split
  · exact hmagnitude.isNumber_minus
  · exact hmagnitude.isNumber

/-- **Every printed number is one number of the grammar.** -/
theorem isNumber_numberText (n : Number) : IsNumber (numberText n) := by
  cases n with
  | int n => exact isNumber_intDigits n
  | float x => exact isNumber_written x

end Chronicle.Json
