import Chronicle.Content.Markup
import Chronicle.Proofs.Text.Line
import Mathlib.Data.Nat.Find

/-!
# What is removed with control markup

A block is told by places: an opening tag, and behind it the nearest closing tag of the same kind.
What one pass over a text leaves is the text up to the first block and what is left of the text
behind it.

* `StandsAt`, `Complete`, `IsFirstBlock`: tags, complete blocks, and the block that goes first.
* `Stripped`: a text and what is left of it, by the first block again and again.
* `dropBlocks_of_isFirstBlock`, `dropBlocks_of_forall_not_complete`: the pass finds the first block,
  and leaves a text without one as it is. So it leaves what `Stripped` says (`stripped_iff`).
* `BlocksRemoved`, `blocksRemoved`: blocks go and nothing else does.
-/

namespace Chronicle.Markup

open Text (trim trimmed)

/-! ## Places of tags -/

/-- A tag stands at place `p` of a text. -/
def StandsAt (tag cs : List Char) (p : Nat) : Prop := tag <+: cs.drop p

section
variable {tag cs left right : List Char} {c : Char} {p n : Nat}

theorem standsAt_cons_succ : StandsAt tag (c :: cs) (p + 1) ↔ StandsAt tag cs p := Iff.rfl

theorem standsAt_drop : StandsAt tag (cs.drop n) p ↔ StandsAt tag cs (n + p) := by
  rw [StandsAt, StandsAt, List.drop_drop]

theorem standsAt_append_right (h : left.length ≤ p) :
    StandsAt tag (left ++ right) p ↔ StandsAt tag right (p - left.length) := by
  rw [StandsAt, StandsAt, List.drop_append, List.drop_eq_nil_of_le h, List.nil_append]

theorem standsAt_append_left (h : p + tag.length ≤ left.length) :
    StandsAt tag (left ++ right) p ↔ StandsAt tag left p := by
  rw [StandsAt, StandsAt, List.drop_append_of_le_length (by omega)]
  constructor
  · intro htag
    refine List.prefix_of_prefix_length_le htag (List.prefix_append _ _) ?_
    rw [List.length_drop]
    omega
  · exact fun htag => htag.trans (List.prefix_append _ _)

theorem StandsAt.append (h : StandsAt tag left p) (right : List Char) :
    StandsAt tag (left ++ right) p := by
  rw [StandsAt, List.drop_append]
  exact h.trans (List.prefix_append _ _)

theorem StandsAt.add_length_le (h : StandsAt tag cs p) (htag : tag ≠ []) :
    p + tag.length ≤ cs.length := by
  have hlength := h.length_le
  have hpos := List.length_pos_iff.mpr htag
  rw [List.length_drop] at hlength
  omega

end

/-! ## Tags -/

namespace Kind

theorem opening_ne_nil (kind : Kind) : kind.opening ≠ [] := by
  cases kind <;> decide

theorem closing_ne_nil (kind : Kind) : kind.closing ≠ [] := by
  cases kind <;> decide

theorem eq_of_opening_prefix {kind other : Kind} {cs : List Char} (h : kind.opening <+: cs)
    (hother : other.opening <+: cs) : kind = other := by
  have hdistinct : ¬ reminder.opening.take 2 = caveat.opening.take 2 := by decide
  have htake (k : Kind) (hk : k.opening <+: cs) : k.opening.take 2 = cs.take 2 := by
    obtain ⟨rest, rfl⟩ := hk
    rw [List.take_append_of_le_length (by cases k <;> decide)]
  have hsame := (htake kind h).trans (htake other hother).symm
  cases kind <;> cases other
  · rfl
  · exact absurd hsame hdistinct
  · exact absurd hsame.symm hdistinct
  · rfl

end Kind

/-! ## Blocks -/

/-- An opening tag at place `p`, and its own closing tag at place `s` behind it. -/
structure Complete (kind : Kind) (cs : List Char) (p s : Nat) : Prop where
  opens : StandsAt kind.opening cs p
  behind : p + kind.opening.length ≤ s
  closes : StandsAt kind.closing cs s

/-- The block that goes first: it begins at `p`, and `s` is the place of its closing tag. -/
structure IsFirstBlock (kind : Kind) (cs : List Char) (p s : Nat) : Prop where
  complete : Complete kind cs p s
  /-- No block begins earlier. -/
  first {kind' : Kind} {p' s' : Nat} : Complete kind' cs p' s' → p ≤ p'
  /-- It is not closed earlier. -/
  nearest {s' : Nat} : Complete kind cs p s' → s ≤ s'

/-- What is left of a text: all of it if there is no block, and otherwise what stands before the first
block and what is left of the text behind it. -/
inductive Stripped : List Char → List Char → Prop
  | whole {cs : List Char} (none : ∀ kind p s, ¬ Complete kind cs p s) : Stripped cs cs
  | cut {kind : Kind} {cs rest : List Char} {p s : Nat} (block : IsFirstBlock kind cs p s)
      (behind : Stripped (cs.drop (s + kind.closing.length)) rest) : Stripped cs (cs.take p ++ rest)

section
variable {kind : Kind} {cs rest : List Char} {c : Char} {p s : Nat}

theorem complete_cons_succ :
    Complete kind (c :: cs) (p + 1) (s + 1) ↔ Complete kind cs p s := by
  constructor
  · rintro ⟨opens, behind, closes⟩
    exact ⟨standsAt_cons_succ.mp opens, by omega, standsAt_cons_succ.mp closes⟩
  · rintro ⟨opens, behind, closes⟩
    exact ⟨standsAt_cons_succ.mpr opens, by omega, standsAt_cons_succ.mpr closes⟩

theorem Complete.lt_length (h : Complete kind cs p s) : p < cs.length := by
  have hopens := h.opens.add_length_le kind.opening_ne_nil
  have hpos := List.length_pos_iff.mpr kind.opening_ne_nil
  omega

theorem Complete.exists_isFirstBlock (h : Complete kind cs p s) :
    ∃ kind p s, IsFirstBlock kind cs p s := by
  classical
  have hblock : ∃ p, ∃ kind s, Complete kind cs p s := ⟨p, kind, s, h⟩
  obtain ⟨kind', hclosed⟩ := Nat.find_spec hblock
  refine ⟨kind', Nat.find hblock, Nat.find hclosed, Nat.find_spec hclosed, ?_, ?_⟩
  · exact fun hother => Nat.find_min' hblock ⟨_, _, hother⟩
  · exact fun hother => Nat.find_min' hclosed hother

/-! ## The reader of blocks -/

theorem after?_of_begins {tag : List Char} (h : tag <+: cs) :
    after? tag cs = some (cs.drop tag.length) :=
  if_pos (List.isPrefixOf_iff_prefix.mpr h)

theorem after?_of_not_begins {tag : List Char} (h : ¬ tag <+: cs) : after? tag cs = none :=
  if_neg fun hprefix => h (List.isPrefixOf_iff_prefix.mp hprefix)

theorem afterFirst?_of_begins {tag : List Char} (h : tag <+: cs) :
    afterFirst? tag cs = some (cs.drop tag.length) := by
  cases cs with
  | nil => exact after?_of_begins h
  | cons c cs => rw [afterFirst?, after?_of_begins h]

theorem afterFirst?_cons_of_not_begins {tag : List Char} (h : ¬ tag <+: c :: cs) :
    afterFirst? tag (c :: cs) = afterFirst? tag cs := by
  rw [afterFirst?, after?_of_not_begins h]

theorem afterFirst?_cases (tag cs : List Char) :
    (afterFirst? tag cs = none ∧ ∀ s, ¬ StandsAt tag cs s) ∨
      ∃ s, StandsAt tag cs s ∧ (∀ s', StandsAt tag cs s' → s ≤ s') ∧
        afterFirst? tag cs = some (cs.drop (s + tag.length)) := by
  have hhere {cs : List Char} (h : tag <+: cs) : ∃ s, StandsAt tag cs s ∧
      (∀ s', StandsAt tag cs s' → s ≤ s') ∧
        afterFirst? tag cs = some (cs.drop (s + tag.length)) :=
    ⟨0, h, fun s' _ => Nat.zero_le s', by rw [afterFirst?_of_begins h, Nat.zero_add]⟩
  induction cs with
  | nil =>
    by_cases htag : tag <+: []
    · exact .inr (hhere htag)
    · refine .inl ⟨after?_of_not_begins htag, fun s hs => htag ?_⟩
      rwa [StandsAt, List.drop_nil] at hs
  | cons c cs ih =>
    by_cases htag : tag <+: c :: cs
    · exact .inr (hhere htag)
    · rw [afterFirst?_cons_of_not_begins htag]
      rcases ih with ⟨hnone, hno⟩ | ⟨s, hs, hleast, hsome⟩
      · refine .inl ⟨hnone, fun s hs => ?_⟩
        cases s with
        | zero => exact htag hs
        | succ s => exact hno s hs
      · refine .inr ⟨s + 1, hs, fun s' hs' => ?_, ?_⟩
        · cases s' with
          | zero => exact absurd hs' htag
          | succ s' => exact Nat.succ_le_succ (hleast s' hs')
        · rw [hsome, Nat.add_right_comm, List.drop_succ_cons]

theorem afterBlockOf?_cases (kind : Kind) (cs : List Char) :
    (afterBlockOf? kind cs = none ∧ ∀ s, ¬ Complete kind cs 0 s) ∨
      ∃ s, Complete kind cs 0 s ∧ (∀ s', Complete kind cs 0 s' → s ≤ s') ∧
        afterBlockOf? kind cs = some (cs.drop (s + kind.closing.length)) := by
  by_cases hopen : kind.opening <+: cs
  · have hread : afterBlockOf? kind cs = afterFirst? kind.closing (cs.drop kind.opening.length) := by
      rw [afterBlockOf?, after?_of_begins hopen, Option.bind_some]
    -- a closing tag behind the opening tag is one of the rest
    have hrest {s : Nat} (h : Complete kind cs 0 s) :
        StandsAt kind.closing (cs.drop kind.opening.length) (s - kind.opening.length) := by
      have hbehind := h.behind
      rw [standsAt_drop, show kind.opening.length + (s - kind.opening.length) = s by omega]
      exact h.closes
    rcases afterFirst?_cases kind.closing (cs.drop kind.opening.length) with
      ⟨hnone, hno⟩ | ⟨s, hs, hleast, hsome⟩
    · exact .inl ⟨hread.trans hnone, fun s h => hno _ (hrest h)⟩
    · refine .inr ⟨kind.opening.length + s, ⟨hopen, by omega, standsAt_drop.mp hs⟩, ?_, ?_⟩
      · intro s' h
        have hle := hleast _ (hrest h)
        have hbehind := h.behind
        omega
      · rw [hread, hsome, List.drop_drop, Nat.add_assoc]
  · refine .inl ⟨?_, fun s h => hopen h.opens⟩
    rw [afterBlockOf?, after?_of_not_begins hopen, Option.bind_none]

theorem afterBlock?_cases (cs : List Char) :
    (afterBlock? cs = none ∧ ∀ kind s, ¬ Complete kind cs 0 s) ∨
      ∃ kind s, IsFirstBlock kind cs 0 s ∧
        afterBlock? cs = some (cs.drop (s + kind.closing.length)) := by
  rw [afterBlock?]
  rcases afterBlockOf?_cases .reminder cs with ⟨hnone, hno⟩ | ⟨s, hs, hleast, hsome⟩
  · rw [hnone, Option.none_or]
    rcases afterBlockOf?_cases .caveat cs with ⟨hnone', hno'⟩ | ⟨s, hs, hleast, hsome⟩
    · refine .inl ⟨hnone', fun kind s => ?_⟩
      cases kind with
      | reminder => exact hno s
      | caveat => exact hno' s
    · exact .inr ⟨.caveat, s, ⟨hs, fun _ => Nat.zero_le _, fun h => hleast _ h⟩, hsome⟩
  · rw [hsome, Option.some_or]
    exact .inr ⟨.reminder, s, ⟨hs, fun _ => Nat.zero_le _, fun h => hleast _ h⟩, rfl⟩

theorem afterBlock?_of_isFirstBlock (h : IsFirstBlock kind cs 0 s) :
    afterBlock? cs = some (cs.drop (s + kind.closing.length)) := by
  rcases afterBlock?_cases cs with ⟨-, hno⟩ | ⟨kind', s', h', hsome⟩
  · exact absurd h.complete (hno kind s)
  · obtain rfl := Kind.eq_of_opening_prefix h.complete.opens h'.complete.opens
    rw [hsome, Nat.le_antisymm (h'.nearest h.complete) (h.nearest h'.complete)]

theorem afterBlock?_of_forall_not_complete (h : ∀ kind s, ¬ Complete kind cs 0 s) :
    afterBlock? cs = none := by
  rcases afterBlock?_cases cs with ⟨hnone, -⟩ | ⟨kind, s, hblock, -⟩
  · exact hnone
  · exact absurd hblock.complete (h kind s)

/-! ## The pass over a text -/

theorem dropBlocks_of_afterBlock? (h : afterBlock? (c :: cs) = some rest) (hrest : rest <:+ cs) :
    dropBlocks (c :: cs) = dropBlocks rest := by
  rw [dropBlocks, dropBlocksPast.eq_3 c cs rest h, dropBlocksPast_eq,
    ← List.suffix_iff_eq_drop.mp hrest]

theorem dropBlocks_cons (h : ∀ kind s, ¬ Complete kind (c :: cs) 0 s) :
    dropBlocks (c :: cs) = c :: dropBlocks cs :=
  dropBlocksPast.eq_4 c cs (afterBlock?_of_forall_not_complete h)

/-- **The pass takes the first block out.** -/
theorem dropBlocks_of_isFirstBlock (h : IsFirstBlock kind cs p s) :
    dropBlocks cs = cs.take p ++ dropBlocks (cs.drop (s + kind.closing.length)) := by
  induction p generalizing cs s with
  | zero =>
    cases cs with
    | nil => exact absurd h.complete.lt_length (Nat.not_lt_zero 0)
    | cons c cs =>
      have hrest : (c :: cs).drop (s + kind.closing.length) <:+ cs := by
        have hpos := List.length_pos_iff.mpr kind.closing_ne_nil
        obtain ⟨n, hn⟩ := Nat.exists_eq_succ_of_ne_zero
          (show s + kind.closing.length ≠ 0 by omega)
        rw [hn, List.drop_succ_cons]
        exact List.drop_suffix n cs
      rw [dropBlocks_of_afterBlock? (afterBlock?_of_isFirstBlock h) hrest, List.take_zero,
        List.nil_append]
  | succ p ih =>
    cases cs with
    | nil => exact absurd h.complete.lt_length (Nat.not_lt_zero _)
    | cons c cs =>
      have hstart (kind' : Kind) (s' : Nat) : ¬ Complete kind' (c :: cs) 0 s' :=
        fun h' => absurd (h.first h') (Nat.not_succ_le_zero p)
      obtain ⟨s, rfl⟩ : ∃ n, s = n + 1 :=
        Nat.exists_eq_succ_of_ne_zero (by have := h.complete.behind; omega)
      have hblock : IsFirstBlock kind cs p s := by
        refine ⟨complete_cons_succ.mp h.complete, fun h' => ?_, fun h' => ?_⟩
        · exact Nat.le_of_succ_le_succ (h.first (complete_cons_succ.mpr h'))
        · exact Nat.le_of_succ_le_succ (h.nearest (complete_cons_succ.mpr h'))
      rw [dropBlocks_cons hstart, ih hblock, List.take_succ_cons, List.cons_append,
        Nat.add_right_comm, List.drop_succ_cons]

theorem dropBlocks_of_forall_not_complete (h : ∀ kind p s, ¬ Complete kind cs p s) :
    dropBlocks cs = cs := by
  induction cs with
  | nil => rfl
  | cons c cs ih =>
    rw [dropBlocks_cons fun kind s => h kind 0 s,
      ih fun kind p s h' => h kind (p + 1) (s + 1) (complete_cons_succ.mpr h')]

theorem stripped_dropBlocks (cs : List Char) : Stripped cs (dropBlocks cs) := by
  -- the text behind a block is shorter, and the induction is on the length
  induction hn : cs.length using Nat.strong_induction_on generalizing cs with
  | h n ih =>
    by_cases hblock : ∃ kind p s, Complete kind cs p s
    · obtain ⟨_, _, _, hcomplete⟩ := hblock
      obtain ⟨kind, p, s, hfirst⟩ := hcomplete.exists_isFirstBlock
      rw [dropBlocks_of_isFirstBlock hfirst]
      refine .cut hfirst (ih _ ?_ _ rfl)
      have hpos := List.length_pos_iff.mpr kind.closing_ne_nil
      have hlt := hfirst.complete.lt_length
      rw [List.length_drop]
      omega
    · have hno : ∀ kind p s, ¬ Complete kind cs p s :=
        fun kind p s h => hblock ⟨kind, p, s, h⟩
      rw [dropBlocks_of_forall_not_complete hno]
      exact .whole hno

/-- **One pass over a text leaves what is left of it.** -/
theorem stripped_iff : Stripped cs rest ↔ rest = dropBlocks cs := by
  constructor
  · intro h
    induction h with
    | whole hno => rw [dropBlocks_of_forall_not_complete hno]
    | cut hfirst _ ih => rw [dropBlocks_of_isFirstBlock hfirst, ih]
  · rintro rfl
    exact stripped_dropBlocks cs

end

/-! ## Texts with blocks -/

section
variable {kind other : Kind} {tag before body after rest : List Char} {p s : Nat}

/-- No block begins in the first part of the text. -/
def BeginsBehind (before after : List Char) : Prop :=
  ∀ kind p s, Complete kind (before ++ after) p s → before.length ≤ p

theorem BeginsBehind.tail {c : Char} (h : BeginsBehind (c :: before) after) :
    BeginsBehind before after := fun kind p s hc =>
  Nat.le_of_succ_le_succ (h kind (p + 1) (s + 1) (complete_cons_succ.mpr hc))

theorem dropBlocks_append (h : BeginsBehind before after) :
    dropBlocks (before ++ after) = before ++ dropBlocks after := by
  induction before with
  | nil => rfl
  | cons c before ih =>
    have hstart (kind : Kind) (s : Nat) : ¬ Complete kind (c :: (before ++ after)) 0 s :=
      fun hc => absurd (h kind 0 s hc) (Nat.not_succ_le_zero _)
    rw [List.cons_append, dropBlocks_cons hstart, ih h.tail, List.cons_append]

theorem eq_zero_of_standsAt_opening (htag : '<' ∉ tag.tail) (hp : p < tag.length)
    (h : StandsAt kind.opening (tag ++ after) p) : p = 0 := by
  by_contra hne
  obtain ⟨n, rfl⟩ := Nat.exists_eq_succ_of_ne_zero hne
  obtain ⟨rest, hrest⟩ := h
  -- a tag has its only angle bracket to the left in front
  have hchar : (tag ++ after)[n + 1]? = some '<' := by
    rw [← List.head?_drop, ← hrest]
    rfl
  rw [List.getElem?_append_left hp, ← List.getElem?_tail] at hchar
  exact htag (List.mem_of_getElem? hchar)

theorem beginsBehind_opening (h : ∀ s, ¬ StandsAt kind.closing after s) :
    BeginsBehind kind.opening after := by
  intro other p s hc
  by_contra hp
  have htag : '<' ∉ kind.opening.tail := by cases kind <;> decide
  obtain rfl := eq_zero_of_standsAt_opening htag (Nat.lt_of_not_le hp) hc.opens
  obtain rfl := Kind.eq_of_opening_prefix hc.opens (List.prefix_append kind.opening after)
  refine h _ ((standsAt_append_right ?_).mp hc.closes)
  have hbehind := hc.behind
  omega

theorem beginsBehind_closing (kind : Kind) (after : List Char) :
    BeginsBehind kind.closing after := by
  intro other p s hc
  by_contra hp
  have htag : '<' ∉ kind.closing.tail := by cases kind <;> decide
  obtain rfl := eq_zero_of_standsAt_opening htag (Nat.lt_of_not_le hp) hc.opens
  obtain ⟨rest, hrest⟩ := hc.opens
  have hsecond : (other.opening ++ rest)[1]? = (kind.closing ++ after)[1]? := by
    rw [hrest, List.drop_zero]
  rw [List.getElem?_append_left (by cases other <;> decide),
    List.getElem?_append_left (by cases kind <;> decide)] at hsecond
  revert hsecond
  cases other <;> cases kind <;> decide

theorem dropBlocks_block
    (hbefore : BeginsBehind before (kind.opening ++ body ++ kind.closing ++ after))
    (hbody : ∀ s, StandsAt kind.closing (body ++ kind.closing) s → body.length ≤ s) :
    dropBlocks (before ++ (kind.opening ++ body ++ kind.closing ++ after)) =
      before ++ dropBlocks after := by
  have hblock : IsFirstBlock kind (kind.opening ++ body ++ kind.closing ++ after) 0
      (kind.opening.length + body.length) := by
    refine ⟨⟨?_, by omega, ?_⟩, fun _ => Nat.zero_le _, fun {s'} hc => ?_⟩
    · rw [List.append_assoc, List.append_assoc]
      exact List.prefix_append _ _
    · rw [List.append_assoc, ← List.length_append, standsAt_append_right (Nat.le_refl _),
        Nat.sub_self]
      exact List.prefix_append _ _
    · by_contra hlt
      have hbehind := hc.behind
      have hcloses := hc.closes
      rw [List.append_assoc, List.append_assoc, standsAt_append_right (by omega),
        ← List.append_assoc, standsAt_append_left (by simp; omega)] at hcloses
      have hle := hbody _ hcloses
      omega
  rw [dropBlocks_append hbefore, dropBlocks_of_isFirstBlock hblock, List.take_zero,
    List.nil_append, ← List.length_append, ← List.length_append, List.drop_left]

end

/-! ## Control markup -/

/-- Of this text blocks are removed and nothing else, blanks around what is left apart. -/
structure BlocksRemoved (text : String) : Prop where
  /-- It is settled what is left of the text. -/
  settled : ∃! rest, Stripped text.toList rest
  stripped {rest : List Char} : Stripped text.toList rest → strip text = String.ofList (trim rest)
  /-- A text without a block is only trimmed. -/
  unmarked : (∀ kind p s, ¬ Complete kind text.toList p s) → strip text = trimmed text
  /-- A tag that is not closed stays, and hides none of the blocks behind it. -/
  opening {kind : Kind} {before after rest : List Char} :
    text.toList = before ++ (kind.opening ++ after) →
      BeginsBehind before (kind.opening ++ after) → (∀ s, ¬ StandsAt kind.closing after s) →
        Stripped after rest → strip text = String.ofList (trim (before ++ (kind.opening ++ rest)))
  /-- A closing tag that closes nothing stays. -/
  closing {kind : Kind} {before after rest : List Char} :
    text.toList = before ++ (kind.closing ++ after) →
      BeginsBehind before (kind.closing ++ after) → Stripped after rest →
        strip text = String.ofList (trim (before ++ (kind.closing ++ rest)))
  /-- A block goes with all that stands in it up to the nearest closing tag, line feeds and tags of
  the other kind included. -/
  block {kind : Kind} {before body after rest : List Char} :
    text.toList = before ++ (kind.opening ++ body ++ kind.closing ++ after) →
      BeginsBehind before (kind.opening ++ body ++ kind.closing ++ after) →
        (∀ s, StandsAt kind.closing (body ++ kind.closing) s → body.length ≤ s) →
          Stripped after rest → strip text = String.ofList (trim (before ++ rest))

/-- **Blocks of control markup are removed, and nothing else is.** -/
theorem blocksRemoved (text : String) : BlocksRemoved text where
  settled := ⟨dropBlocks text.toList, stripped_dropBlocks _, fun _ h => stripped_iff.mp h⟩
  stripped h := by rw [strip, stripped_iff.mp h]
  unmarked h := by rw [strip, dropBlocks_of_forall_not_complete h, trimmed]
  opening htext hbefore hunclosed h := by
    rw [strip, htext, dropBlocks_append hbefore, dropBlocks_append (beginsBehind_opening hunclosed),
      stripped_iff.mp h]
  closing htext hbefore h := by
    rw [strip, htext, dropBlocks_append hbefore, dropBlocks_append (beginsBehind_closing _ _),
      stripped_iff.mp h]
  block htext hbefore hbody h := by
    rw [strip, htext, dropBlocks_block hbefore hbody, stripped_iff.mp h]

/-- A caveat that is never closed stays, and the reminder behind it goes. -/
example : strip "<local-command-caveat>a<system-reminder>\nb</system-reminder> c " =
    "<local-command-caveat>a c" := by
  decide +kernel

end Chronicle.Markup
