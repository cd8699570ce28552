import Chronicle.Proofs.Content.Blocks

/-!
# Tags that removed blocks put together

Where a block is taken out, the text before it and the text behind it meet. A tag may come together
there of which neither side holds more than a piece, and with it a block that the pass has not seen.
Other blocks are not left.

* `Joint`: the places of what is left at which a block was.
* `Stripped.tornAt_of_complete`: a block that is left has a tag with a joint inside it.
* `Tears`, `not_complete_strip`: where no tag is torn, no block is left.
* `strip_strip_iff`: stripping again changes nothing exactly if no block is left.
-/

namespace Chronicle.Markup

open Text (trim)

/-- Place `n` of what is left of the text is one where a block was taken out. -/
inductive Joint : List Char → Nat → Prop
  | here {kind : Kind} {cs : List Char} {p s : Nat} (block : IsFirstBlock kind cs p s) : Joint cs p
  | later {kind : Kind} {cs : List Char} {p s n : Nat} (block : IsFirstBlock kind cs p s)
      (behind : Joint (cs.drop (s + kind.closing.length)) n) : Joint cs (p + n)

/-- A block was taken out of the text inside a tag that stands at place `p` of what is left. -/
def TornAt (tag cs : List Char) (p : Nat) : Prop := ∃ n, Joint cs n ∧ p < n ∧ n < p + tag.length

section
variable {kind other : Kind} {tag cs rest : List Char} {p s t : Nat}

theorem TornAt.later (block : IsFirstBlock kind cs p s) (hp : p ≤ t)
    (h : TornAt tag (cs.drop (s + kind.closing.length)) (t - p)) : TornAt tag cs t := by
  obtain ⟨n, hn, hlt, hlt'⟩ := h
  exact ⟨p + n, .later block hn, by omega, by omega⟩

theorem IsFirstBlock.length_take (h : IsFirstBlock kind cs p s) : (cs.take p).length = p :=
  List.length_take_of_le h.complete.lt_length.le

theorem IsFirstBlock.standsAt_of_before (block : IsFirstBlock kind cs p s)
    (h : t + tag.length ≤ p) (htag : StandsAt tag (cs.take p ++ rest) t) : StandsAt tag cs t := by
  have hlength := block.length_take
  have hstands := (standsAt_append_left (by omega)).mp htag
  rw [← List.take_append_drop p cs]
  exact hstands.append _

theorem IsFirstBlock.length_append_lt (block : IsFirstBlock kind cs p s)
    (h : rest.length ≤ (cs.drop (s + kind.closing.length)).length) :
    (cs.take p ++ rest).length < cs.length := by
  have hlength := block.length_take
  have hbehind := block.complete.behind
  have hopening := List.length_pos_iff.mpr kind.opening_ne_nil
  have hcloses := block.complete.closes.add_length_le kind.closing_ne_nil
  rw [List.length_drop] at h
  rw [List.length_append]
  omega

theorem Stripped.exists_standsAt (h : Stripped cs rest) (htag : StandsAt tag rest t) :
    (∃ t', t ≤ t' ∧ StandsAt tag cs t') ∨ TornAt tag cs t := by
  induction h generalizing t with
  | whole => exact .inl ⟨t, Nat.le_refl t, htag⟩
  | @cut kind cs rest p s block _ ih =>
    have hlength := block.length_take
    by_cases hleft : t + tag.length ≤ p
    · exact .inl ⟨t, Nat.le_refl t, block.standsAt_of_before hleft htag⟩
    by_cases hright : p ≤ t
    · rcases ih ((standsAt_append_right (by omega)).mp htag) with ⟨t', hle, ht'⟩ | htorn
      · have hbehind := block.complete.behind
        exact .inl ⟨_, by omega, standsAt_drop.mp ht'⟩
      · rw [hlength] at htorn
        exact .inr (htorn.later block hright)
    · exact .inr ⟨p, .here block, by omega, by omega⟩

/-- **A block that is left has a torn tag.** -/
theorem Stripped.tornAt_of_complete (h : Stripped cs rest) (hc : Complete other rest p s) :
    TornAt other.opening cs p ∨ TornAt other.closing cs s := by
  induction h generalizing p s with
  | whole none => exact absurd hc (none other p s)
  | @cut kind cs rest place closed block behind ih =>
    have hlength := block.length_take
    obtain ⟨opens, hbehind, closes⟩ := hc
    -- the opening tag stands behind the joint, around it or before it
    by_cases hright : place ≤ p
    · have hrest : Complete other rest (p - place) (s - place) := by
        rw [standsAt_append_right (by omega), hlength] at opens closes
        exact ⟨opens, by omega, closes⟩
      rcases ih hrest with htorn | htorn
      · exact .inl (htorn.later block hright)
      · exact .inr (htorn.later block (by omega))
    by_cases haround : place < p + other.opening.length
    · exact .inl ⟨place, .here block, by omega, haround⟩
    -- an opening tag before the joint is one of the text, and is not closed there
    have hopens : StandsAt other.opening cs p :=
      block.standsAt_of_before (Nat.le_of_not_lt haround) opens
    rcases (Stripped.cut block behind).exists_standsAt closes with ⟨s', hle, hs'⟩ | htorn
    · exact absurd (block.first ⟨hopens, Nat.le_trans hbehind hle, hs'⟩) hright
    · exact .inr htorn

theorem Stripped.length_le (h : Stripped cs rest) : rest.length ≤ cs.length := by
  induction h with
  | whole => exact Nat.le_refl _
  | cut block _ ih => exact (block.length_append_lt ih).le

theorem length_dropBlocks_lt (h : Complete kind cs p s) : (dropBlocks cs).length < cs.length := by
  obtain ⟨_, _, _, hfirst⟩ := h.exists_isFirstBlock
  rw [dropBlocks_of_isFirstBlock hfirst]
  exact hfirst.length_append_lt (stripped_dropBlocks _).length_le

theorem Complete.of_trim (h : Complete kind (trim cs) p s) :
    ∃ lead, Complete kind cs (lead + p) (lead + s) := by
  obtain ⟨lead, trail, hcs, -⟩ := Text.exists_append_trim_append cs
  have hplace {tag : List Char} {p : Nat} (htag : StandsAt tag (trim cs) p) :
      StandsAt tag cs (lead.length + p) := by
    rw [hcs, standsAt_append_right (by omega), Nat.add_sub_cancel_left]
    exact htag.append trail
  exact ⟨lead.length, hplace h.opens, by have := h.behind; omega, hplace h.closes⟩

end

/-! ## Stripping again -/

/-- A tag stands in what is left of the text that a block was taken out of. -/
def Tears (text : String) : Prop :=
  ∃ (kind : Kind) (p : Nat),
    (StandsAt kind.opening (dropBlocks text.toList) p ∧ TornAt kind.opening text.toList p) ∨
      (StandsAt kind.closing (dropBlocks text.toList) p ∧ TornAt kind.closing text.toList p)

theorem not_complete_strip {text : String} (h : ¬ Tears text) (kind : Kind) (p s : Nat) :
    ¬ Complete kind (strip text).toList p s := by
  intro hc
  rw [strip, String.toList_ofList] at hc
  obtain ⟨lead, hc⟩ := hc.of_trim
  refine h ⟨kind, ?_⟩
  rcases (stripped_dropBlocks text.toList).tornAt_of_complete hc with htorn | htorn
  · exact ⟨_, .inl ⟨hc.opens, htorn⟩⟩
  · exact ⟨_, .inr ⟨hc.closes, htorn⟩⟩

/-- **Stripping again changes nothing exactly if no block is left.** -/
theorem strip_strip_iff (text : String) :
    strip (strip text) = strip text ↔ ∀ kind p s, ¬ Complete kind (strip text).toList p s := by
  constructor
  · intro h kind p s hc
    have hlt := length_dropBlocks_lt hc
    have hle := Text.length_trim_le (dropBlocks (strip text).toList)
    have hsame : trim (dropBlocks (strip text).toList) = (strip text).toList := by
      conv => rhs; rw [← h, strip, String.toList_ofList]
    rw [hsame] at hle
    omega
  · intro h
    conv => lhs; rw [strip, dropBlocks_of_forall_not_complete h, strip, String.toList_ofList,
      Text.trim_trim]
    rw [strip]

end Chronicle.Markup
