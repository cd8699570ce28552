import Chronicle.Event.Metadata
import Chronicle.Proofs.Text.Line

/-!
# Texts that show

* `Visible`: a text with a character that is not blank.
* `BeginsVisibly`: a text that begins with one. A trimmed text, a headline and the text of a member do
  if they are not empty, and such a text still shows when it is clipped (`BeginsVisibly.visible_clip`).
-/

namespace Chronicle.Text

/-- A text with a character that is not blank. -/
def Visible (text : String) : Prop := ∃ c ∈ text.toList, isBlank c = false

/-- A text that begins with a character that is not blank. -/
def BeginsVisibly (text : String) : Prop := ∃ c cs, text.toList = c :: cs ∧ isBlank c = false

section
variable {a text : String} {cs : List Char} {limit : Nat}

theorem visible_iff : Visible text ↔ allBlank text = false := by
  rw [allBlank, List.all_eq_false]
  simp [Visible]

instance (text : String) : Decidable (Visible text) := decidable_of_iff _ visible_iff.symm

theorem visible_ofList : Visible (String.ofList cs) ↔ ∃ c ∈ cs, isBlank c = false := by
  rw [Visible, String.toList_ofList]

theorem Visible.append_left (h : Visible a) (b : String) : Visible (a ++ b) := by
  obtain ⟨c, hc, hblank⟩ := h
  exact ⟨c, by simp [hc], hblank⟩

theorem BeginsVisibly.visible (h : BeginsVisibly text) : Visible text := by
  obtain ⟨c, cs, htext, hc⟩ := h
  exact ⟨c, by simp [htext], hc⟩

theorem BeginsVisibly.visible_clip (h : BeginsVisibly text) (hlimit : 1 ≤ limit) :
    Visible (clip text limit) := by
  obtain ⟨c, cs, htext, hc⟩ := h
  have htake {n : Nat} (hn : 1 ≤ n) : c ∈ text.toList.take n := by
    obtain ⟨n, rfl⟩ := Nat.exists_eq_add_of_le' hn
    rw [htext, List.take_succ_cons]
    exact List.mem_cons_self
  rw [clip, visible_ofList, clipChars]
  split
  · exact ⟨c, by simp [htext], hc⟩
  · split
    · exact ⟨c, htake hlimit, hc⟩
    · exact ⟨'.', List.mem_append_right _ (by decide), by decide⟩

/-! ## What begins visibly -/

theorem exists_trimStart_eq_cons (h : Visible text) :
    ∃ c cs, trimStart text.toList = c :: cs ∧ isBlank c = false := by
  obtain ⟨c, hc, hblank⟩ := h
  obtain ⟨first, rest, hstart⟩ :=
    List.exists_cons_of_ne_nil (List.ne_nil_of_mem (mem_dropWhile_of_not_isBlank hc hblank))
  exact ⟨first, rest, hstart, isBlank_of_trimStart_eq_cons hstart⟩

theorem beginsVisibly_trimmed (h : Visible text) : BeginsVisibly (trimmed text) := by
  obtain ⟨c, cs, hstart, hc⟩ := exists_trimStart_eq_cons h
  exact ⟨c, trimEnd cs, by rw [trimmed_toList, trim, hstart, trimEnd_cons hc], hc⟩

theorem beginsVisibly_headline (h : Visible text) : BeginsVisibly (headline text) := by
  obtain ⟨c, cs, hstart, hc⟩ := exists_trimStart_eq_cons h
  have hn : c ≠ '\n' := by
    rintro rfl
    cases hc
  have hr : c ≠ '\r' := by
    rintro rfl
    cases hc
  -- the first line begins as the trimmed text does
  obtain ⟨line, hline⟩ : ∃ line, (linesOf (c :: cs)).headD [] = c :: line := by
    rw [linesOf_cons hn fun hreturn => absurd hreturn hr]
    cases linesOf cs with
    | nil => exact ⟨[], rfl⟩
    | cons line more => exact ⟨line, rfl⟩
  refine ⟨c, trimEnd line, ?_, hc⟩
  rw [headline, String.toList_ofList, hstart, hline, ← List.nil_append (c :: line),
    trim_append_cons hc]
  rfl

theorem isEmpty_headline (text : String) : (headline text).isEmpty = allBlank text := by
  cases hblank : allBlank text with
  | true =>
    have hstart : trimStart text.toList = [] :=
      List.dropWhile_eq_nil_iff.mpr (List.all_eq_true.mp hblank)
    rw [headline, hstart, isEmpty_ofList]
    rfl
  | false =>
    obtain ⟨c, cs, htext, -⟩ := beginsVisibly_headline (visible_iff.mpr hblank)
    rw [← String.ofList_toList (s := headline text), htext, isEmpty_ofList]
    rfl

theorem visible_clip_trimmed_iff (text : String) (hlimit : 1 ≤ limit) :
    Visible (clip (trimmed text) limit) ↔ Visible text := by
  constructor
  · intro h
    by_contra hblank
    rw [visible_iff, Bool.not_eq_false] at hblank
    rw [trimmed_eq_empty_iff.mpr hblank] at h
    obtain ⟨c, hc, -⟩ := h
    simp [clip_toList, clipChars] at hc
  · exact fun h => (beginsVisibly_trimmed h).visible_clip hlimit

end

/-! ## Metadata -/

theorem beginsVisibly_of_text? {value : Json} {names : List String} {text : String}
    (h : Metadata.text? value names = some text) : BeginsVisibly text := by
  obtain ⟨name, -, hmember⟩ := List.exists_of_findSome?_eq_some h
  obtain ⟨s, -, hs⟩ := Option.bind_eq_some_iff.mp hmember
  split at hs
  · cases hs
  · rename_i hblank
    cases hs
    exact beginsVisibly_trimmed (visible_iff.mpr (Bool.eq_false_iff.mpr hblank))

theorem beginsVisibly_of_mem_text? {value : Json} {names : List String} {text : String}
    (h : text ∈ (Metadata.text? value names).toList) : BeginsVisibly text :=
  beginsVisibly_of_text? (Option.mem_toList.mp h)

end Chronicle.Text
