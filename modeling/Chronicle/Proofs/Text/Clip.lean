import Chronicle.Text.Clip

/-!
# What clipping leaves

A text that fits is left as it is, and of any other exactly as many characters are shown as the limit
says. From three on, the points take the place of the same number of characters whatever was cut, so
clipping to a limit and then to a lower one is clipping to the lower one. Below three it is not: the
points themselves are clipped.

* `length_clipChars`, `clipChars_eq_self_iff`, `clipChars_clipChars`: the same of lists.
* `Clipped`, `clipped`: what is shown of a text.
-/

namespace Chronicle.Text

section
variable {cs : List Char} {limit : Nat}

theorem length_clipChars : (clipChars cs limit).length = min cs.length limit := by
  rw [clipChars]
  split
  · omega
  · split
    · rw [List.length_take]
      omega
    · rw [List.length_append, List.length_take, ellipsis]
      simp only [List.length_cons, List.length_nil]
      omega

theorem clipChars_of_le (h : cs.length ≤ limit) : clipChars cs limit = cs := if_pos h

theorem clipChars_of_lt_three (h : limit < cs.length) (hlimit : limit < 3) :
    clipChars cs limit = cs.take limit := by
  rw [clipChars, if_neg (by omega), if_pos hlimit]

theorem clipChars_of_three_le (h : limit < cs.length) (hlimit : 3 ≤ limit) :
    clipChars cs limit = cs.take (limit - 3) ++ ellipsis := by
  rw [clipChars, if_neg (by omega), if_neg (by omega)]

theorem clipChars_eq_self_iff : clipChars cs limit = cs ↔ cs.length ≤ limit := by
  refine ⟨fun h => ?_, clipChars_of_le⟩
  have hlength : (clipChars cs limit).length = min cs.length limit := length_clipChars
  rw [h] at hlength
  omega

theorem clipChars_clipChars {lower : Nat} (hthree : 3 ≤ lower) (hle : lower ≤ limit) :
    clipChars (clipChars cs limit) lower = clipChars cs lower := by
  rcases Nat.lt_or_ge limit cs.length with hlimit | hfits
  · have hlength : (clipChars cs limit).length = limit := by
      rw [length_clipChars]
      omega
    rcases Nat.eq_or_lt_of_le hle with rfl | hlt
    · exact clipChars_of_le (Nat.le_of_eq hlength)
    · -- the lower limit keeps less of the text than the other one has left before its points
      have hkept : lower - 3 ≤ (cs.take (limit - 3)).length := by
        rw [List.length_take]
        omega
      rw [clipChars_of_three_le (hlength.symm ▸ hlt) hthree,
        clipChars_of_three_le (Nat.lt_trans hlt hlimit) hthree,
        clipChars_of_three_le hlimit (by omega), List.take_append_of_le_length hkept,
        List.take_take, Nat.min_eq_left (by omega)]
  · rw [clipChars_of_le hfits]

end

/-- What is shown of a text that is clipped. -/
structure Clipped (text : String) (limit : Nat) : Prop where
  length : (clip text limit).length = min text.length limit
  /-- Exactly a text that fits is shown as it is. -/
  whole : clip text limit = text ↔ text.length ≤ limit
  bare : limit < text.length → limit < 3 → clip text limit = String.ofList (text.toList.take limit)
  dotted : limit < text.length → 3 ≤ limit →
    clip text limit = String.ofList (text.toList.take (limit - 3)) ++ "..."
  /-- What has been clipped is clipped. -/
  again : clip (clip text limit) limit = clip text limit
  lower (b : Nat) : 3 ≤ b → b ≤ limit → clip (clip text limit) b = clip text b

theorem clipped (text : String) (limit : Nat) : Clipped text limit where
  length := by
    rw [clip, String.length_ofList, length_clipChars, String.length_toList]
  whole := by
    rw [← String.toList_inj, clip_toList, clipChars_eq_self_iff, String.length_toList]
  bare h hlimit := by
    rw [clip, clipChars_of_lt_three (by rwa [String.length_toList]) hlimit]
  dotted h hlimit := by
    rw [clip, clipChars_of_three_le (by rwa [String.length_toList]) hlimit, String.ofList_append]
    rfl
  again := by
    have hfits : (clipChars text.toList limit).length ≤ limit := by
      rw [length_clipChars]
      omega
    rw [clip, clip_toList, clipChars_of_le hfits, clip]
  lower b hthree hle := by
    rw [clip, clip_toList, clipChars_clipChars hthree hle, clip]

/-- Two points are left of the three. -/
example : clip (clip "text" 3) 2 = ".." ∧ clip "text" 2 = "te" := by decide

end Chronicle.Text
