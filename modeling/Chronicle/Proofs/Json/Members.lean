import Chronicle.Json.Decode
import Mathlib.Data.List.Forall2

/-!
# Records that were read from JSON values

What is known of a record of some layout that was read from a value.

* `exists_draft_of_asRecord`: it was finished from a draft, which for a JSON record is what storing
  its members in turn leaves.
* `read_of_storeMembers`: a part of the draft that one field alone changes is read from the member that
  this field's name stands for, since what was given once is not given again.
* `exists_kept_draft_of_asRecord`: what storing any field keeps holds of that draft, however the record
  is given.
* `asEach_list`, `forall_of_asEach`: the same of lists, item by item.
-/

namespace Chronicle.Json

theorem exists_of_bind_eq_ok {x : Except ε α} {f : α → Except ε β} {b : β}
    (h : (x >>= f) = .ok b) : ∃ a, x = .ok a ∧ f a = .ok b := by
  cases x with
  | error e => cases h
  | ok a => exact ⟨a, rfl, h⟩

theorem exists_of_map_eq_ok {x : Except ε α} {f : α → β} {b : β} (h : x.map f = .ok b) :
    ∃ a, x = .ok a ∧ f a = b := by
  cases x with
  | error e => cases h
  | ok a => exact ⟨a, rfl, Except.ok.inj h⟩

/-- What reading members in turn leaves in one part of the draft: a field that one name alone stands
for and that alone changes this part is read from the member of that name. -/
theorem read_of_storeMembers [DecidableEq φ] {layout : Layout φ δ α Json Mismatch} {field : φ}
    {name : String} (part : δ → γ) (Reads : Json → γ → Prop)
    (hname : ∀ other, layout.fieldOf other = some field ↔ other = name)
    (hread : ∀ v d d', layout.store field v d = .ok d' → Reads v (part d'))
    (hkeep : ∀ other v d d', other ≠ field → layout.store other v d = .ok d' → part d' = part d)
    {members : List (String × Json)} {seen : List φ} {d d' : δ}
    (h : storeMembers layout seen (members.map fun m => ⟨m.1, .shape, .shape, m.2, .shape⟩) d =
      .ok d') :
    (field ∈ seen → part d' = part d) ∧
      (field ∉ seen → ∀ v, members.lookup name = some v → Reads v (part d')) := by
  induction members generalizing seen d with
  | nil =>
    cases h
    exact ⟨fun _ => rfl, fun _ v hv => by cases hv⟩
  | cons m members ih =>
    obtain ⟨other, w⟩ := m
    rw [List.map_cons, storeMembers] at h
    rw [List.lookup_cons]
    have hother (hne : layout.fieldOf other ≠ some field) : (name == other) = false :=
      beq_eq_false_iff_ne.mpr fun heq => hne ((hname other).mpr heq.symm)
    cases hfield : layout.fieldOf other with
    | none =>
      simp only [hfield] at h
      obtain ⟨-, -, h⟩ := exists_of_bind_eq_ok h
      rw [hother (by simp [hfield])]
      exact ih h
    | some stored =>
      simp only [hfield] at h
      split at h
      · cases h
      · rename_i hnew
        obtain ⟨d₁, hstore, h⟩ := exists_of_bind_eq_ok h
        obtain ⟨hseen, hfresh⟩ := ih h
        by_cases hstored : stored = field
        · -- the field is read here and passed over by what follows
          subst hstored
          obtain rfl := (hname other).mp hfield
          refine ⟨fun hin => absurd hin hnew, fun _ v hv => ?_⟩
          rw [beq_self_eq_true, Option.some.injEq] at hv
          subst hv
          rw [hseen List.mem_cons_self]
          exact hread _ _ _ hstore
        · have hkept := hkeep stored w d d₁ hstored hstore
          rw [hother (by simp [hfield, hstored])]
          refine ⟨fun hin => ?_, fun hout => hfresh ?_⟩
          · rw [hseen (List.mem_cons_of_mem _ hin), hkept]
          · simpa [Ne.symm hstored] using hout

theorem finished_of_conclude {finished : Option α} {e : ε} {a : α}
    (h : conclude finished (.closed e) = .ok a) : finished = some a := by
  cases finished with
  | none => cases h
  | some a' => exact congrArg some (Except.ok.inj h)

theorem exists_draft_of_asRecord [DecidableEq φ] {layout : Layout φ δ α Json Mismatch} {v : Json}
    {a : α} (hlist : layout.finishList = layout.finish) (h : asRecord layout v = .ok a) :
    ∃ d, layout.finish d = some a ∧ ∀ members, v = .record members →
      storeMembers layout [] (members.map fun m => ⟨m.1, .shape, .shape, m.2, .shape⟩)
        layout.draft = .ok d := by
  cases v with
  | record members =>
    obtain ⟨d, hd, h⟩ := exists_of_bind_eq_ok h
    refine ⟨d, finished_of_conclude h, fun members' heq => ?_⟩
    cases heq
    exact hd
  | list items =>
    obtain ⟨d, -, h⟩ := exists_of_bind_eq_ok h
    have hfinish := finished_of_conclude h
    rw [hlist] at hfinish
    exact ⟨d, hfinish, fun members heq => by cases heq⟩
  | _ => cases h

/-! ## What storing keeps -/

section keeps
variable {layout : Layout φ δ α ν ε} {P : δ → Prop} [Source ν ε]
  (hstore : ∀ field v d d', P d → layout.store field v d = .ok d' → P d')
include hstore

theorem kept_of_storeMembers [DecidableEq φ] {seen : List φ} {members : List (Member ν ε)} {d d' : δ}
    (hd : P d) (h : storeMembers layout seen members d = .ok d') : P d' := by
  induction members generalizing seen d with
  | nil =>
    cases h
    exact hd
  | cons m members ih =>
    rw [storeMembers] at h
    split at h
    · obtain ⟨-, -, h⟩ := exists_of_bind_eq_ok h
      exact ih hd h
    · split at h
      · cases h
      · obtain ⟨d₁, hd₁, h⟩ := exists_of_bind_eq_ok h
        exact ih (hstore _ _ _ _ hd hd₁) h

theorem kept_of_storeItems {fields : List φ} {items : List (Item ν ε)} {d d' : δ} (hd : P d)
    (h : storeItems layout fields items d = .ok d') : P d' := by
  induction items generalizing fields d with
  | nil =>
    cases fields <;>
    · cases h
      exact hd
  | cons i items ih =>
    cases fields with
    | nil => cases h
    | cons field fields =>
      obtain ⟨d₁, hd₁, h⟩ := exists_of_bind_eq_ok h
      exact ih (hstore _ _ _ _ hd hd₁) h

/-- A record is finished from a draft of which everything holds that storing keeps. -/
theorem exists_kept_draft_of_asRecord [DecidableEq φ] {v : ν} {a : α}
    (hlist : layout.finishList = layout.finish) (hdraft : P layout.draft)
    (h : asRecord layout v = .ok a) : ∃ d, P d ∧ layout.finish d = some a := by
  have hfinished {finished : Option α} {ending : Ending ε}
      (hconclude : conclude finished ending = .ok a) : finished = some a := by
    cases ending with
    | fault e => cases hconclude
    | closed e => exact finished_of_conclude hconclude
  unfold asRecord at h
  split at h
  · obtain ⟨d, hd, h⟩ := exists_of_bind_eq_ok h
    exact ⟨d, kept_of_storeMembers hstore hdraft hd, hfinished h⟩
  · obtain ⟨d, hd, h⟩ := exists_of_bind_eq_ok h
    rw [hlist] at h
    exact ⟨d, kept_of_storeItems hstore hdraft hd, hfinished h⟩
  · cases h
  · cases h

end keeps

/-! ## Lists -/

theorem asEach_list {decode : Json → Except Mismatch α} {vs : List Json} {records : List α}
    (h : List.Forall₂ (fun v record => decode v = .ok record) vs records) :
    asEach (fun v _ => decode v) (Json.list vs) = .ok records := by
  have hitems : readEach (fun v _ => decode v)
      (vs.map fun v => (⟨v, .shape⟩ : Item Json Mismatch)) = .ok records := by
    induction h with
    | nil => rfl
    | cons hv _ ih =>
      rw [List.map_cons, readEach, hv]
      show (readEach _ _ >>= _) = _
      rw [ih]
      rfl
  show (readEach _ _ >>= _) = _
  rw [hitems]
  rfl

theorem forall_of_readEach {P : α → Prop} {read : ν → ε → Except ε α}
    (hread : ∀ v e a, read v e = .ok a → P a) {items : List (Item ν ε)} {as : List α}
    (h : readEach read items = .ok as) : ∀ a ∈ as, P a := by
  induction items generalizing as with
  | nil =>
    cases h
    exact fun _ ha => absurd ha List.not_mem_nil
  | cons i items ih =>
    obtain ⟨a, ha, h⟩ := exists_of_bind_eq_ok h
    obtain ⟨rest, hrest, h⟩ := exists_of_bind_eq_ok h
    cases h
    exact List.forall_mem_cons.mpr ⟨hread _ _ _ ha, ih hrest⟩

theorem forall_of_asEach [Source ν ε] {P : α → Prop} {read : ν → ε → Except ε α}
    (hread : ∀ v e a, read v e = .ok a → P a) {v : ν} {as : List α} (h : asEach read v = .ok as) :
    ∀ a ∈ as, P a := by
  unfold asEach at h
  split at h
  · obtain ⟨rest, hrest, h⟩ := exists_of_bind_eq_ok h
    split at h
    · cases h
      exact forall_of_readEach hread hrest
    · cases h
  · cases h
  · cases h

end Chronicle.Json
