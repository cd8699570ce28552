import Chronicle.Proofs.Json.Members

/-!
# Records that are written

A record is written as members of which each stands for a field of its own. What is absent is left
out, or written as null.

* `Stores`: members that fill these fields in turn, some of which may be left out, and what they make
  of a draft. `Stores.optional` is the member of a part that may be absent.
* `asRecord_of_stores`: the record of such members is finished from what they make of the empty draft.
* `told?`: a value as what may be absent is read. Nothing but null tells nothing.
-/

namespace Chronicle.Json

/-! ## Parts of a record -/

theorem bind_of_eq_ok {x : Except ε α} {a : α} (h : x = .ok a) (f : α → Except ε β) :
    (x >>= f) = f a := by
  rw [h]
  rfl

theorem bind_some_of_eq_ok {x : Except ε α} {a : α} (h : x = .ok a)
    (f : Option α → Except ε β) : (some <$> x >>= f) = f (some a) := by
  rw [h]
  rfl

/-- What a value tells where null tells nothing. -/
def told? : Json → Option Json
  | null => none
  | v => some v

theorem asOptional_asValue (v : Json) : asOptional asValue v = .ok (told? v) := by
  cases v <;> rfl

theorem bind_told?_eq_self_iff (o : Option Json) : o.bind told? = o ↔ o ≠ some null := by
  cases o with
  | none => simp
  | some v => cases v <;> simp [told?]

theorem ne_null_of_asOptional {v : Json} {o : Option Json} (h : asOptional asValue v = .ok o) :
    o ≠ some null := by
  rw [asOptional_asValue] at h
  cases h
  cases v <;> simp [told?]

theorem asVariant_text {ofName : String → Option α} {name : String} {a : α}
    (h : ofName name = some a) : asVariant ofName (text name) = .ok a := by
  have hview : Source.view (text name) = (.text name : View Json Mismatch) := rfl
  rw [asVariant, hview]
  simp only [h]

theorem asOptional_asVariant_text {ofName : String → Option α} {name : String} {a : α}
    (h : ofName name = some a) : asOptional (asVariant ofName) (text name) = .ok (some a) := by
  have hsome : asOptional (asVariant ofName) (text name) = some <$> asVariant ofName (text name) :=
    rfl
  rw [hsome, asVariant_text h]
  rfl

/-! ## Members -/

/-- Members that fill these fields in turn, each with what a member of its name is read as, or left
out. They make the second draft of the first. -/
inductive Stores (layout : Layout φ δ α Json Mismatch) :
    List φ → List (String × Json) → δ → δ → Prop where
  | nil (d : δ) : Stores layout [] [] d d
  | member {field : φ} {fields : List φ} {name : String} {v : Json}
      {members : List (String × Json)} {d d₁ d' : δ} (hname : layout.fieldOf name = some field)
      (hstore : layout.store field v d = .ok d₁) (hrest : Stores layout fields members d₁ d') :
      Stores layout (field :: fields) ((name, v) :: members) d d'
  | absent {field : φ} {fields : List φ} {members : List (String × Json)} {d d' : δ}
      (hrest : Stores layout fields members d d') : Stores layout (field :: fields) members d d'

namespace Stores

variable {layout : Layout φ δ α Json Mismatch} {field : φ} {fields seen : List φ} {name : String}
  {members : List (String × Json)} {d d' : δ}

/-- A part that is left out if it is absent: `put` makes the draft with the part as it is, and that of
an absent one is the draft without. -/
theorem optional {x : Option β} {write : β → Json} {o : Option Json} (put : Option β → δ)
    (hvalue : o = x.map write) (hname : layout.fieldOf name = some field) (hnone : put none = d)
    (hstore : ∀ b, layout.store field (write b) d = .ok (put (some b)))
    (hrest : Stores layout fields members (put x) d') :
    Stores layout (field :: fields) (member? name o ++ members) d d' := by
  subst hvalue hnone
  cases x with
  | none => exact .absent hrest
  | some b => exact .member hname (hstore b) hrest

theorem optionalValue {x : Option Json} (put : Option Json → δ)
    (hname : layout.fieldOf name = some field) (hnone : put none = d)
    (hstore : ∀ v, layout.store field v d = .ok (put (some v)))
    (hrest : Stores layout fields members (put x) d') :
    Stores layout (field :: fields) (member? name x ++ members) d d' :=
  .optional put Option.map_id'.symm hname hnone hstore hrest

theorem storeMembers [DecidableEq φ] (h : Stores layout fields members d d')
    (hnew : ∀ field ∈ fields, field ∉ seen) (hnodup : fields.Nodup) :
    storeMembers layout seen (members.map fun m => ⟨m.1, .shape, .shape, m.2, .shape⟩) d =
      .ok d' := by
  induction h generalizing seen with
  | nil d => rfl
  | @member field fields name v members d d₁ d' hname hstore _ ih =>
    obtain ⟨hfresh, hnodup⟩ := List.nodup_cons.mp hnodup
    obtain ⟨hfield, hnew⟩ := List.forall_mem_cons.mp hnew
    rw [List.map_cons, Json.storeMembers]
    simp only [hname, if_neg hfield, hstore]
    refine ih (fun other hother => ?_) hnodup
    rw [List.mem_cons, not_or]
    exact ⟨ne_of_mem_of_not_mem hother hfresh, hnew other hother⟩
  | @absent field fields members d d' _ ih =>
    exact ih (List.forall_mem_cons.mp hnew).2 (List.nodup_cons.mp hnodup).2

theorem fieldOf_ne_none (h : Stores layout fields members d d') :
    ∀ m ∈ members, layout.fieldOf m.1 ≠ none := by
  induction h with
  | nil d => exact fun m hm => absurd hm List.not_mem_nil
  | member hname _ _ ih => exact List.forall_mem_cons.mpr ⟨by simp [hname], ih⟩
  | absent _ ih => exact ih

end Stores

/-- **A record that is written is read as it was stored.** -/
theorem asRecord_of_stores [DecidableEq φ] {layout : Layout φ δ α Json Mismatch} (fields : List φ)
    (d : δ) {members : List (String × Json)} {a : α} (h : Stores layout fields members layout.draft d)
    (hnodup : fields.Nodup) (hfinish : layout.finish d = some a) :
    asRecord layout (record members) = .ok a := by
  have hstored := h.storeMembers (fun _ _ => List.not_mem_nil) hnodup
  show (storeMembers layout [] (members.map _) layout.draft >>= _) = _
  rw [hstored]
  show conclude (layout.finish d) (.closed Mismatch.shape) = _
  rw [hfinish]
  rfl

end Chronicle.Json
