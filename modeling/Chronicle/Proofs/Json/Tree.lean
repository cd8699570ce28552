import Chronicle.Proofs.Json.Members
import Chronicle.Proofs.Json.Scan

/-!
# Texts that have a value

`isSome_scan_of_parse`: a text with a value can be cut into tokens to its end. Reading need not take
all tokens, but where it stops it leaves a fault in the tree, and a tree with a fault has no value.
`StopsOrLeads` says this of a value, of items and of members at once, and is proved by induction on
the steps of reading.
-/

namespace Chronicle.Json

/-- Reading has stopped at a fault, so that what was read has no value, or goes on in a rest of the
tokens. -/
def StopsOrLeads (hasValue : Prop) (ts : Tokens) : Option Tokens → Prop
  | none => ¬ hasValue
  | some rest => rest.kinds?.isSome → ts.kinds?.isSome

theorem isSome_kinds?_token {t : Token} {line : Nat} {rest : Tokens} :
    (Tokens.token t line rest).kinds?.isSome = rest.kinds?.isSome := by
  rw [Tokens.kinds?, Option.isSome_map]

theorem StopsOrLeads.mono {p q : Prop} {ts ts' : Tokens} {rest : Option Tokens}
    (h : StopsOrLeads p ts rest) (hvalue : q → p) (hts : ts.kinds?.isSome → ts'.kinds?.isSome) :
    StopsOrLeads q ts' rest := by
  cases rest with
  | none => exact fun hq => h (hvalue hq)
  | some rest => exact fun hrest => hts (h hrest)

theorem exists_values_of_value_list {line depth : Nat} {items : Items} {v : Json}
    (h : (Node.list line depth items).value = .ok v) : ∃ vs, items.values = .ok vs := by
  rw [Node.value] at h
  split at h
  · cases hvs : items.values with
    | ok vs => exact ⟨vs, rfl⟩
    | error e =>
      rw [hvs] at h
      cases h
  · cases h

theorem exists_values_of_value_record {line depth : Nat} {members : Members} {v : Json}
    (h : (Node.record line depth members).value = .ok v) : ∃ ms, members.values = .ok ms := by
  rw [Node.value] at h
  split at h
  · cases hms : members.values with
    | ok ms => exact ⟨ms, rfl⟩
    | error e =>
      rw [hms] at h
      cases h
  · cases h

theorem exists_value_of_values_item {node : Node} {resume : Nat} {rest : Items} {vs : List Json}
    (h : (Items.item node resume rest).values = .ok vs) :
    (∃ v, node.value = .ok v) ∧ ∃ vs', rest.values = .ok vs' := by
  rw [Items.values] at h
  obtain ⟨v, hv, h⟩ := exists_of_bind_eq_ok h
  obtain ⟨vs', hvs', -⟩ := exists_of_bind_eq_ok h
  exact ⟨⟨v, hv⟩, vs', hvs'⟩

theorem exists_value_of_values_member {name : Option String} {line resume after : Nat}
    {node : Node} {rest : Members} {ms : List (String × Json)}
    (h : (Members.member name line resume node after rest).values = .ok ms) :
    (∃ v, node.value = .ok v) ∧ ∃ ms', rest.values = .ok ms' := by
  rw [Members.values] at h
  obtain ⟨_, -, h⟩ := exists_of_bind_eq_ok h
  obtain ⟨v, hv, h⟩ := exists_of_bind_eq_ok h
  obtain ⟨ms', hms', -⟩ := exists_of_bind_eq_ok h
  exact ⟨⟨v, hv⟩, ms', hms'⟩

section
variable {steps : Nat}

theorem stopsOrLeads_readNode
    (hitems : ∀ depth ts, StopsOrLeads (∃ vs, (readItems depth steps ts).1.values = .ok vs) ts
      (readItems depth steps ts).2)
    (hmembers : ∀ depth ts, StopsOrLeads (∃ ms, (readMembers depth steps ts).1.values = .ok ms) ts
      (readMembers depth steps ts).2) (depth : Nat) (ts : Tokens) :
    StopsOrLeads (∃ v, (readNode depth (steps + 1) ts).1.value = .ok v) ts
      (readNode depth (steps + 1) ts).2 := by
  cases ts with
  | ends line =>
    rintro ⟨v, h⟩
    cases h
  | breaks b =>
    rintro ⟨v, h⟩
    cases h
  | token t line rest =>
    have hscalar (h : rest.kinds?.isSome) : (Tokens.token t line rest).kinds?.isSome := by
      rwa [isSome_kinds?_token]
    cases t with
    | openList =>
      unfold readNode
      simp only
      split
      · intro h
        rwa [isSome_kinds?_token, isSome_kinds?_token]
      · refine (hitems (depth + 1) rest).mono ?_ hscalar
        rintro ⟨v, h⟩
        exact exists_values_of_value_list h
    | openRecord =>
      unfold readNode
      simp only
      split
      · intro h
        rwa [isSome_kinds?_token, isSome_kinds?_token]
      · refine (hmembers (depth + 1) rest).mono ?_ hscalar
        rintro ⟨v, h⟩
        exact exists_values_of_value_record h
    | closeList =>
      rintro ⟨v, h⟩
      cases h
    | closeRecord =>
      rintro ⟨v, h⟩
      cases h
    | colon =>
      rintro ⟨v, h⟩
      cases h
    | comma =>
      rintro ⟨v, h⟩
      cases h
    | _ => exact hscalar

theorem stopsOrLeads_readItems
    (hnode : ∀ depth ts, StopsOrLeads (∃ v, (readNode depth steps ts).1.value = .ok v) ts
      (readNode depth steps ts).2)
    (hitems : ∀ depth ts, StopsOrLeads (∃ vs, (readItems depth steps ts).1.values = .ok vs) ts
      (readItems depth steps ts).2) (depth : Nat) (ts : Tokens) :
    StopsOrLeads (∃ vs, (readItems depth (steps + 1) ts).1.values = .ok vs) ts
      (readItems depth (steps + 1) ts).2 := by
  have hread := hnode depth ts
  unfold readItems
  split
  · rename_i node heq
    rw [heq] at hread
    rintro ⟨vs, h⟩
    exact hread (exists_value_of_values_item h).1
  · rename_i node line rest heq
    rw [heq] at hread
    intro h
    apply hread
    rwa [isSome_kinds?_token]
  · rename_i node line rest heq
    rw [heq] at hread
    split
    · rintro ⟨vs, h⟩
      obtain ⟨-, vs', h⟩ := exists_value_of_values_item h
      cases h
    · refine (hitems depth rest).mono ?_ fun h => hread (by rwa [isSome_kinds?_token])
      rintro ⟨vs, h⟩
      exact (exists_value_of_values_item h).2
  · rintro ⟨vs, h⟩
    obtain ⟨-, vs', h⟩ := exists_value_of_values_item h
    cases h

theorem stopsOrLeads_readMembers
    (hnode : ∀ depth ts, StopsOrLeads (∃ v, (readNode depth steps ts).1.value = .ok v) ts
      (readNode depth steps ts).2)
    (hmembers : ∀ depth ts, StopsOrLeads (∃ ms, (readMembers depth steps ts).1.values = .ok ms) ts
      (readMembers depth steps ts).2) (depth : Nat) (ts : Tokens) :
    StopsOrLeads (∃ ms, (readMembers depth (steps + 1) ts).1.values = .ok ms) ts
      (readMembers depth (steps + 1) ts).2 := by
  -- a member whose rest is a fault has no value
  have hfault {name line resume node after b} (ms : List (String × Json)) :
      (Members.member name line resume node after (.fault b)).values ≠ .ok ms := by
    intro h
    obtain ⟨-, ms', h⟩ := exists_value_of_values_member h
    cases h
  unfold readMembers
  split
  · rintro ⟨ms, h⟩
    cases h
  · rename_i steps' name line colon rest hsteps
    obtain rfl : steps = steps' := Nat.succ.inj hsteps
    have hread := hnode depth rest
    split
    · rintro ⟨ms, h⟩
      exact hfault ms h
    · rename_i node close after heq
      rw [heq] at hread
      intro h
      rw [isSome_kinds?_token, isSome_kinds?_token]
      apply hread
      rwa [isSome_kinds?_token]
    · rename_i node after more heq
      rw [heq] at hread
      split
      · rintro ⟨ms, h⟩
        exact hfault ms h
      · refine (hmembers depth more).mono ?_ fun h => ?_
        · rintro ⟨ms, h⟩
          exact (exists_value_of_values_member h).2
        · rw [isSome_kinds?_token, isSome_kinds?_token]
          exact hread (by rwa [isSome_kinds?_token])
    · rintro ⟨ms, h⟩
      exact hfault ms h
  · rintro ⟨ms, h⟩
    exact hfault ms h
  · rintro ⟨ms, h⟩
    cases h
  · rintro ⟨ms, h⟩
    cases h

end

theorem stopsOrLeads_read (steps : Nat) :
    (∀ depth ts, StopsOrLeads (∃ v, (readNode depth steps ts).1.value = .ok v) ts
      (readNode depth steps ts).2) ∧
    (∀ depth ts, StopsOrLeads (∃ vs, (readItems depth steps ts).1.values = .ok vs) ts
      (readItems depth steps ts).2) ∧
    (∀ depth ts, StopsOrLeads (∃ ms, (readMembers depth steps ts).1.values = .ok ms) ts
      (readMembers depth steps ts).2) := by
  induction steps with
  | zero =>
    refine ⟨fun depth ts => ?_, fun depth ts => ?_, fun depth ts => ?_⟩
    · rintro ⟨v, h⟩
      cases h
    · rintro ⟨vs, h⟩
      cases h
    · rintro ⟨ms, h⟩
      cases h
  | succ steps ih =>
    obtain ⟨hnode, hitems, hmembers⟩ := ih
    exact ⟨stopsOrLeads_readNode hitems hmembers, stopsOrLeads_readItems hnode hitems,
      stopsOrLeads_readMembers hnode hmembers⟩

/-- **A text with a value can be cut into tokens to its end.** -/
theorem isSome_scan_of_parse {cs : List Char} (h : (parse cs).isSome) :
    (scan .between cs).isSome := by
  obtain ⟨v, hparse⟩ := Option.isSome_iff_exists.mp h
  have hread : (Document.ofText cs).read Node.value = .ok v := by
    unfold parse at hparse
    cases hdocument : (Document.ofText cs).read Node.value with
    | ok w =>
      rw [hdocument] at hparse
      rw [Option.some.inj hparse]
    | error e =>
      rw [hdocument] at hparse
      cases hparse
  obtain ⟨w, hvalue, htrailing⟩ := exists_of_bind_eq_ok hread
  have hleads := (stopsOrLeads_read (2 * (Tokens.ofChars cs).size + 2)).1 0 (Tokens.ofChars cs)
  unfold Document.ofText at hvalue htrailing
  simp only at hvalue htrailing
  split at hvalue
  · rename_i node heq
    rw [heq] at hleads
    exact absurd ⟨w, hvalue⟩ hleads
  · rename_i node line heq
    rw [heq] at hleads
    exact hleads rfl
  · rename_i node rest hends heq
    rw [heq] at htrailing
    simp only at htrailing
    cases rest with
    | ends line => exact absurd rfl (hends line)
    | _ => cases htrailing

end Chronicle.Json
