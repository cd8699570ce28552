import Chronicle.Proofs.Json.Members
import Chronicle.Proofs.Json.Spelling

/-!
# Values back from their text

* `Canonical`: values whose names ascend and whose numbers are what their texts read as.
* `ofMembers_eq_record_iff`: a record is kept as it is exactly if its names ascend.
* `value_eq_ok_iff`: a tree of a value has this value exactly if the value is canonical and is nested
  no deeper than the limit.
* `parse_eq_some_iff`: so a text of a value gives it back, whatever the space between its tokens.
-/

namespace Chronicle.Json

/-! ## Ascending names -/

def Ascending (ms : List (String × Json)) : Prop := (ms.map Prod.fst).Pairwise (· < ·)

variable {name : String} {v : Json} {ms : List (String × Json)}

theorem name_of_mem_insert {m : String × Json} (h : m ∈ insert name v ms) :
    m.1 = name ∨ m ∈ ms := by
  induction ms with
  | nil => exact .inl (congrArg Prod.fst (List.mem_singleton.mp h))
  | cons other ms ih =>
    rw [insert] at h
    split at h
    · rcases List.mem_cons.mp h with rfl | h
      · exact .inl rfl
      · exact .inr h
    split at h
    · rcases List.mem_cons.mp h with rfl | h
      · exact .inl rfl
      · exact .inr (List.mem_cons_of_mem _ h)
    · rcases List.mem_cons.mp h with rfl | h
      · exact .inr List.mem_cons_self
      · exact (ih h).imp_right (List.mem_cons_of_mem _)

theorem ascending_cons {m : String × Json} :
    Ascending (m :: ms) ↔ (∀ other ∈ ms, m.1 < other.1) ∧ Ascending ms := by
  simp [Ascending]

theorem ascending_insert (name : String) (v : Json) (h : Ascending ms) :
    Ascending (insert name v ms) := by
  induction ms with
  | nil => exact List.pairwise_singleton _ _
  | cons m ms ih =>
    obtain ⟨hm, hms⟩ := ascending_cons.mp h
    rw [insert]
    split
    · rename_i hlt
      refine ascending_cons.mpr ⟨fun other hother => ?_, h⟩
      rcases List.mem_cons.mp hother with rfl | hother
      · exact hlt
      · exact String.lt_trans hlt (hm other hother)
    split
    · rename_i heq
      refine ascending_cons.mpr ⟨fun other hother => ?_, hms⟩
      rw [heq]
      exact hm other hother
    · rename_i hlt hne
      refine ascending_cons.mpr ⟨fun other hother => ?_, ih hms⟩
      rcases name_of_mem_insert hother with heq | hother
      · have hle : m.1 ≤ name := String.not_lt.mp hlt
        rw [heq]
        by_cases hge : name ≤ m.1
        · exact absurd (String.le_antisymm hge hle) hne
        · exact String.not_le.mp hge
      · exact hm other hother

theorem ascending_nil : Ascending [] := .nil

theorem ascending_foldl (added : List (String × Json)) (h : Ascending ms) :
    Ascending (added.foldl (fun done m => insert m.1 m.2 done) ms) := by
  induction added generalizing ms with
  | nil => exact h
  | cons m added ih => exact ih (ascending_insert m.1 m.2 h)

theorem insert_of_forall_lt (h : ∀ m ∈ ms, m.1 < name) : insert name v ms = ms ++ [(name, v)] := by
  induction ms with
  | nil => rfl
  | cons m ms ih =>
    obtain ⟨hm, hms⟩ := List.forall_mem_cons.mp h
    have hne : name ≠ m.1 := by
      intro heq
      rw [heq] at hm
      exact String.lt_irrefl _ hm
    rw [insert, if_neg (String.lt_asymm hm), if_neg hne, ih hms]
    rfl

theorem foldl_insert_of_ascending {done ms : List (String × Json)} (h : Ascending (done ++ ms)) :
    ms.foldl (fun done m => insert m.1 m.2 done) done = done ++ ms := by
  induction ms generalizing done with
  | nil => exact (List.append_nil done).symm
  | cons m ms ih =>
    have hbelow : ∀ other ∈ done, other.1 < m.1 := by
      intro other hother
      have hpairs := h
      rw [Ascending, List.map_append, List.pairwise_append] at hpairs
      exact hpairs.2.2 _ (List.mem_map_of_mem hother) _ List.mem_cons_self
    have hsplit : done ++ m :: ms = done ++ [(m.1, m.2)] ++ ms := by simp
    rw [List.foldl_cons, insert_of_forall_lt hbelow, hsplit]
    exact ih (hsplit ▸ h)

/-- **A record is kept as it is exactly if its names ascend.** -/
theorem ofMembers_eq_record_iff : ofMembers ms = .record ms ↔ Ascending ms := by
  constructor
  · intro h
    have hms := ascending_foldl ms ascending_nil
    rwa [Json.record.inj h] at hms
  · intro h
    have hall : Ascending ([] ++ ms) := h
    exact congrArg Json.record (foldl_insert_of_ascending hall)

theorem ascending_of_ofMembers {given : List (String × Json)} (h : ofMembers given = .record ms) :
    Ascending ms := by
  have hms := ascending_foldl given ascending_nil
  rwa [Json.record.inj h] at hms

/-! ## Canonical values -/

mutual

/-- Values of which each number is what its text reads as, and each record's names ascend. -/
def Canonical : Json → Prop
  | .number n => readBack n = some n
  | .list vs => ItemsCanonical vs
  | .record ms => Ascending ms ∧ MembersCanonical ms
  | _ => True

def ItemsCanonical : List Json → Prop
  | [] => True
  | v :: vs => Canonical v ∧ ItemsCanonical vs

def MembersCanonical : List (String × Json) → Prop
  | [] => True
  | (_, v) :: ms => Canonical v ∧ MembersCanonical ms

end

theorem itemsCanonical_iff {vs : List Json} : ItemsCanonical vs ↔ ∀ v ∈ vs, Canonical v := by
  induction vs with
  | nil => simp [ItemsCanonical]
  | cons v vs ih => rw [ItemsCanonical, ih, List.forall_mem_cons]

theorem itemsDepth_le_iff {vs : List Json} {n : Nat} : itemsDepth vs ≤ n ↔ ∀ v ∈ vs, v.depth ≤ n := by
  induction vs with
  | nil => simp [itemsDepth]
  | cons v vs ih => rw [itemsDepth, Nat.max_le, ih, List.forall_mem_cons]

/-! ## Trees of canonical values -/

mutual

theorem Node.Spells.value {depth : Nat} {node : Node} {v : Json} (h : node.Spells depth v)
    (hcanonical : Canonical v) (hdepth : depth + v.depth ≤ depthLimit) : node.value = .ok v := by
  match v, h with
  | .null, .null => rfl
  | .bool b, .bool => rfl
  | .number n, .number =>
    have hback : readBack n = some n := hcanonical
    rw [Node.value, hback]
    rfl
  | .text s, .text => rfl
  | .list vs, .list hitems =>
    rw [Json.depth] at hdepth
    rw [Node.value, if_pos (by omega), hitems.values hcanonical (by omega)]
    rfl
  | .record ms, .record hmembers =>
    rw [Json.depth] at hdepth
    rw [Node.value, if_pos (by omega), hmembers.values hcanonical.2 (by omega)]
    exact congrArg Except.ok (ofMembers_eq_record_iff.mpr hcanonical.1)

theorem Items.Spells.values {depth : Nat} {items : Items} {vs : List Json}
    (h : items.Spells depth vs) (hcanonical : ItemsCanonical vs)
    (hdepth : depth + itemsDepth vs ≤ depthLimit) : items.values = .ok vs := by
  match vs, h with
  | [], .closed => rfl
  | v :: vs, .item hnode hrest =>
    rw [itemsDepth] at hdepth
    rw [Items.values, hnode.value hcanonical.1 (by omega), hrest.values hcanonical.2 (by omega)]
    rfl

theorem Members.Spells.values {depth : Nat} {members : Members} {ms : List (String × Json)}
    (h : members.Spells depth ms) (hcanonical : MembersCanonical ms)
    (hdepth : depth + membersDepth ms ≤ depthLimit) : members.values = .ok ms := by
  match ms, h with
  | [], .closed => rfl
  | (k, v) :: ms, .member hnode hrest =>
    rw [membersDepth] at hdepth
    rw [Members.values, hnode.value hcanonical.1 (by omega), hrest.values hcanonical.2 (by omega)]
    rfl

end

mutual

theorem Node.Spells.skip {depth : Nat} {node : Node} {v : Json} (h : node.Spells depth v) :
    node.skip = .ok () := by
  match v, h with
  | .null, .null => rfl
  | .bool b, .bool => rfl
  | .number n, .number => rfl
  | .text s, .text => rfl
  | .list vs, .list hitems => exact hitems.skip
  | .record ms, .record hmembers => exact hmembers.skip

theorem Items.Spells.skip {depth : Nat} {items : Items} {vs : List Json}
    (h : items.Spells depth vs) : items.skip = .ok () := by
  match vs, h with
  | [], .closed => rfl
  | v :: vs, .item hnode hrest =>
    rw [Items.skip, hnode.skip]
    exact hrest.skip

theorem Members.Spells.skip {depth : Nat} {members : Members} {ms : List (String × Json)}
    (h : members.Spells depth ms) : members.skip = .ok () := by
  match ms, h with
  | [], .closed => rfl
  | (k, v) :: ms, .member hnode hrest =>
    rw [Members.skip, hnode.skip]
    exact hrest.skip

end

/-! ## Exactly the canonical values -/

theorem Members.Spells.names_values {depth : Nat} {members : Members}
    {ms given : List (String × Json)} (h : members.Spells depth ms)
    (hvalues : members.values = .ok given) : given.map Prod.fst = ms.map Prod.fst := by
  induction ms generalizing members given with
  | nil =>
    cases h
    cases hvalues
    rfl
  | cons m ms ih =>
    cases h with
    | member hnode hrest =>
      rw [Members.values] at hvalues
      obtain ⟨k, hk, hvalues⟩ := exists_of_bind_eq_ok hvalues
      obtain ⟨v, -, hvalues⟩ := exists_of_bind_eq_ok hvalues
      obtain ⟨more, hmore, hvalues⟩ := exists_of_bind_eq_ok hvalues
      cases hk
      cases hvalues
      rw [List.map_cons, List.map_cons, ih hrest hmore]

mutual

theorem Node.Spells.canonical_of_value {depth : Nat} {node : Node} {v : Json}
    (h : node.Spells depth v) (hvalue : node.value = .ok v) (hin : depth ≤ depthLimit) :
    Canonical v ∧ depth + v.depth ≤ depthLimit := by
  match v, h with
  | .null, .null => exact ⟨trivial, hin⟩
  | .bool b, .bool => exact ⟨trivial, hin⟩
  | .number n, .number =>
    refine ⟨?_, hin⟩
    rw [Node.value] at hvalue
    cases hback : readBack n with
    | none =>
      rw [hback] at hvalue
      cases hvalue
    | some m =>
      rw [hback] at hvalue
      cases hvalue
      exact hback
  | .text s, .text => exact ⟨trivial, hin⟩
  | .list vs, .list hitems =>
    rw [Node.value] at hvalue
    split at hvalue
    · rename_i hle
      obtain ⟨given, hgiven, heq⟩ := exists_of_map_eq_ok hvalue
      obtain rfl := Json.list.inj heq
      obtain ⟨hcanonical, hdepth⟩ := hitems.canonical_of_values hgiven hle
      exact ⟨hcanonical, by rw [Json.depth]; omega⟩
    · cases hvalue
  | .record ms, .record hmembers =>
    rw [Node.value] at hvalue
    split at hvalue
    · rename_i hle
      obtain ⟨given, hgiven, heq⟩ := exists_of_map_eq_ok hvalue
      -- the names given ascend, as those of the record do, so none was moved or dropped
      have hascending := ascending_of_ofMembers heq
      have hnames : Ascending given := by
        rw [Ascending, hmembers.names_values hgiven]
        exact hascending
      obtain rfl : given = ms := Json.record.inj ((ofMembers_eq_record_iff.mpr hnames).symm.trans heq)
      obtain ⟨hcanonical, hdepth⟩ := hmembers.canonical_of_values hgiven hle
      exact ⟨⟨hascending, hcanonical⟩, by rw [Json.depth]; omega⟩
    · cases hvalue

theorem Items.Spells.canonical_of_values {depth : Nat} {items : Items} {vs : List Json}
    (h : items.Spells depth vs) (hvalues : items.values = .ok vs) (hin : depth ≤ depthLimit) :
    ItemsCanonical vs ∧ depth + itemsDepth vs ≤ depthLimit := by
  match vs, h with
  | [], .closed => exact ⟨trivial, hin⟩
  | v :: vs, .item hnode hrest =>
    rw [Items.values] at hvalues
    obtain ⟨w, hw, hvalues⟩ := exists_of_bind_eq_ok hvalues
    obtain ⟨ws, hws, hvalues⟩ := exists_of_bind_eq_ok hvalues
    cases hvalues
    obtain ⟨hv, hdepth⟩ := hnode.canonical_of_value hw hin
    obtain ⟨hvs, hdepths⟩ := hrest.canonical_of_values hws hin
    exact ⟨⟨hv, hvs⟩, by rw [itemsDepth]; omega⟩

theorem Members.Spells.canonical_of_values {depth : Nat} {members : Members}
    {ms : List (String × Json)} (h : members.Spells depth ms) (hvalues : members.values = .ok ms)
    (hin : depth ≤ depthLimit) : MembersCanonical ms ∧ depth + membersDepth ms ≤ depthLimit := by
  match ms, h with
  | [], .closed => exact ⟨trivial, hin⟩
  | (k, v) :: ms, .member hnode hrest =>
    rw [Members.values] at hvalues
    obtain ⟨_, -, hvalues⟩ := exists_of_bind_eq_ok hvalues
    obtain ⟨w, hw, hvalues⟩ := exists_of_bind_eq_ok hvalues
    obtain ⟨ws, hws, hvalues⟩ := exists_of_bind_eq_ok hvalues
    cases hvalues
    obtain ⟨hv, hdepth⟩ := hnode.canonical_of_value hw hin
    obtain ⟨hms, hdepths⟩ := hrest.canonical_of_values hws hin
    exact ⟨⟨hv, hms⟩, by rw [membersDepth]; omega⟩

end

theorem value_eq_ok_iff {depth : Nat} {node : Node} {v : Json} (h : node.Spells depth v)
    (hin : depth ≤ depthLimit) :
    node.value = .ok v ↔ Canonical v ∧ depth + v.depth ≤ depthLimit :=
  ⟨fun hvalue => h.canonical_of_value hvalue hin, fun ⟨hcanonical, hdepth⟩ => h.value hcanonical hdepth⟩

/-- **A text of a value gives it back exactly if the value is canonical and not nested too deep.** -/
theorem parse_eq_some_iff {v : Json} {cs : List Char} (h : Spaced (printed v) cs) :
    parse cs = some v ↔ Canonical v ∧ v.depth ≤ depthLimit := by
  obtain ⟨node, hdocument, hspells⟩ := exists_ofText_of_spaced h
  have hread : (Document.ofText cs).read Node.value = node.value := by
    rw [hdocument, Document.read]
    cases node.value <;> rfl
  have hiff := value_eq_ok_iff hspells (Nat.zero_le _)
  rw [Nat.zero_add] at hiff
  rw [← hiff, parse, hread]
  cases node.value with
  | ok w => simp [Except.toOption]
  | error e => simp [Except.toOption]

end Chronicle.Json
