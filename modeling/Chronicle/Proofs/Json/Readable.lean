import Chronicle.Proofs.Json.RoundTrip
import Chronicle.Proofs.Text.Line

/-!
# Records that their text holds

A printed number may be read as another number, or as none where it is rounded out of range. The
text of a record therefore need not give the record back, but it gives the same names and the same
texts under them.

* `Readable`: values of which each number is read as some number.
* `isSome_parse_iff`: the text of a value is read exactly if the value is readable and is nested no
  deeper than the limit.
* `Spaced.exists_core`: what is left of the text of a record without the space around it.
* `exists_parse_eq_record`: the record that is read has the same texts under the same names.
-/

namespace Chronicle.Json

open Text (isBlank trim)

/-! ## Values that can be read -/

mutual

/-- Values of which each number is read as some number from its text. -/
def Readable : Json → Prop
  | .number n => (readBack n).isSome
  | .list vs => ItemsReadable vs
  | .record ms => MembersReadable ms
  | _ => True

def ItemsReadable : List Json → Prop
  | [] => True
  | v :: vs => Readable v ∧ ItemsReadable vs

def MembersReadable : List (String × Json) → Prop
  | [] => True
  | (_, v) :: ms => Readable v ∧ MembersReadable ms

end

theorem isSome_toOption_map (x : Except ε α) (f : α → β) :
    (x.map f).toOption.isSome = x.toOption.isSome := by
  cases x <;> rfl

theorem isSome_toOption_cons (x : Except ε α) (y : Except ε (List β)) (f : α → β) :
    (x >>= fun a => y >>= fun as => pure (f a :: as)).toOption.isSome = true ↔
      x.toOption.isSome = true ∧ y.toOption.isSome = true := by
  cases x <;> cases y <;> simp [Except.toOption, bind, Except.bind, pure, Except.pure]

theorem add_max_le_iff {depth a b : Nat} {P Q : Prop} :
    (P ∧ Q) ∧ depth + max a b ≤ depthLimit ↔
      (P ∧ depth + a ≤ depthLimit) ∧ Q ∧ depth + b ≤ depthLimit := by
  have hmax : depth + max a b ≤ depthLimit ↔ depth + a ≤ depthLimit ∧ depth + b ≤ depthLimit := by
    omega
  rw [hmax, and_and_and_comm]

mutual

theorem Node.Spells.isSome_value_iff {depth : Nat} {node : Node} {v : Json}
    (h : node.Spells depth v) (hin : depth ≤ depthLimit) :
    node.value.toOption.isSome ↔ Readable v ∧ depth + v.depth ≤ depthLimit := by
  match v, h with
  | .null, .null => exact iff_of_true rfl ⟨trivial, hin⟩
  | .bool b, .bool => exact iff_of_true rfl ⟨trivial, hin⟩
  | .text s, .text => exact iff_of_true rfl ⟨trivial, hin⟩
  | .number n, .number =>
    have hdepth : depth + (Json.number n).depth ≤ depthLimit := hin
    rw [Node.value, isSome_toOption_map, and_iff_left hdepth]
    show (orFault _ (readBack n)).toOption.isSome = true ↔ (readBack n).isSome = true
    cases readBack n <;> rfl
  | .list vs, .list hitems =>
    rw [Node.value, Readable, Json.depth]
    split
    · rename_i hle
      rw [isSome_toOption_map, hitems.isSome_values_iff hle]
      simp only [Nat.add_assoc, Nat.add_comm 1]
    · refine iff_of_false Bool.false_ne_true fun hdeep => ?_
      omega
  | .record ms, .record hmembers =>
    rw [Node.value, Readable, Json.depth]
    split
    · rename_i hle
      rw [isSome_toOption_map, hmembers.isSome_values_iff hle]
      simp only [Nat.add_assoc, Nat.add_comm 1]
    · refine iff_of_false Bool.false_ne_true fun hdeep => ?_
      omega

theorem Items.Spells.isSome_values_iff {depth : Nat} {items : Items} {vs : List Json}
    (h : items.Spells depth vs) (hin : depth ≤ depthLimit) :
    items.values.toOption.isSome ↔ ItemsReadable vs ∧ depth + itemsDepth vs ≤ depthLimit := by
  match vs, h with
  | [], .closed => exact iff_of_true rfl ⟨trivial, hin⟩
  | v :: vs, .item hnode hrest =>
    rw [ItemsReadable, itemsDepth, add_max_le_iff, ← hnode.isSome_value_iff hin,
      ← hrest.isSome_values_iff hin]
    exact isSome_toOption_cons _ _ id

theorem Members.Spells.isSome_values_iff {depth : Nat} {members : Members}
    {ms : List (String × Json)} (h : members.Spells depth ms) (hin : depth ≤ depthLimit) :
    members.values.toOption.isSome ↔ MembersReadable ms ∧ depth + membersDepth ms ≤ depthLimit := by
  match ms, h with
  | [], .closed => exact iff_of_true rfl ⟨trivial, hin⟩
  | (k, v) :: ms, .member hnode hrest =>
    rw [MembersReadable, membersDepth, add_max_le_iff, ← hnode.isSome_value_iff hin,
      ← hrest.isSome_values_iff hin]
    exact isSome_toOption_cons _ _ (k, ·)

end

/-- **The text of a value is read exactly if the value is readable and not nested too deep.** -/
theorem isSome_parse_iff {v : Json} {cs : List Char} (h : Spaced (printed v) cs) :
    (parse cs).isSome ↔ Readable v ∧ v.depth ≤ depthLimit := by
  obtain ⟨node, hdocument, hspells⟩ := exists_ofText_of_spaced h
  have hiff := hspells.isSome_value_iff (Nat.zero_le _)
  rw [Nat.zero_add] at hiff
  rw [← hiff, parse, hdocument, Document.read]
  cases node.value <;> rfl

/-! ## Names and texts -/

theorem Node.Spells.text?_value {depth : Nat} {node : Node} {v w : Json} (h : node.Spells depth v)
    (hw : node.value = .ok w) : w.text? = v.text? := by
  cases h with
  | null | bool | text =>
    cases hw
    rfl
  | number =>
    obtain ⟨m, -, rfl⟩ := exists_of_map_eq_ok hw
    rfl
  | list =>
    rw [Node.value] at hw
    split at hw
    · obtain ⟨ws, -, rfl⟩ := exists_of_map_eq_ok hw
      rfl
    · cases hw
  | record =>
    rw [Node.value] at hw
    split at hw
    · obtain ⟨given, -, rfl⟩ := exists_of_map_eq_ok hw
      rfl
    · cases hw

theorem Members.Spells.text?_lookup_values {depth : Nat} {members : Members}
    {ms given : List (String × Json)} (h : members.Spells depth ms)
    (hvalues : members.values = .ok given) (name : String) :
    (given.lookup name).bind text? = (ms.lookup name).bind text? := by
  induction ms generalizing members given with
  | nil =>
    cases h
    cases hvalues
    rfl
  | cons m ms ih =>
    cases h with
    | @member _ _ _ _ k _ _ _ _ hnode hrest =>
      rw [Members.values] at hvalues
      obtain ⟨k', hk, hvalues⟩ := exists_of_bind_eq_ok hvalues
      obtain ⟨w, hw, hvalues⟩ := exists_of_bind_eq_ok hvalues
      obtain ⟨more, hmore, hvalues⟩ := exists_of_bind_eq_ok hvalues
      cases hk
      cases hvalues
      rw [List.lookup_cons, List.lookup_cons]
      cases name == k with
      | true => exact hnode.text?_value hw
      | false => exact ih hrest hmore

/-- **The text of a record is a record with the same texts under the same names.** -/
theorem exists_parse_eq_record {ms : List (String × Json)} {cs : List Char}
    (h : Spaced (printed (.record ms)) cs) (hms : Ascending ms) (hreadable : Readable (.record ms))
    (hdepth : (record ms).depth ≤ depthLimit) :
    ∃ given, parse cs = some (.record given) ∧ given.map Prod.fst = ms.map Prod.fst ∧
      ∀ name, (given.lookup name).bind text? = (ms.lookup name).bind text? := by
  have hsome := (isSome_parse_iff h).mpr ⟨hreadable, hdepth⟩
  obtain ⟨node, hdocument, hspells⟩ := exists_ofText_of_spaced h
  rw [parse, hdocument, Document.read] at hsome ⊢
  cases hspells with
  | record hmembers =>
    rw [Json.depth] at hdepth
    have hle : 0 + 1 ≤ depthLimit := by omega
    rw [Node.value, if_pos hle] at hsome ⊢
    cases hvalues : Members.values _ with
    | error line =>
      rw [hvalues] at hsome
      cases hsome
    | ok given =>
      have hnames := hmembers.names_values hvalues
      have hgiven : Ascending given := by rwa [Ascending, hnames]
      refine ⟨given, ?_, hnames, hmembers.text?_lookup_values hvalues⟩
      exact congrArg some (ofMembers_eq_record_iff.mpr hgiven)

/-! ## Without the space around it -/

theorem Spaced.exists_append_gap {ps : List Printed} {c : Char} {t : Token} {cs : List Char}
    (h : Spaced (ps ++ [⟨[c], t⟩]) cs) :
    ∃ body gap, cs = body ++ c :: gap ∧ (∀ d ∈ gap, isSpace d = true) ∧
      Spaced (ps ++ [⟨[c], t⟩]) (body ++ [c]) := by
  induction ps generalizing cs with
  | nil =>
    cases h with
    | @cons before _ _ gap hbefore hrest =>
      cases hrest with
      | nil hgap =>
        refine ⟨before, gap, by simp, hgap, ?_⟩
        have hbare := Spaced.cons (p := ⟨[c], t⟩) hbefore (.nil isSpace_of_mem_nil)
        rwa [List.append_nil] at hbare
  | cons p ps ih =>
    cases h with
    | @cons before _ _ rest hbefore hrest =>
      obtain ⟨body, gap, rfl, hgap, hbody⟩ := ih hrest
      refine ⟨before ++ p.chars ++ body, gap, by simp, hgap, ?_⟩
      rw [List.append_assoc]
      exact .cons hbefore hbody

/-- The text of a record is between braces, but for the space around it. -/
theorem Spaced.exists_core {ms : List (String × Json)} {cs : List Char}
    (h : Spaced (printed (.record ms)) cs) :
    ∃ lead inner trail, cs = lead ++ '\x7b' :: (inner ++ '\x7d' :: trail) ∧
      (∀ c ∈ lead, isSpace c = true) ∧ (∀ c ∈ trail, isSpace c = true) ∧
        Spaced (printed (.record ms)) ('\x7b' :: (inner ++ ['\x7d'])) := by
  cases h with
  | @cons lead _ _ rest hlead hrest =>
    obtain ⟨inner, trail, rfl, htrail, hinner⟩ := hrest.exists_append_gap
    exact ⟨lead, inner, trail, by simp, hlead, htrail, .cons isSpace_of_mem_nil hinner⟩

theorem Spaced.exists_trim_eq {ms : List (String × Json)} {cs : List Char}
    (h : Spaced (printed (.record ms)) cs) {lead trail : List Char}
    (hlead : ∀ c ∈ lead, isBlank c = true) (htrail : ∀ c ∈ trail, isBlank c = true) :
    ∃ inner, trim (lead ++ cs ++ trail) = '\x7b' :: (inner ++ ['\x7d']) ∧
      Spaced (printed (.record ms)) ('\x7b' :: (inner ++ ['\x7d'])) := by
  obtain ⟨before, inner, after, rfl, hbefore, hafter, hcore⟩ := h.exists_core
  refine ⟨inner, ?_, hcore⟩
  have hopen : isBlank '\x7b' = false := rfl
  have hclose : isBlank '\x7d' = false := rfl
  have hstart : Text.trimStart before = [] :=
    List.dropWhile_eq_nil_iff.mpr fun c hc => isBlank_of_isSpace (hbefore c hc)
  have hend : Text.trimEnd after = [] :=
    Text.trimEnd_append_of_isBlank (fun c hc => isBlank_of_isSpace (hafter c hc)) []
  rw [Text.trim_append_of_isBlank htrail, trim, Text.trimStart_append_of_isBlank hlead, ← trim,
    Text.trim_append_cons hopen, Text.trimEnd_append_cons hclose, hstart, hend]
  rfl

end Chronicle.Json
