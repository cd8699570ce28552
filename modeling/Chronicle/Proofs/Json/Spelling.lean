import Chronicle.Proofs.Json.Spacing

/-!
# Trees of printed values

The tree of a printed value has the shape of the value, whatever the space between its tokens.

* `Node.Spells`: the trees of this shape, on any lines. A number stands in them as what its text reads
  as, and a container with the number of containers that it is in.
* `takes_node`: reading takes the tokens of a value and leaves what follows them.
* `exists_ofText_of_spaced`: a text of the value's tokens is one such tree with nothing after it.
-/

namespace Chronicle.Json

mutual

/-- The trees of a value that is inside `depth` containers. -/
inductive Node.Spells : Nat → Node → Json → Prop where
  | null {depth line : Nat} : Node.Spells depth (.null line) .null
  | bool {depth line : Nat} {b : Bool} : Node.Spells depth (.bool line b) (.bool b)
  | number {depth line : Nat} {n : Number} :
    Node.Spells depth (.number line (readBack n)) (.number n)
  | text {depth line : Nat} {s : String} : Node.Spells depth (.text line (some s)) (.text s)
  | list {depth line : Nat} {items : Items} {vs : List Json} :
    Items.Spells (depth + 1) items vs →
      Node.Spells depth (.list line (depth + 1) items) (.list vs)
  | record {depth line : Nat} {members : Members} {ms : List (String × Json)} :
    Members.Spells (depth + 1) members ms →
      Node.Spells depth (.record line (depth + 1) members) (.record ms)

inductive Items.Spells : Nat → Items → List Json → Prop where
  | closed {depth line : Nat} : Items.Spells depth (.closed line) []
  | item {depth resume : Nat} {node : Node} {v : Json} {rest : Items} {vs : List Json} :
    Node.Spells depth node v → Items.Spells depth rest vs →
      Items.Spells depth (.item node resume rest) (v :: vs)

inductive Members.Spells : Nat → Members → List (String × Json) → Prop where
  | closed {depth line : Nat} : Members.Spells depth (.closed line) []
  | member {depth line resume after : Nat} {k : String} {node : Node} {v : Json} {rest : Members}
    {ms : List (String × Json)} :
    Node.Spells depth node v → Members.Spells depth rest ms →
      Members.Spells depth (.member (some k) line resume node after rest) ((k, v) :: ms)

end

/-! ## Tokens -/

def itemTokens (vs : List Json) : List Token := (printedItems vs).map Printed.token

def memberTokens (ms : List (String × Json)) : List Token := (printedMembers ms).map Printed.token

theorem tokens_list (vs : List Json) :
    tokens (.list vs) = .openList :: (itemTokens vs ++ [.closeList]) := by
  simp [tokens, itemTokens, printed]

theorem tokens_record (ms : List (String × Json)) :
    tokens (.record ms) = .openRecord :: (memberTokens ms ++ [.closeRecord]) := by
  simp [tokens, memberTokens, printed]

theorem itemTokens_singleton (v : Json) : itemTokens [v] = tokens v := rfl

theorem itemTokens_cons_cons (v w : Json) (vs : List Json) :
    itemTokens (v :: w :: vs) = tokens v ++ .comma :: itemTokens (w :: vs) := by
  simp [tokens, itemTokens, printedItems]

theorem memberTokens_singleton (k : String) (v : Json) :
    memberTokens [(k, v)] = .text (some k) :: .colon :: tokens v := by
  simp [tokens, memberTokens, printedMembers]

theorem memberTokens_cons_cons (k : String) (v : Json) (m : String × Json)
    (ms : List (String × Json)) :
    memberTokens ((k, v) :: m :: ms) =
      .text (some k) :: .colon :: (tokens v ++ .comma :: memberTokens (m :: ms)) := by
  simp [tokens, memberTokens, printedMembers]

theorem exists_tokens_cons (v : Json) : ∃ t ts, tokens v = t :: ts ∧ t ≠ .closeList := by
  cases v with
  | list vs => exact ⟨_, _, tokens_list vs, by simp⟩
  | record ms => exact ⟨_, _, tokens_record ms, by simp⟩
  | _ => exact ⟨_, _, rfl, by simp⟩

theorem exists_itemTokens_cons (v : Json) (vs : List Json) :
    ∃ t ts, itemTokens (v :: vs) = t :: ts ∧ t ≠ .closeList := by
  obtain ⟨t, ts, hts, ht⟩ := exists_tokens_cons v
  cases vs with
  | nil => exact ⟨t, ts, hts, ht⟩
  | cons w vs => exact ⟨t, _, by rw [itemTokens_cons_cons, hts]; rfl, ht⟩

theorem exists_memberTokens_cons (m : String × Json) (ms : List (String × Json)) :
    ∃ k ts, memberTokens (m :: ms) = .text (some k) :: .colon :: ts := by
  cases ms with
  | nil => exact ⟨_, _, memberTokens_singleton m.1 m.2⟩
  | cons m' ms => exact ⟨_, _, memberTokens_cons_cons m.1 m.2 m' ms⟩

theorem exists_token_of_kinds? {ts : Tokens} {t : Token} {us : List Token}
    (h : ts.kinds? = some (t :: us)) :
    ∃ line rest, ts = .token t line rest ∧ rest.kinds? = some us := by
  cases ts with
  | ends line => cases h
  | breaks b => cases h
  | token t' line rest =>
    obtain ⟨us', hus, heq⟩ := Option.map_eq_some_iff.mp h
    obtain ⟨rfl, rfl⟩ := List.cons.inj heq
    exact ⟨line, rest, rfl, hus⟩

/-! ## Reading -/

/-- Reading takes these tokens, leaves those after them, and what it reads is as `good` says. -/
def Takes (read : Tokens → α × Option Tokens) (taken : List Token) (good : α → Prop) : Prop :=
  ∀ ts us, ts.kinds? = some (taken ++ us) →
    ∃ a rest, read ts = (a, some rest) ∧ rest.kinds? = some us ∧ good a

section

variable {depth steps : Nat}

theorem takes_scalar {t : Token} {v : Json} (node : Nat → Node)
    (hread : ∀ line rest, readNode depth (steps + 1) (.token t line rest) = (node line, some rest))
    (hspells : ∀ line, (node line).Spells depth v) :
    Takes (readNode depth (steps + 1)) [t] (Node.Spells depth · v) := by
  intro ts us h
  obtain ⟨line, rest, rfl, hrest⟩ := exists_token_of_kinds? h
  exact ⟨node line, rest, hread line rest, hrest, hspells line⟩

/-! ### Lists -/

theorem takes_list_nil :
    Takes (readNode depth (steps + 1)) (tokens (.list [])) (Node.Spells depth · (.list [])) := by
  intro ts us h
  obtain ⟨line, _, rfl, h₁⟩ := exists_token_of_kinds? h
  obtain ⟨close, rest, rfl, hrest⟩ := exists_token_of_kinds? h₁
  exact ⟨.list line (depth + 1) (.closed close), rest, rfl, hrest, .list .closed⟩

theorem takes_list_cons {v : Json} {vs : List Json}
    (hitems : Takes (readItems (depth + 1) steps) (itemTokens (v :: vs) ++ [.closeList])
      (Items.Spells (depth + 1) · (v :: vs))) :
    Takes (readNode depth (steps + 1)) (tokens (.list (v :: vs)))
      (Node.Spells depth · (.list (v :: vs))) := by
  intro ts us h
  rw [tokens_list] at h
  obtain ⟨line, rest, rfl, h₁⟩ := exists_token_of_kinds? h
  obtain ⟨items, after, hread, hafter, hspells⟩ := hitems rest us h₁
  obtain ⟨t, more, hmore, ht⟩ := exists_itemTokens_cons v vs
  rw [hmore] at h₁
  obtain ⟨_, _, rfl, -⟩ := exists_token_of_kinds? h₁
  refine ⟨.list line (depth + 1) items, after, ?_, hafter, .list hspells⟩
  unfold readNode
  simp only
  split
  · rename_i heq
    cases heq
    exact absurd rfl ht
  · rw [hread]

theorem takes_item_last {v : Json}
    (hnode : Takes (readNode depth steps) (tokens v) (Node.Spells depth · v)) :
    Takes (readItems depth (steps + 1)) (itemTokens [v] ++ [.closeList])
      (Items.Spells depth · [v]) := by
  intro ts us h
  rw [itemTokens_singleton, List.append_assoc] at h
  obtain ⟨node, rest, hread, hrest, hspells⟩ := hnode ts _ h
  obtain ⟨close, after, rfl, hafter⟩ := exists_token_of_kinds? hrest
  refine ⟨.item node close (.closed close), after, ?_, hafter, .item hspells .closed⟩
  unfold readItems
  rw [hread]

theorem takes_item_more {v w : Json} {vs : List Json}
    (hnode : Takes (readNode depth steps) (tokens v) (Node.Spells depth · v))
    (hitems : Takes (readItems depth steps) (itemTokens (w :: vs) ++ [.closeList])
      (Items.Spells depth · (w :: vs))) :
    Takes (readItems depth (steps + 1)) (itemTokens (v :: w :: vs) ++ [.closeList])
      (Items.Spells depth · (v :: w :: vs)) := by
  intro ts us h
  rw [itemTokens_cons_cons, List.append_assoc, List.append_assoc] at h
  obtain ⟨node, rest, hread, hrest, hspells⟩ := hnode ts _ h
  obtain ⟨comma, more, rfl, hmore⟩ := exists_token_of_kinds? hrest
  obtain ⟨items, after, hread', hafter, hspells'⟩ := hitems more us (by simpa using hmore)
  obtain ⟨t, ts', ht', ht⟩ := exists_itemTokens_cons w vs
  rw [ht'] at hmore
  obtain ⟨line', _, rfl, -⟩ := exists_token_of_kinds? hmore
  refine ⟨.item node line' items, after, ?_, hafter, .item hspells hspells'⟩
  unfold readItems
  rw [hread]
  simp only
  split
  · rename_i heq
    cases heq
    exact absurd rfl ht
  · rw [hread']
    rfl

/-! ### Records -/

theorem takes_record_nil :
    Takes (readNode depth (steps + 1)) (tokens (.record [])) (Node.Spells depth · (.record [])) := by
  intro ts us h
  obtain ⟨line, _, rfl, h₁⟩ := exists_token_of_kinds? h
  obtain ⟨close, rest, rfl, hrest⟩ := exists_token_of_kinds? h₁
  exact ⟨.record line (depth + 1) (.closed close), rest, rfl, hrest, .record .closed⟩

theorem takes_record_cons {m : String × Json} {ms : List (String × Json)}
    (hmembers : Takes (readMembers (depth + 1) steps) (memberTokens (m :: ms) ++ [.closeRecord])
      (Members.Spells (depth + 1) · (m :: ms))) :
    Takes (readNode depth (steps + 1)) (tokens (.record (m :: ms)))
      (Node.Spells depth · (.record (m :: ms))) := by
  intro ts us h
  rw [tokens_record] at h
  obtain ⟨line, rest, rfl, h₁⟩ := exists_token_of_kinds? h
  obtain ⟨members, after, hread, hafter, hspells⟩ := hmembers rest us h₁
  obtain ⟨k, more, hmore⟩ := exists_memberTokens_cons m ms
  rw [hmore] at h₁
  obtain ⟨_, _, rfl, -⟩ := exists_token_of_kinds? h₁
  refine ⟨.record line (depth + 1) members, after, ?_, hafter, .record hspells⟩
  unfold readNode
  simp only
  rw [hread]

theorem takes_member_last {k : String} {v : Json}
    (hnode : Takes (readNode depth steps) (tokens v) (Node.Spells depth · v)) :
    Takes (readMembers depth (steps + 1)) (memberTokens [(k, v)] ++ [.closeRecord])
      (Members.Spells depth · [(k, v)]) := by
  intro ts us h
  rw [memberTokens_singleton, List.append_assoc] at h
  obtain ⟨line, _, rfl, h₁⟩ := exists_token_of_kinds? h
  obtain ⟨colon, value, rfl, h₂⟩ := exists_token_of_kinds? h₁
  obtain ⟨node, rest, hread, hrest, hspells⟩ := hnode value _ h₂
  obtain ⟨close, after, rfl, hafter⟩ := exists_token_of_kinds? hrest
  refine ⟨.member (some k) line colon node close (.closed close), after, ?_, hafter,
    .member hspells .closed⟩
  unfold readMembers
  simp only
  rw [hread]

theorem takes_member_more {k : String} {v : Json} {m : String × Json} {ms : List (String × Json)}
    (hnode : Takes (readNode depth steps) (tokens v) (Node.Spells depth · v))
    (hmembers : Takes (readMembers depth steps) (memberTokens (m :: ms) ++ [.closeRecord])
      (Members.Spells depth · (m :: ms))) :
    Takes (readMembers depth (steps + 1)) (memberTokens ((k, v) :: m :: ms) ++ [.closeRecord])
      (Members.Spells depth · ((k, v) :: m :: ms)) := by
  intro ts us h
  simp only [memberTokens_cons_cons, List.cons_append, List.append_assoc] at h
  obtain ⟨line, _, rfl, h₁⟩ := exists_token_of_kinds? h
  obtain ⟨colon, value, rfl, h₂⟩ := exists_token_of_kinds? h₁
  obtain ⟨node, rest, hread, hrest, hspells⟩ := hnode value _ h₂
  obtain ⟨comma, more, rfl, hmore⟩ := exists_token_of_kinds? hrest
  obtain ⟨members, after, hread', hafter, hspells'⟩ := hmembers more us (by simpa using hmore)
  obtain ⟨k', ts', ht'⟩ := exists_memberTokens_cons m ms
  rw [ht'] at hmore
  obtain ⟨_, _, rfl, -⟩ := exists_token_of_kinds? hmore
  refine ⟨.member (some k) line colon node comma members, after, ?_, hafter,
    .member hspells hspells'⟩
  unfold readMembers
  simp only
  rw [hread]
  simp only
  rw [hread']

end

/-! ### Whole values -/

mutual

/-- **Reading takes the tokens of a value.** -/
theorem takes_node (v : Json) (depth : Nat) {steps : Nat} (h : 2 * (tokens v).length ≤ steps) :
    Takes (readNode depth steps) (tokens v) (Node.Spells depth · v) := by
  obtain ⟨t, ts, hts, -⟩ := exists_tokens_cons v
  obtain ⟨steps, rfl⟩ : ∃ k, steps = k + 1 := by
    rw [hts, List.length_cons] at h
    exact ⟨steps - 1, by omega⟩
  match v with
  | .null => exact takes_scalar (.null ·) (fun _ _ => rfl) fun _ => .null
  | .bool b => exact takes_scalar (.bool · b) (fun _ _ => rfl) fun _ => .bool
  | .number n => exact takes_scalar (.number · (readBack n)) (fun _ _ => rfl) fun _ => .number
  | .text s => exact takes_scalar (.text · (some s)) (fun _ _ => rfl) fun _ => .text
  | .list [] => exact takes_list_nil
  | .list (v :: vs) =>
    simp only [tokens_list, List.length_cons, List.length_append] at h
    exact takes_list_cons (takes_items (v :: vs) (List.cons_ne_nil v vs) (depth + 1) (by omega))
  | .record [] => exact takes_record_nil
  | .record (m :: ms) =>
    simp only [tokens_record, List.length_cons, List.length_append] at h
    exact takes_record_cons (takes_members (m :: ms) (List.cons_ne_nil m ms) (depth + 1) (by omega))

theorem takes_items (vs : List Json) (hne : vs ≠ []) (depth : Nat) {steps : Nat}
    (h : 2 * (itemTokens vs).length + 1 ≤ steps) :
    Takes (readItems depth steps) (itemTokens vs ++ [.closeList]) (Items.Spells depth · vs) := by
  obtain ⟨steps, rfl⟩ : ∃ k, steps = k + 1 := ⟨steps - 1, by omega⟩
  match vs with
  | [] => exact absurd rfl hne
  | [v] => exact takes_item_last (takes_node v depth (by rw [itemTokens_singleton] at h; omega))
  | v :: w :: vs =>
    simp only [itemTokens_cons_cons, List.length_cons, List.length_append] at h
    exact takes_item_more (takes_node v depth (by omega))
      (takes_items (w :: vs) (List.cons_ne_nil w vs) depth (by omega))

theorem takes_members (ms : List (String × Json)) (hne : ms ≠ []) (depth : Nat) {steps : Nat}
    (h : 2 * (memberTokens ms).length + 1 ≤ steps) :
    Takes (readMembers depth steps) (memberTokens ms ++ [.closeRecord])
      (Members.Spells depth · ms) := by
  obtain ⟨steps, rfl⟩ : ∃ k, steps = k + 1 := ⟨steps - 1, by omega⟩
  match ms with
  | [] => exact absurd rfl hne
  | [(k, v)] =>
    simp only [memberTokens_singleton, List.length_cons] at h
    exact takes_member_last (takes_node v depth (by omega))
  | (k, v) :: m :: ms =>
    simp only [memberTokens_cons_cons, List.length_cons, List.length_append] at h
    exact takes_member_more (takes_node v depth (by omega))
      (takes_members (m :: ms) (List.cons_ne_nil m ms) depth (by omega))

end

/-- **A text of the tokens of a value is one tree of it, with nothing after it.** -/
theorem exists_ofText_of_spaced {v : Json} {cs : List Char} (h : Spaced (printed v) cs) :
    ∃ node, Document.ofText cs = ⟨node, none⟩ ∧ node.Spells 0 v := by
  have hkinds : (Tokens.ofChars cs).kinds? = some (tokens v ++ []) := by
    rw [kinds?_ofChars, scan_spaced h, List.append_nil]
  have hsize : (Tokens.ofChars cs).size = (tokens v).length := by
    rw [Tokens.size_of_kinds? hkinds, List.append_nil]
  have hsteps : 2 * (tokens v).length ≤ 2 * (Tokens.ofChars cs).size + 2 := by omega
  obtain ⟨node, rest, hread, hrest, hspells⟩ := takes_node v 0 hsteps _ _ hkinds
  refine ⟨node, ?_, hspells⟩
  unfold Document.ofText
  simp only
  rw [hread]
  cases rest with
  | ends line => rfl
  | breaks b => cases hrest
  | token t line rest =>
    obtain ⟨_, -, heq⟩ := Option.map_eq_some_iff.mp hrest
    cases heq

end Chronicle.Json
