import Mathlib.Data.List.Forall2
import Chronicle.Proofs.Json.RoundTrip

/-!
# Reading from trees and from values

What is read from a tree of a value is what is read from the value.

* `Node.Shows`: a tree of a canonical value that is not nested too deep.
* `ViewsAlike`: what a reader sees of such a tree and of the value, level by level.
* `Agrees`: two readings give the same, or fail both; they may report different things.
* `agrees_asText` and the others: each reader agrees with itself on the two sources, and a record of
  any layout does so if its fields do (`agrees_asRecord`).
-/

namespace Chronicle.Json

/-- The same result, or a failure of either kind. -/
inductive Agrees {ε ε' α : Type} : Except ε α → Except ε' α → Prop where
  | ok (a : α) : Agrees (.ok a) (.ok a)
  | error (e : ε) (e' : ε') : Agrees (.error e) (.error e')

namespace Agrees

variable {ε ε' α β : Type} {x : Except ε α} {y : Except ε' α}

theorem bind (h : Agrees x y) {f : α → Except ε β} {g : α → Except ε' β}
    (hfg : ∀ a, Agrees (f a) (g a)) : Agrees (x >>= f) (y >>= g) := by
  cases h with
  | ok a => exact hfg a
  | error e e' => exact .error e e'

theorem map (h : Agrees x y) (f : α → β) : Agrees (x.map f) (y.map f) := by
  cases h with
  | ok a => exact .ok (f a)
  | error e e' => exact .error e e'

theorem bind_pure (h : Agrees x y) (f : α → β) :
    Agrees (x >>= fun a => pure (f a)) (y >>= fun a => pure (f a)) :=
  h.bind fun a => .ok (f a)

theorem ok_left (h : Agrees x y) {a : α} (hy : y = .ok a) : x = .ok a := by
  subst hy
  cases h
  rfl

end Agrees

/-- A tree of a canonical value that is not nested too deep. -/
def Node.Shows (node : Node) (v : Json) : Prop :=
  ∃ depth, node.Spells depth v ∧ Canonical v ∧ depth + v.depth ≤ depthLimit

theorem Node.Shows.value {node : Node} {v : Json} (h : node.Shows v) : node.value = .ok v := by
  obtain ⟨depth, hspells, hcanonical, hdepth⟩ := h
  exact hspells.value hcanonical hdepth

theorem Node.Shows.skip {node : Node} {v : Json} (h : node.Shows v) : node.skip = .ok () := by
  obtain ⟨depth, hspells, -, -⟩ := h
  exact hspells.skip

/-! ## Views -/

/-- The same level of a value. -/
inductive ViewsAlike : View Node Nat → View Json Mismatch → Prop where
  | null : ViewsAlike .null .null
  | bool (b : Bool) : ViewsAlike (.bool b) (.bool b)
  | number (n : Number) : ViewsAlike (.number n) (.number n)
  | text (s : String) : ViewsAlike (.text s) (.text s)
  | list {items : List (Item Node Nat)} {items' : List (Item Json Mismatch)} (line : Nat)
    (e : Mismatch) :
    List.Forall₂ (fun i i' => i.value.Shows i'.value) items items' →
      ViewsAlike (.list items (.closed line)) (.list items' (.closed e))
  | record {members : List (Member Node Nat)} {members' : List (Member Json Mismatch)} (line : Nat)
    (e : Mismatch) :
    List.Forall₂ (fun m m' => m.name = m'.name ∧ m.value.Shows m'.value) members members' →
      ViewsAlike (.record members (.closed line)) (.record members' (.closed e))

theorem Items.Spells.view {depth : Nat} {items : Items} {vs : List Json}
    (h : items.Spells depth vs) (hcanonical : ItemsCanonical vs)
    (hdepth : depth + itemsDepth vs ≤ depthLimit) :
    ∃ line, items.view.2 = .closed line ∧
      List.Forall₂ (fun i v => i.value.Shows v) items.view.1 vs := by
  induction vs generalizing items with
  | nil =>
    cases h
    exact ⟨_, rfl, .nil⟩
  | cons v vs ih =>
    cases h with
    | item hnode hrest =>
      rw [itemsDepth] at hdepth
      obtain ⟨line, hclosed, hitems⟩ := ih hrest hcanonical.2 (by omega)
      exact ⟨line, hclosed, .cons ⟨depth, hnode, hcanonical.1, by omega⟩ hitems⟩

theorem Members.Spells.view {depth : Nat} {members : Members} {ms : List (String × Json)}
    (h : members.Spells depth ms) (hcanonical : MembersCanonical ms)
    (hdepth : depth + membersDepth ms ≤ depthLimit) :
    ∃ line, members.view.2 = .closed line ∧
      List.Forall₂ (fun m m' => m.name = m'.1 ∧ m.value.Shows m'.2) members.view.1 ms := by
  induction ms generalizing members with
  | nil =>
    cases h
    exact ⟨_, rfl, .nil⟩
  | cons m ms ih =>
    obtain ⟨k, v⟩ := m
    cases h with
    | member hnode hrest =>
      rw [membersDepth] at hdepth
      have hv : depth + v.depth ≤ depthLimit := by omega
      obtain ⟨line, hclosed, hmembers⟩ := ih hrest hcanonical.2 (by omega)
      exact ⟨line, hclosed, .cons ⟨rfl, depth, hnode, hcanonical.1, hv⟩ hmembers⟩

theorem Node.Shows.view {node : Node} {v : Json} (h : node.Shows v) :
    ViewsAlike (Source.view node) (Source.view v) := by
  obtain ⟨depth, hspells, hcanonical, hdepth⟩ := h
  show ViewsAlike node.view (Json.view v)
  cases hspells with
  | null => exact .null
  | bool => exact .bool _
  | @number _ _ n =>
    have hback : readBack n = some n := hcanonical
    rw [Node.view.eq_def, hback]
    exact .number n
  | text => exact .text _
  | list hitems =>
    rw [Json.depth] at hdepth
    obtain ⟨line, hclosed, hitems⟩ := hitems.view hcanonical (by omega)
    rw [Node.view, if_pos (by omega), hclosed]
    exact .list line .shape (List.forall₂_map_right_iff.mpr hitems)
  | record hmembers =>
    rw [Json.depth] at hdepth
    obtain ⟨line, hclosed, hmembers⟩ := hmembers.view hcanonical.2 (by omega)
    rw [Node.view, if_pos (by omega), hclosed]
    exact .record line .shape (List.forall₂_map_right_iff.mpr hmembers)

/-! ## Readers -/

variable {node : Node} {v : Json}

theorem agrees_asText (h : node.Shows v) : Agrees (asText node) (asText v) := by
  have hview := h.view
  unfold asText
  generalize Source.view node = a, Source.view v = b at hview ⊢
  cases hview with
  | text s => exact .ok s
  | _ => exact .error _ _

theorem agrees_asValue (h : node.Shows v) : Agrees (asValue node) (asValue v) := by
  have hvalue : asValue node = .ok v := h.value
  rw [hvalue]
  exact .ok v

theorem agrees_asOptional {read : Node → Except Nat α} {read' : Json → Except Mismatch α}
    (h : node.Shows v) (hread : Agrees (read node) (read' v)) :
    Agrees (asOptional read node) (asOptional read' v) := by
  have hview := h.view
  unfold asOptional
  generalize Source.view node = a, Source.view v = b at hview ⊢
  cases hview with
  | null => exact .ok none
  | _ => exact hread.map some

theorem agrees_asVariant {ofName : String → Option α} (h : node.Shows v) :
    Agrees (asVariant ofName node) (asVariant ofName v) := by
  have hview := h.view
  unfold asVariant
  generalize Source.view node = a, Source.view v = b at hview ⊢
  cases hview with
  | text s =>
    simp only
    cases ofName s with
    | none => exact .error _ _
    | some a => exact .ok a
  | record line e hmembers =>
    cases hmembers with
    | nil => exact .error _ _
    | @cons m m' more more' hm hmore =>
      obtain ⟨hname, hvalue⟩ := hm
      simp only [hname]
      cases ofName m'.name with
      | none => exact .error _ _
      | some a =>
        -- the constant stands alone over nothing, or it is refused
        have hview := hvalue.view
        generalize Source.view m.value = b, Source.view m'.value = b' at hview ⊢
        cases hview with
        | null =>
          cases hmore with
          | nil => exact .ok a
          | cons _ _ => exact .error _ _
        | _ => exact .error _ _
  | _ => exact .error _ _

theorem agrees_readEach {read : Node → Nat → Except Nat α} {read' : Json → Mismatch → Except Mismatch α}
    (hread : ∀ node v line e, node.Shows v → Agrees (read node line) (read' v e))
    {items : List (Item Node Nat)} {items' : List (Item Json Mismatch)}
    (h : List.Forall₂ (fun i i' => i.value.Shows i'.value) items items') :
    Agrees (readEach read items) (readEach read' items') := by
  induction h with
  | nil => exact .ok []
  | cons hitem _ ih =>
    exact (hread _ _ _ _ hitem).bind fun a => ih.bind_pure (a :: ·)

theorem agrees_asEach {read : Node → Nat → Except Nat α} {read' : Json → Mismatch → Except Mismatch α}
    (hread : ∀ node v line e, node.Shows v → Agrees (read node line) (read' v e))
    (h : node.Shows v) : Agrees (asEach read node) (asEach read' v) := by
  have hview := h.view
  unfold asEach
  generalize Source.view node = a, Source.view v = b at hview ⊢
  cases hview with
  | list line e hitems => exact (agrees_readEach hread hitems).bind_pure id
  | _ => exact .error _ _

/-! ## Records -/

/-- The same layout for trees and for values. -/
structure LayoutsAlike (layout : Layout φ δ α Node Nat) (layout' : Layout φ δ α Json Mismatch) :
    Prop where
  fieldOf : layout.fieldOf = layout'.fieldOf := by rfl
  fields : layout.fields = layout'.fields := by rfl
  draft : layout.draft = layout'.draft := by rfl
  finish : layout.finish = layout'.finish := by rfl
  finishList : layout.finishList = layout'.finishList := by rfl
  store : ∀ field node v d, node.Shows v → Agrees (layout.store field node d) (layout'.store field v d)

section

variable {layout : Layout φ δ α Node Nat} {layout' : Layout φ δ α Json Mismatch}

theorem agrees_storeMembers [DecidableEq φ] (hlayout : LayoutsAlike layout layout')
    {members : List (Member Node Nat)} {members' : List (Member Json Mismatch)}
    (h : List.Forall₂ (fun m m' => m.name = m'.name ∧ m.value.Shows m'.value) members members')
    (seen : List φ) (d : δ) :
    Agrees (storeMembers layout seen members d) (storeMembers layout' seen members' d) := by
  induction h generalizing seen d with
  | nil => exact .ok d
  | @cons m m' more more' hm _ ih =>
    obtain ⟨hname, hvalue⟩ := hm
    rw [storeMembers, storeMembers, hname, hlayout.fieldOf]
    cases layout'.fieldOf m'.name with
    | none =>
      have hskip : Source.skip m.value = .ok () := hvalue.skip
      simp only [hskip]
      exact ih seen d
    | some field =>
      simp only
      split
      · exact .error _ _
      · exact (hlayout.store field _ _ d hvalue).bind fun d' => ih (field :: seen) d'

theorem agrees_storeItems (hlayout : LayoutsAlike layout layout') {items : List (Item Node Nat)}
    {items' : List (Item Json Mismatch)}
    (h : List.Forall₂ (fun i i' => i.value.Shows i'.value) items items') (fields : List φ) (d : δ) :
    Agrees (storeItems layout fields items d) (storeItems layout' fields items' d) := by
  induction h generalizing fields d with
  | nil =>
    cases fields <;> exact .ok d
  | cons hitem _ ih =>
    cases fields with
    | nil => exact .error _ _
    | cons field fields => exact (hlayout.store field _ _ d hitem).bind fun d' => ih fields d'

theorem agrees_conclude (finished : Option α) (line : Nat) (e : Mismatch) :
    Agrees (conclude finished (.closed line)) (conclude finished (.closed e)) := by
  cases finished with
  | none => exact .error line e
  | some a => exact .ok a

theorem agrees_asRecord [DecidableEq φ] (hlayout : LayoutsAlike layout layout')
    (h : node.Shows v) : Agrees (asRecord layout node) (asRecord layout' v) := by
  unfold asRecord
  rw [hlayout.draft, hlayout.fields, hlayout.finish, hlayout.finishList]
  have hview := h.view
  generalize Source.view node = a, Source.view v = b at hview ⊢
  cases hview with
  | list line e hitems =>
    exact (agrees_storeItems hlayout hitems _ _).bind fun d => agrees_conclude _ line e
  | record line e hmembers =>
    exact (agrees_storeMembers hlayout hmembers _ _).bind fun d => agrees_conclude _ line e
  | _ => exact .error _ _

end

end Chronicle.Json
