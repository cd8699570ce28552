import Chronicle.Proofs.Timeline.Sources
import Chronicle.Timeline.Selection
import Mathlib.Algebra.BigOperators.Group.List.Basic
import Mathlib.Algebra.GroupWithZero.Nat

/-!
# Choosing and counting agree

* `IsChosen`: what a choice of categories shows. `select` keeps just that, in order.
* `CountedAsShown`: the counts of what is shown are those of the whole, of the chosen categories
  only, and one choice after another is the choice of what both have.
* `Kind.isActed`: the events that become actions. Their number is the sum of the counts, since every
  action has one category (`sum_countOf_all`).
-/

namespace Chronicle

open TimelineItem (action?)

variable {chosen others both : List Category} {items : List TimelineItem} {item : TimelineItem}

/-! ## What is shown -/

/-- A turn, or an action of a chosen category. Where none is chosen, every action is shown. -/
inductive IsChosen (chosen : List Category) : TimelineItem → Prop where
  | turn (t : Turn) : IsChosen chosen (.turn t)
  | action (a : Action) (one : a.category ∈ chosen) : IsChosen chosen (.action a)
  | unchosen (a : Action) (none : chosen = []) : IsChosen chosen (.action a)

theorem isShown_iff_isChosen : isShown chosen item = true ↔ IsChosen chosen item := by
  constructor
  · intro h
    cases item with
    | turn t => exact .turn t
    | action a =>
      rw [isShown, Bool.or_eq_true] at h
      rcases h with h | h
      · exact .unchosen a (List.isEmpty_iff.mp h)
      · exact .action a (List.contains_iff_mem.mp h)
  · rintro (t | ⟨a, hone⟩ | ⟨a, hnone⟩)
    · rfl
    · simp [isShown, hone]
    · simp [isShown, hnone]

theorem select_nil (items : List TimelineItem) : select [] items = items := by
  refine List.filter_eq_self.mpr fun item _ => ?_
  cases item <;> rfl

theorem isShown_of_ne_nil (h : chosen ≠ []) (item : TimelineItem) :
    isShown chosen item = (action? item).all fun a => chosen.contains a.category := by
  cases item with
  | turn t => rfl
  | action a => simp [isShown, action?, h]

theorem select_select (hboth : both ≠ [])
    (hmem : ∀ category, category ∈ both ↔ category ∈ chosen ∧ category ∈ others) :
    select others (select chosen items) = select both items := by
  -- a category of both is one of either, so neither choice is the choice of nothing
  obtain ⟨category, hcategory⟩ := List.exists_mem_of_ne_nil both hboth
  obtain ⟨hleft, hright⟩ := (hmem category).mp hcategory
  have hchosen : chosen ≠ [] := List.ne_nil_of_mem hleft
  have hothers : others ≠ [] := List.ne_nil_of_mem hright
  rw [select, select, select, List.filter_filter]
  refine List.filter_congr fun item _ => ?_
  rw [isShown_of_ne_nil hchosen, isShown_of_ne_nil hothers, isShown_of_ne_nil hboth]
  cases action? item with
  | none => rfl
  | some a =>
    simp only [Option.all_some, List.contains_eq_mem]
    rw [Bool.eq_iff_iff, Bool.and_eq_true, decide_eq_true_iff, decide_eq_true_iff,
      decide_eq_true_iff, hmem a.category, and_comm]

/-! ## What is counted -/

theorem isOf_action (a : Action) (category : Category) :
    isOf category (.action a) = decide (a.category = category) :=
  rfl

theorem isOf_and_isShown (h : chosen ≠ []) (item : TimelineItem) (category : Category) :
    (isOf category item && isShown chosen item) =
      (decide (category ∈ chosen) && isOf category item) := by
  cases item with
  | turn t => simp [isOf, action?]
  | action a =>
    rw [isShown_of_ne_nil h, isOf_action]
    by_cases hof : a.category = category
    · subst hof
      simp [action?]
    · simp [hof]

theorem countOf_select (h : chosen ≠ []) (items : List TimelineItem) (category : Category) :
    countOf (select chosen items) category =
      if category ∈ chosen then countOf items category else 0 := by
  rw [countOf, select, List.countP_filter, List.countP_congr (p := fun item =>
    isOf category item && isShown chosen item) fun item _ => by rw [isOf_and_isShown h]]
  split
  · rename_i hmem
    simp [hmem, countOf]
  · rename_i hmem
    simp [hmem]

theorem countOf_eq_length_filter (items : List TimelineItem) (category : Category) :
    countOf items category =
      ((items.filterMap action?).filter fun a => a.category = category).length := by
  induction items with
  | nil => rfl
  | cons item items ih =>
    rw [countOf, List.countP_cons, ← countOf, ih]
    cases item with
    | turn t => rfl
    | action a =>
      have hactions : (TimelineItem.action a :: items).filterMap action? =
          a :: items.filterMap action? := List.filterMap_cons_some rfl
      rw [isOf_action, hactions, List.filter_cons]
      by_cases hof : a.category = category <;> simp [hof]

theorem tally_concat_turn (items : List TimelineItem) (t : Turn) :
    tally (items ++ [.turn t]) = tally items := by
  refine List.map_congr_left fun category _ => ?_
  rw [countOf, List.countP_append, ← countOf]
  rfl

theorem tally_concat_action (items : List TimelineItem) (a : Action) :
    tally (items ++ [.action a]) = (tally items).map fun (category, n) =>
      (category, if a.category = category then n + 1 else n) := by
  rw [tally, tally, List.map_map]
  refine List.map_congr_left fun category _ => ?_
  rw [countOf, List.countP_append, List.countP_singleton, isOf_action, ← countOf]
  by_cases hof : a.category = category <;> simp [hof]

theorem map_fst_tally (items : List TimelineItem) : (tally items).map Prod.fst = Category.all := by
  simp [tally, Function.comp_def]

theorem map_snd_tally (items : List TimelineItem) :
    (tally items).map Prod.snd = Category.all.map (countOf items) := by
  simp [tally, Function.comp_def]

theorem Category.count_all (category : Category) : all.count category = 1 := by
  cases category <;> rfl

theorem sum_isOf_all (item : TimelineItem) :
    (Category.all.map fun category => if isOf category item then 1 else 0).sum =
      if item.isAction then 1 else 0 := by
  cases item with
  | turn t => rfl
  | action a =>
    have hone (own : Category) :
        (Category.all.map fun category => if own = category then 1 else 0).sum = 1 := by
      cases own <;> rfl
    rw [TimelineItem.isAction_action, if_pos rfl]
    simpa only [isOf_action, decide_eq_true_eq] using hone a.category

theorem sum_countOf_all (items : List TimelineItem) :
    (Category.all.map (countOf items)).sum = actionCount items := by
  induction items with
  | nil => rfl
  | cons item items ih =>
    have hcount : countOf (item :: items) = fun category =>
        countOf items category + if isOf category item then 1 else 0 :=
      funext fun category => List.countP_cons ..
    rw [hcount, List.sum_map_add, ih, sum_isOf_all, actionCount, actionCount, List.countP_cons]

/-! ## What becomes an action -/

/-- Whether events of this kind become actions. Who speaks takes a turn, and an outcome joins the
action that it is of. -/
def Kind.isActed (kind : Kind) : Bool :=
  kind ∉ [.user, .assistant, .toolOutcome]

theorem Event.isActed_kind (e : Event) :
    e.kind.isActed = (e.leavesItem && e.speaker?.isNone) := by
  unfold leavesItem speaker?
  cases e.kind <;> simp [Kind.isActed]

theorem IsItemOf.isAction_eq {e : Event} (h : IsItemOf e item) :
    item.isAction = e.speaker?.isNone := by
  cases h with
  | turn t speaker time =>
    rw [speaker]
    rfl
  | action a speaker time =>
    rw [speaker]
    rfl

theorem countP_eq_of_forall₂ {R : α → β → Prop} {p : α → Bool} {q : β → Bool} {as : List α}
    {bs : List β} (h : List.Forall₂ R as bs) (hR : ∀ a b, R a b → q b = p a) :
    bs.countP q = as.countP p := by
  induction h with
  | nil => rfl
  | @cons a b as bs hab hrest ih => rw [List.countP_cons, List.countP_cons, ih, hR a b hab]

/-- **The counts of a timeline add up to the events that become actions.** -/
theorem sum_tally_timelineOf (limits : Limits) (events : List Event) :
    ((tally (timelineOf limits events)).map Prod.snd).sum =
      events.countP fun e => e.kind.isActed := by
  have hitems : List.Forall₂ IsItemOf (sources events) (timelineOf limits events) :=
    (forall₂_stemsFrom limits events).imp fun _ _ h => h.isItemOf
  rw [map_snd_tally, sum_countOf_all, actionCount,
    countP_eq_of_forall₂ hitems fun e item h => h.isAction_eq, sources, List.countP_filter]
  simp only [Event.isActed_kind, Bool.and_comm]

/-! ## Both together -/

/-- What is shown of these items, when these categories are chosen, is what the tally counts of
them. -/
structure CountedAsShown (chosen : List Category) (items : List TimelineItem) : Prop where
  /-- What is chosen stands in order and as often as it did, and nothing else does. -/
  order : (select chosen items).Sublist items
  kept (item : TimelineItem) : IsChosen chosen item →
    (select chosen items).count item = items.count item
  only (item : TimelineItem) : item ∈ select chosen items → IsChosen chosen item
  unchosen : chosen = [] → select chosen items = items
  /-- The chosen categories keep their counts, and the others have none. -/
  counts : chosen ≠ [] → tally (select chosen items) =
    (tally items).map fun (category, n) => (category, if category ∈ chosen then n else 0)
  /-- Two choices with a category of both are the choice of what is in both. -/
  again (others both : List Category) : both ≠ [] →
    (∀ category, category ∈ both ↔ category ∈ chosen ∧ category ∈ others) →
    select others (select chosen items) = select both items
  /-- Every category is counted once, and its count is how many actions it has. -/
  size : (tally items).length = 13
  keys (category : Category) : ((tally items).map Prod.fst).count category = 1
  actions (category : Category) (n : Nat) : (category, n) ∈ tally items →
    n = ((items.filterMap action?).filter fun a => a.category = category).length
  /-- Turns count for nothing, and an action for one of its own category. -/
  nextTurn (t : Turn) : tally (items ++ [.turn t]) = tally items
  nextAction (a : Action) : tally (items ++ [.action a]) = (tally items).map fun (category, n) =>
    (category, if a.category = category then n + 1 else n)

/-- **The tally counts what a choice shows, and in a timeline it counts the events that become
actions.** -/
theorem countedAsShown (chosen : List Category) (items : List TimelineItem) (limits : Limits)
    (events : List Event) :
    CountedAsShown chosen items ∧
      ((tally (timelineOf limits events)).map Prod.snd).sum =
        (events.filter fun e => e.kind ∉ [.user, .assistant, .toolOutcome]).length := by
  refine ⟨⟨List.filter_sublist, ?_, ?_, ?_, ?_, ?_, rfl, ?_, ?_, ?_, ?_⟩, ?_⟩
  · intro item h
    exact List.count_filter (isShown_iff_isChosen.mpr h)
  · intro item h
    exact isShown_iff_isChosen.mp (List.mem_filter.mp h).2
  · rintro rfl
    exact select_nil items
  · intro h
    rw [tally, tally, List.map_map]
    refine List.map_congr_left fun category _ => ?_
    rw [Function.comp_apply, countOf_select h]
  · intro others both hboth hmem
    exact select_select hboth hmem
  · intro category
    rw [map_fst_tally, Category.count_all]
  · intro category n h
    obtain ⟨category', -, hpair⟩ := List.mem_map.mp h
    cases hpair
    exact countOf_eq_length_filter items category
  · intro t
    exact tally_concat_turn items t
  · intro a
    exact tally_concat_action items a
  · rw [sum_tally_timelineOf, List.countP_eq_length_filter]
    rfl

end Chronicle
