import Chronicle.Event.Basic

/-!
# Invocations and outcomes as brackets

An invocation opens a bracket and an outcome closes one; events of other kinds are no brackets.

* `Balanced`: a stretch of events in which every bracket has its partner.
* `Matches`: an invocation and an outcome with a balanced stretch between them.
* `openAfter`: the invocations without a partner so far, the latest first, kept on a stack.
* `matches_iff_head?`: an outcome matches the invocation on top of that stack.
-/

namespace Chronicle

/-- No prefix of a stretch holds more outcomes than invocations. -/
def NeverShort (kinds : List Kind) : Prop :=
  ∀ front, front <+: kinds → front.count .toolOutcome ≤ front.count .toolInvocation

/-- A stretch that holds as many outcomes as invocations, and in no prefix more. -/
structure Balanced (kinds : List Kind) : Prop where
  count_eq : kinds.count .toolInvocation = kinds.count .toolOutcome
  neverShort : NeverShort kinds

def between (kinds : List Kind) (i j : Nat) : List Kind := (kinds.take j).drop (i + 1)

/-- The invocation at position `i` and the outcome at position `j` are partners. -/
structure Matches (kinds : List Kind) (i j : Nat) : Prop where
  lt : i < j
  opening : kinds[i]? = some .toolInvocation
  closing : kinds[j]? = some .toolOutcome
  balanced : Balanced (between kinds i j)

/-- The positions of the invocations that have no partner among the first `n` events, the latest
first. -/
def openAfter (kinds : List Kind) : Nat → List Nat
  | 0 => []
  | n + 1 =>
    match kinds[n]? with
    | some .toolInvocation => n :: openAfter kinds n
    | some .toolOutcome => (openAfter kinds n).tail
    | _ => openAfter kinds n

/-! ## Stretches -/

theorem counts_invocation : [Kind.toolInvocation].count .toolInvocation = 1 ∧
    [Kind.toolInvocation].count .toolOutcome = 0 := by
  decide

theorem counts_outcome : [Kind.toolOutcome].count .toolInvocation = 0 ∧
    [Kind.toolOutcome].count .toolOutcome = 1 := by
  decide

theorem neverShort_nil : NeverShort [] := by
  intro front h
  rw [List.prefix_nil.mp h]
  simp

theorem NeverShort.count_le {kinds : List Kind} (h : NeverShort kinds) :
    kinds.count .toolOutcome ≤ kinds.count .toolInvocation :=
  h kinds List.prefix_rfl

theorem neverShort_concat {kinds : List Kind} {k : Kind} :
    NeverShort (kinds ++ [k]) ↔ NeverShort kinds ∧
      (kinds ++ [k]).count .toolOutcome ≤ (kinds ++ [k]).count .toolInvocation := by
  constructor
  · intro h
    exact ⟨fun front hfront => h front (List.prefix_concat_iff.mpr (.inr hfront)), h.count_le⟩
  · rintro ⟨h, hall⟩ front hfront
    rcases List.prefix_concat_iff.mp hfront with rfl | hfront
    · exact hall
    · exact h front hfront

theorem between_self (kinds : List Kind) (i : Nat) : between kinds i (i + 1) = [] := by
  rw [between, List.drop_eq_nil_iff, List.length_take]
  omega

theorem between_succ {kinds : List Kind} {i n : Nat} {k : Kind} (hi : i < n)
    (hk : kinds[n]? = some k) : between kinds i (n + 1) = between kinds i n ++ [k] := by
  have hn := (List.getElem?_eq_some_iff.mp hk).1
  rw [between, between, List.take_add_one, hk, Option.toList_some, List.drop_append_of_le_length]
  rw [List.length_take]
  omega

theorem between_prefix (kinds : List Kind) (i : Nat) {m n : Nat} (hmn : m ≤ n) :
    between kinds i m <+: between kinds i n := by
  obtain ⟨rest, hrest⟩ := List.take_prefix_take_left (l := kinds) hmn
  rw [between, between, ← hrest, List.drop_append]
  exact List.prefix_append _ _

/-! ## The stack -/

/-- The invocation at position `i` has no partner before position `n`, and `depth` invocations after
it still want one. -/
structure OpenAt (kinds : List Kind) (n depth i : Nat) : Prop where
  lt : i < n
  opening : kinds[i]? = some .toolInvocation
  neverShort : NeverShort (between kinds i n)
  count_eq : (between kinds i n).count .toolInvocation =
    (between kinds i n).count .toolOutcome + depth

section step
variable {kinds : List Kind} {n depth i : Nat}

theorem openAt_succ_iff {k : Kind} (hin : i < n) (hk : kinds[n]? = some k) :
    OpenAt kinds (n + 1) depth i ↔ kinds[i]? = some .toolInvocation ∧
      NeverShort (between kinds i n) ∧
      (between kinds i n).count .toolInvocation + [k].count .toolInvocation =
        (between kinds i n).count .toolOutcome + [k].count .toolOutcome + depth := by
  constructor
  · rintro ⟨-, hi, hshort, hcount⟩
    rw [between_succ hin hk] at hshort hcount
    rw [List.count_append, List.count_append] at hcount
    exact ⟨hi, (neverShort_concat.mp hshort).1, hcount⟩
  · rintro ⟨hi, hshort, hcount⟩
    rw [← List.count_append, ← List.count_append] at hcount
    refine ⟨by omega, hi, ?_, ?_⟩
    -- the counts alone say that the whole stretch is not short
    · rw [between_succ hin hk, neverShort_concat]
      exact ⟨hshort, by omega⟩
    · rw [between_succ hin hk]
      exact hcount

theorem openAt_succ_self (hk : kinds[n]? = some .toolInvocation) :
    OpenAt kinds (n + 1) depth n ↔ depth = 0 := by
  constructor
  · rintro ⟨-, -, -, hcount⟩
    rw [between_self, List.count_nil, List.count_nil] at hcount
    omega
  · rintro rfl
    refine ⟨by omega, hk, ?_, ?_⟩
    · rw [between_self]
      exact neverShort_nil
    · rw [between_self]
      rfl

theorem openAt_succ_of_invocation_zero (hk : kinds[n]? = some .toolInvocation) :
    OpenAt kinds (n + 1) 0 i ↔ i = n := by
  constructor
  · intro h
    rcases Nat.lt_or_ge i n with hin | hge
    · obtain ⟨-, hshort, hcount⟩ := (openAt_succ_iff hin hk).mp h
      have hle := hshort.count_le
      have hcounts := counts_invocation
      omega
    · have hlt := h.lt
      omega
  · rintro rfl
    exact (openAt_succ_self hk).mpr rfl

theorem openAt_succ_of_invocation (hk : kinds[n]? = some .toolInvocation) :
    OpenAt kinds (n + 1) (depth + 1) i ↔ OpenAt kinds n depth i := by
  have hcounts := counts_invocation
  constructor
  · intro h
    have hlt := h.lt
    have hne : i ≠ n := by
      rintro rfl
      exact absurd ((openAt_succ_self hk).mp h) (Nat.succ_ne_zero depth)
    have hin : i < n := by omega
    obtain ⟨hi, hshort, hcount⟩ := (openAt_succ_iff hin hk).mp h
    exact ⟨hin, hi, hshort, by omega⟩
  · rintro ⟨hin, hi, hshort, hcount⟩
    exact (openAt_succ_iff hin hk).mpr ⟨hi, hshort, by omega⟩

theorem OpenAt.lt_of_succ {k : Kind} (h : OpenAt kinds (n + 1) depth i) (hk : kinds[n]? = some k)
    (hne : k ≠ .toolInvocation) : i < n := by
  obtain ⟨hlt, hi, -, -⟩ := h
  have hin : i ≠ n := by
    rintro rfl
    rw [hk] at hi
    exact hne (Option.some.inj hi)
  omega

theorem openAt_succ_of_outcome (hk : kinds[n]? = some .toolOutcome) :
    OpenAt kinds (n + 1) depth i ↔ OpenAt kinds n (depth + 1) i := by
  have hcounts := counts_outcome
  constructor
  · intro h
    have hin := h.lt_of_succ hk nofun
    obtain ⟨hi, hshort, hcount⟩ := (openAt_succ_iff hin hk).mp h
    exact ⟨hin, hi, hshort, by omega⟩
  · rintro ⟨hin, hi, hshort, hcount⟩
    exact (openAt_succ_iff hin hk).mpr ⟨hi, hshort, by omega⟩

theorem openAt_succ_of_other {k : Kind} (hk : kinds[n]? = some k) (hi : k ≠ .toolInvocation)
    (ho : k ≠ .toolOutcome) : OpenAt kinds (n + 1) depth i ↔ OpenAt kinds n depth i := by
  have hinvocation : [k].count .toolInvocation = 0 :=
    List.count_eq_zero.mpr fun h => hi (List.mem_singleton.mp h).symm
  have houtcome : [k].count .toolOutcome = 0 :=
    List.count_eq_zero.mpr fun h => ho (List.mem_singleton.mp h).symm
  constructor
  · intro h
    have hin := h.lt_of_succ hk hi
    obtain ⟨hopening, hshort, hcount⟩ := (openAt_succ_iff hin hk).mp h
    exact ⟨hin, hopening, hshort, by omega⟩
  · rintro ⟨hin, hopening, hshort, hcount⟩
    exact (openAt_succ_iff hin hk).mpr ⟨hopening, hshort, by omega⟩

theorem openAfter_succ_of_invocation (hk : kinds[n]? = some .toolInvocation) :
    openAfter kinds (n + 1) = n :: openAfter kinds n := by
  rw [openAfter, hk]

theorem openAfter_succ_of_outcome (hk : kinds[n]? = some .toolOutcome) :
    openAfter kinds (n + 1) = (openAfter kinds n).tail := by
  rw [openAfter, hk]

theorem openAfter_succ_of_other {k : Kind} (hk : kinds[n]? = some k) (hi : k ≠ .toolInvocation)
    (ho : k ≠ .toolOutcome) : openAfter kinds (n + 1) = openAfter kinds n := by
  rw [openAfter, hk]
  cases k <;> first | rfl | contradiction

/-- The stack lists the invocations without a partner by their depth. -/
theorem getElem?_openAfter (hn : n ≤ kinds.length) :
    (openAfter kinds n)[depth]? = some i ↔ OpenAt kinds n depth i := by
  induction n generalizing depth with
  | zero =>
    constructor
    · intro h
      cases h
    · rintro ⟨hlt, -, -, -⟩
      omega
  | succ n ih =>
    have hk := List.getElem?_eq_getElem (show n < kinds.length by omega)
    by_cases hi : kinds[n] = .toolInvocation
    · rw [hi] at hk
      rw [openAfter_succ_of_invocation hk]
      cases depth with
      | zero =>
        rw [openAt_succ_of_invocation_zero hk, List.getElem?_cons_zero, Option.some.injEq]
        exact eq_comm
      | succ depth =>
        rw [openAt_succ_of_invocation hk, List.getElem?_cons_succ]
        exact ih (by omega)
    · by_cases ho : kinds[n] = .toolOutcome
      · rw [ho] at hk
        rw [openAfter_succ_of_outcome hk, openAt_succ_of_outcome hk, List.getElem?_tail]
        exact ih (by omega)
      · rw [openAfter_succ_of_other hk hi ho, openAt_succ_of_other hk hi ho]
        exact ih (by omega)

end step

/-! ## Partners -/

section partners
variable {kinds : List Kind} {i i' j j' n : Nat}

/-- **An outcome is the partner of the invocation on top of the stack.** -/
theorem matches_iff_head? :
    Matches kinds i j ↔ kinds[j]? = some .toolOutcome ∧ (openAfter kinds j).head? = some i := by
  constructor
  · rintro ⟨hlt, hi, hj, hcount, hshort⟩
    refine ⟨hj, ?_⟩
    rw [List.head?_eq_getElem?,
      getElem?_openAfter (Nat.le_of_lt (List.getElem?_eq_some_iff.mp hj).1)]
    exact ⟨hlt, hi, hshort, hcount⟩
  · rintro ⟨hj, hhead⟩
    rw [List.head?_eq_getElem?,
      getElem?_openAfter (Nat.le_of_lt (List.getElem?_eq_some_iff.mp hj).1)] at hhead
    obtain ⟨hlt, hi, hshort, hcount⟩ := hhead
    exact ⟨hlt, hi, hj, hcount, hshort⟩

example : Matches [.toolInvocation, .toolInvocation, .user, .toolOutcome] 1 3 :=
  matches_iff_head?.mpr (by decide)

theorem Matches.not_mem_openAfter (h : Matches kinds i j) (hjn : j < n) (hn : n ≤ kinds.length) :
    i ∉ openAfter kinds n := by
  intro hmem
  obtain ⟨depth, hdepth⟩ := List.mem_iff_getElem?.mp hmem
  have hshort := ((getElem?_openAfter hn).mp hdepth).neverShort
  -- the stretch up to the partner and with it holds one outcome too many
  have hprefix := between_prefix kinds i (Nat.succ_le_of_lt hjn)
  rw [Nat.succ_eq_add_one, between_succ h.lt h.closing] at hprefix
  have hle := hshort _ hprefix
  have hcount := h.balanced.count_eq
  have hcounts := counts_outcome
  rw [List.count_append, List.count_append] at hle
  omega

theorem Matches.opening_unique (h : Matches kinds i j) (h' : Matches kinds i' j) : i = i' := by
  have hhead := (matches_iff_head?.mp h).2
  rw [(matches_iff_head?.mp h').2] at hhead
  exact (Option.some.inj hhead).symm

theorem Matches.not_lt (h : Matches kinds i j) (h' : Matches kinds i j') : ¬ j < j' := by
  intro hlt
  obtain ⟨hj', hhead⟩ := matches_iff_head?.mp h'
  exact h.not_mem_openAfter hlt (Nat.le_of_lt (List.getElem?_eq_some_iff.mp hj').1)
    (List.mem_of_mem_head? hhead)

theorem Matches.closing_unique (h : Matches kinds i j) (h' : Matches kinds i j') : j = j' :=
  Nat.le_antisymm (Nat.le_of_not_lt (h'.not_lt h)) (Nat.le_of_not_lt (h.not_lt h'))

end partners

end Chronicle
