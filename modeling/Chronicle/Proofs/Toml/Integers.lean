import Chronicle.Toml.Reader

/-!
# The integers of a document

`fit_parse`: every integer that stands in a document fits 64 bits with a sign, however deep in lists
and tables it stands. A number is refused where it is read (`fits_number?`), and what lines do with
the values that were read moves them about but makes none (`fit_descend`).
-/

namespace Chronicle.Toml

/-- All integers in a value fit 64 bits with a sign. -/
inductive Fits : Toml → Prop where
  | text (s : String) : Fits (.text s)
  | int {n : Int} (hlow : -0x8000000000000000 ≤ n) (hhigh : n < 0x8000000000000000) :
      Fits (.int n)
  | float : Fits .float
  | date : Fits .date
  | bool (b : Bool) : Fits (.bool b)
  | list {items : List Toml} (h : ∀ v ∈ items, Fits v) : Fits (.list items)
  | inline {entries : Entries} (h : ∀ e ∈ entries, Fits e.2) : Fits (.inline entries)
  | table {implied dotted : Bool} {entries : Entries} (h : ∀ e ∈ entries, Fits e.2) :
      Fits (.table implied dotted entries)
  | tables {items : List Toml} (h : ∀ v ∈ items, Fits v) : Fits (.tables items)

def Entries.Fit (entries : Entries) : Prop := ∀ e ∈ entries, Fits e.2

/-! ## Tables -/

section tables
variable {entries inner : Entries} {key : String} {value : Toml} {path : List String}
  {dotted isDotted implied made : Bool} {change : Bool → Entries → Option Entries}

theorem Entries.fit_nil : Entries.Fit [] := fun _ h => by cases h

theorem Entries.Fit.concat (h : entries.Fit) (hvalue : Fits value) :
    Entries.Fit (entries ++ [(key, value)]) := by
  intro e he
  rcases List.mem_append.mp he with he | he
  · exact h e he
  · rw [List.mem_singleton.mp he]
    exact hvalue

theorem Entries.Fit.replace (h : entries.Fit) (hvalue : Fits value) :
    (entries.replace key value).Fit := by
  induction entries with
  | nil => exact Entries.fit_nil
  | cons e entries ih =>
    have htail : Entries.Fit entries := fun e' he' => h e' (List.mem_cons_of_mem _ he')
    rw [Entries.replace]
    split
    · exact List.forall_mem_cons.mpr ⟨hvalue, htail⟩
    · exact List.forall_mem_cons.mpr ⟨h _ List.mem_cons_self, ih htail⟩

theorem Entries.Fit.lookup (h : entries.Fit) (hlookup : entries.lookup key = some value) :
    Fits value := by
  obtain ⟨before, after, hsplit, -⟩ := List.lookup_eq_some_iff.mp hlookup
  exact h (key, value) (by rw [hsplit]; exact List.mem_append_right _ List.mem_cons_self)

theorem Fits.fit_inner (h : Fits (.table implied made inner)) : inner.Fit := by
  cases h with
  | table h => exact h

theorem Fits.fits_item {items : List Toml} (h : Fits (.tables items)) : ∀ v ∈ items, Fits v := by
  cases h with
  | tables h => exact h

/-- A change of one table that keeps it fitting keeps the tables around it fitting. -/
theorem fit_descend (hchange : ∀ isDotted entries entries', Entries.Fit entries →
      change isDotted entries = some entries' → Entries.Fit entries') {entries' : Entries}
    (h : entries.Fit) (hdescend : entries.descend dotted change path isDotted = some entries') :
    entries'.Fit := by
  induction path generalizing isDotted entries entries' with
  | nil => exact hchange _ _ _ h hdescend
  | cons key path ih =>
    rw [Entries.descend] at hdescend
    -- at the first key of the path stands nothing, a table or a list of tables
    split at hdescend
    · obtain ⟨inner, hinner, hentries⟩ := Option.bind_eq_some_iff.mp hdescend
      cases hentries
      exact h.concat (.table (ih Entries.fit_nil hinner))
    · rename_i implied made inner hlookup
      split at hdescend
      · cases hdescend
      · obtain ⟨inner', hinner, hentries⟩ := Option.bind_eq_some_iff.mp hdescend
        cases hentries
        exact h.replace (.table (ih (h.lookup hlookup).fit_inner hinner))
    · rename_i items hlookup
      have hitems := (h.lookup hlookup).fits_item
      split at hdescend
      · rename_i implied made inner earlier hreverse
        obtain rfl : items = earlier.reverse ++ [.table implied made inner] := by
          rw [← List.reverse_reverse items, hreverse, List.reverse_cons]
        obtain ⟨inner', hinner, hentries⟩ := Option.bind_eq_some_iff.mp hdescend
        cases hentries
        have hlast := hitems _ (List.mem_append_right _ List.mem_cons_self)
        refine h.replace (.tables fun v hv => ?_)
        rcases List.mem_append.mp hv with hv | hv
        · exact hitems v (List.mem_append_left _ hv)
        · rw [List.mem_singleton.mp hv]
          exact .table (ih hlast.fit_inner hinner)
      · cases hdescend
    · cases hdescend

theorem Entries.Fit.define {entries' : Entries} (h : entries.Fit) (hvalue : Fits value)
    (hdefine : entries.define path key value = some entries') : entries'.Fit := by
  refine fit_descend (fun isDotted inner inner' hinner hchange => ?_) h hdefine
  split at hchange
  · cases hchange
  · cases hchange
    exact hinner.concat hvalue

theorem Entries.Fit.enter {entries' : Entries} (h : entries.Fit)
    (henter : entries.enter path key = some entries') : entries'.Fit := by
  refine fit_descend (fun isDotted inner inner' hinner hchange => ?_) h henter
  split at hchange
  · cases hchange
    exact hinner.concat (.table Entries.fit_nil)
  · rename_i implied hlookup
    cases hchange
    have hkept : Entries.Fit (inner.filter (·.1 != key)) := fun e he =>
      hinner e (List.mem_filter.mp he).1
    exact hkept.concat (.table (hinner.lookup hlookup).fit_inner)
  · cases hchange

theorem Entries.Fit.append {entries' : Entries} (h : entries.Fit)
    (happend : entries.append path key = some entries') : entries'.Fit := by
  have hnew : Fits (.table false false []) := .table Entries.fit_nil
  refine fit_descend (fun isDotted inner inner' hinner hchange => ?_) h happend
  split at hchange
  · cases hchange
    exact hinner.concat (.tables (by simpa using hnew))
  · rename_i items hlookup
    cases hchange
    refine hinner.replace (.tables fun v hv => ?_)
    rcases List.mem_append.mp hv with hv | hv
    · exact (hinner.lookup hlookup).fits_item v hv
    · rw [List.mem_singleton.mp hv]
      exact hnew
  · cases hchange

end tables

/-! ## Numbers -/

section numbers
variable {cs rest : List Char} {v : Toml}

theorem fits_fit? {n : Int} (h : fit? n = some v) : Fits v := by
  rw [fit?] at h
  split at h
  · rename_i hrange
    cases h
    rw [Bool.and_eq_true, decide_eq_true_eq, decide_eq_true_eq] at hrange
    exact .int hrange.1 hrange.2
  · cases h

theorem fits_date? (h : date? cs = some (v, rest)) : Fits v := by
  have hdate : v = .date := by
    unfold date? at h
    split at h
    · split at h
      · split at h
        · split at h <;> (cases h; rfl)
        · cases h
          rfl
      · cases h
        rfl
    · obtain ⟨_, -, heq⟩ := Option.map_eq_some_iff.mp h
      cases heq
      rfl
  exact hdate ▸ .date

theorem fits_float? (h : float? cs = some (v, rest)) : Fits v := by
  have hfloat : v = .float := by
    rw [float?] at h
    dsimp only at h
    split at h
    · cases h
      rfl
    · obtain ⟨⟨whole, after⟩, -, h⟩ := Option.bind_eq_some_iff.mp h
      generalize fraction? after = fraction at h
      rcases fraction with _ | ⟨digits, after⟩
      all_goals
        dsimp only at h
        generalize exponent? after = exponent at h
        rcases exponent with _ | ⟨e, after⟩
        all_goals
          dsimp only at h
          split at h
          · cases h
          · split at h
            · cases h
              rfl
            · cases h
  exact hfloat ▸ .float

theorem fits_of_digitRun? {holds : Char → Bool} {base steps : Nat}
    (h : (digitRun? holds steps cs).bind (fun run =>
      (fit? (valueIn base run.1)).bind fun w => some (w, run.2)) = some (v, rest)) : Fits v := by
  obtain ⟨run, -, h⟩ := Option.bind_eq_some_iff.mp h
  obtain ⟨w, hw, h⟩ := Option.bind_eq_some_iff.mp h
  cases h
  exact fits_fit? hw

theorem fits_basedInt? (h : basedInt? cs = some (v, rest)) : Fits v := by
  unfold basedInt? at h
  split at h
  · dsimp only at h
    split at h
    · exact fits_of_digitRun? h
    · split at h
      · exact fits_of_digitRun? h
      · split at h
        · exact fits_of_digitRun? h
        · cases h
  · cases h

theorem fits_decimalInt? (h : decimalInt? cs = some (v, rest)) : Fits v := by
  obtain ⟨⟨digits, after⟩, -, h⟩ := Option.bind_eq_some_iff.mp h
  obtain ⟨w, hw, h⟩ := Option.bind_eq_some_iff.mp h
  cases h
  exact fits_fit? hw

theorem fits_number? (h : number? cs = some (v, rest)) : Fits v := by
  rw [number?, Option.or_eq_some_iff, Option.or_eq_some_iff, Option.or_eq_some_iff] at h
  rcases h with h | ⟨-, h | ⟨-, h | ⟨-, h⟩⟩⟩
  · exact fits_date? h
  · exact fits_float? h
  · exact fits_basedInt? h
  · exact fits_decimalInt? h

end numbers

/-! ## Values -/

section values
variable {cs rest : List Char} {v : Toml} {vs : List Toml} {done entries : Entries}
  {depth steps : Nat}

theorem fits_word? {word : String} {value : Toml} (hvalue : Fits value)
    (h : word? word value cs = some (v, rest)) : Fits v := by
  rw [word?] at h
  split at h
  · cases h
    exact hvalue
  · cases h

/-- What the readers of values, of items and of pairs give fits, when they are given so many
steps. -/
structure ReadsFit (steps : Nat) : Prop where
  value {depth : Nat} {cs rest : List Char} {v : Toml} :
    value? depth steps cs = some (v, rest) → Fits v
  items {depth : Nat} {cs rest : List Char} {vs : List Toml} :
    items? depth steps cs = some (vs, rest) → ∀ v ∈ vs, Fits v
  pairs {depth : Nat} {cs rest : List Char} {done entries : Entries} : Entries.Fit done →
    pairs? depth steps done cs = some (entries, rest) → Entries.Fit entries

theorem fits_value?_succ (hreads : ReadsFit steps)
    (h : value? depth (steps + 1) cs = some (v, rest)) : Fits v := by
  cases cs with
  | nil => cases h
  | cons c cs =>
    rw [value?] at h
    -- the first character decides
    split at h
    · obtain ⟨⟨s, after⟩, -, heq⟩ := Option.map_eq_some_iff.mp h
      cases heq
      exact .text s
    · split at h
      · split at h
        · cases h
        · obtain ⟨⟨vs, after⟩, hvs, heq⟩ := Option.map_eq_some_iff.mp h
          cases heq
          exact .list (hreads.items hvs)
      · split at h
        · split at h
          · cases h
          · split at h
            · cases h
              exact .inline Entries.fit_nil
            · obtain ⟨⟨entries, after⟩, hentries, heq⟩ := Option.map_eq_some_iff.mp h
              cases heq
              exact .inline (hreads.pairs Entries.fit_nil hentries)
        · split at h
          · exact fits_word? (.bool true) h
          · split at h
            · exact fits_word? (.bool false) h
            · split at h
              · exact fits_word? .float h
              · split at h
                · exact fits_word? .float h
                · split at h
                  · exact fits_number? h
                  · cases h

theorem fits_items?_succ (hreads : ReadsFit steps)
    (h : items? depth (steps + 1) cs = some (vs, rest)) : ∀ v ∈ vs, Fits v := by
  unfold items? at h
  split at h
  · cases h
    simp
  · obtain ⟨⟨v, after⟩, hv, h⟩ := Option.bind_eq_some_iff.mp h
    have hfirst := hreads.value hv
    dsimp only at h
    split at h
    · obtain ⟨⟨vs', after'⟩, hvs, h⟩ := Option.bind_eq_some_iff.mp h
      cases h
      exact List.forall_mem_cons.mpr ⟨hfirst, hreads.items hvs⟩
    · cases h
      exact List.forall_mem_singleton.mpr hfirst
    · cases h

theorem fits_pairs?_succ (hreads : ReadsFit steps) (hdone : done.Fit)
    (h : pairs? depth (steps + 1) done cs = some (entries, rest)) : entries.Fit := by
  rw [pairs?] at h
  obtain ⟨⟨⟨path, last⟩, after⟩, -, h⟩ := Option.bind_eq_some_iff.mp h
  obtain ⟨after', -, h⟩ := Option.bind_eq_some_iff.mp h
  obtain ⟨⟨v, after''⟩, hv, h⟩ := Option.bind_eq_some_iff.mp h
  obtain ⟨done', hdone', h⟩ := Option.bind_eq_some_iff.mp h
  have hfit := hdone.define (hreads.value hv) hdone'
  split at h
  · exact hreads.pairs hfit h
  · cases h
    exact hfit
  · cases h

theorem readsFit (steps : Nat) : ReadsFit steps := by
  induction steps with
  | zero =>
    constructor
    · intro depth cs rest v h
      cases h
    · intro depth cs rest vs h
      cases h
    · intro depth cs rest done entries hdone h
      cases h
  | succ steps ih => exact ⟨fits_value?_succ ih, fits_items?_succ ih, fits_pairs?_succ ih⟩

end values

/-! ## Documents -/

section documents
variable {p p' : Progress} {cs rest : List Char} {path : List String} {key : String} {value : Toml}
  {entries : Entries}

theorem fit_progress_define (h : p.entries.Fit) (hvalue : Fits value)
    (hdefine : p.define path key value = some p') : p'.entries.Fit := by
  rw [Progress.define] at hdefine
  split at hdefine
  · obtain ⟨entries, hentries, heq⟩ := Option.bind_eq_some_iff.mp hdefine
    cases heq
    exact h.define hvalue hentries
  · obtain ⟨entries, hentries, heq⟩ := Option.bind_eq_some_iff.mp hdefine
    cases heq
    refine fit_descend (fun _ inner inner' hinner hchange => ?_) h hentries
    exact hinner.define hvalue hchange

theorem fit_line? (h : p.entries.Fit) (hline : line? p cs = some (p', rest)) : p'.entries.Fit := by
  rw [line?.eq_def] at hline
  -- the header of one of several tables, the header of a table, or a pair
  split at hline
  · obtain ⟨⟨⟨path, last⟩, after⟩, -, hline⟩ := Option.bind_eq_some_iff.mp hline
    obtain ⟨_, -, hline⟩ := Option.bind_eq_some_iff.mp hline
    obtain ⟨_, -, hline⟩ := Option.bind_eq_some_iff.mp hline
    obtain ⟨_, -, hline⟩ := Option.bind_eq_some_iff.mp hline
    obtain ⟨entries, hentries, heq⟩ := Option.bind_eq_some_iff.mp hline
    cases heq
    exact h.append hentries
  · obtain ⟨⟨⟨path, last⟩, after⟩, -, hline⟩ := Option.bind_eq_some_iff.mp hline
    obtain ⟨_, -, hline⟩ := Option.bind_eq_some_iff.mp hline
    obtain ⟨_, -, hline⟩ := Option.bind_eq_some_iff.mp hline
    obtain ⟨entries, hentries, heq⟩ := Option.bind_eq_some_iff.mp hline
    cases heq
    exact h.enter hentries
  · obtain ⟨⟨⟨path, last⟩, after⟩, -, hline⟩ := Option.bind_eq_some_iff.mp hline
    obtain ⟨_, -, hline⟩ := Option.bind_eq_some_iff.mp hline
    obtain ⟨⟨v, after'⟩, hv, hline⟩ := Option.bind_eq_some_iff.mp hline
    obtain ⟨_, -, hline⟩ := Option.bind_eq_some_iff.mp hline
    obtain ⟨p', hp', heq⟩ := Option.bind_eq_some_iff.mp hline
    cases heq
    exact fit_progress_define h ((readsFit _).value hv) hp'

theorem fit_lines? {steps : Nat} (h : p.entries.Fit) (hlines : lines? steps p cs = some entries) :
    entries.Fit := by
  induction steps generalizing p cs with
  | zero => cases hlines
  | succ steps ih =>
    rw [lines?] at hlines
    split at hlines
    · cases hlines
      exact h
    · split at hlines
      · cases hlines
        exact h
      · split at hlines
        · rename_i p' cs' hline
          exact ih (fit_line? h hline) hlines
        · cases hlines

/-- **The integers of a document fit 64 bits.** -/
theorem fit_parse {text : String} (h : parse text = some entries) : entries.Fit :=
  fit_lines? Entries.fit_nil h

end documents

end Chronicle.Toml
