import Chronicle.Proofs.Toml.Integers
import Chronicle.Proofs.Toml.Written
import Chronicle.Settings

/-!
# Settings are repaired once

Settings that a file gives are repaired, and then a file of their own gives them again.

* `parse_encode`: settings whose numbers are integers of TOML are read back as they were written.
  They are two tables, of which each is read with all its pairs.
* `isWritable_of_parse`: all settings of a file are such settings, since a greater number is no
  integer of TOML.
* `RepairedOnce`, `repairedOnce`: what a repair changes, and that nothing is left to repair after it.
-/

namespace Chronicle.Settings

open Toml (Pair Table Reads IsKey Fits Entries)

/-! ## Settings as they are written -/

def Timeline.counts (t : Settings.Timeline) : List (String × Nat) :=
  [("turn_clip_chars", t.turnClipChars), ("label_max_chars", t.labelMaxChars),
    ("shell_label_chars", t.shellLabelChars), ("task_label_chars", t.taskLabelChars),
    ("summary_label_max_chars", t.summaryLabelMaxChars), ("thread_max_depth", t.threadMaxDepth)]

/-- Every number is an integer of TOML. -/
def IsWritable (s : Settings) : Prop := ∀ c ∈ s.timeline.counts, c.2 < 0x8000000000000000

def countPair (c : String × Nat) (h : IsKey c.1 ∧ c.2 < 0x8000000000000000) : Pair where
  key := c.1
  text := digitsOf c.2
  value := .int c.2
  isKey := h.1
  reads := Toml.reads_digitsOf h.2

theorem isKey_counts (t : Settings.Timeline) : ∀ c ∈ t.counts, IsKey c.1 := by
  have hkeys : ∀ key ∈ t.counts.map Prod.fst, IsKey key := by
    simp only [Timeline.counts, List.map_cons, List.map_nil]
    decide
  exact fun c hc => hkeys c.1 (List.mem_map_of_mem hc)

section written
variable {s : Settings}

theorem IsWritable.pairs (h : s.IsWritable) :
    ∀ c ∈ s.timeline.counts, IsKey c.1 ∧ c.2 < 0x8000000000000000 :=
  fun c hc => ⟨isKey_counts _ c hc, h c hc⟩

def timelineTable (h : s.IsWritable) : Table where
  name := "timeline"
  pairs := s.timeline.counts.pmap countPair h.pairs
  isKey := by decide
  nodup := by
    rw [List.map_pmap]
    simp only [countPair, List.pmap_eq_map]
    simp only [Timeline.counts, List.map_cons, List.map_nil]
    decide

theorem isLiteral_tag (form : Form) : form.tag.toList.all Toml.isLiteral = true := by
  cases form <;> rfl

theorem reads_flagText (b : Bool) : Reads (flagText b).toList (.bool b) := by
  cases b
  · exact Toml.reads_false
  · exact Toml.reads_true

def outputTable (o : Settings.Output) : Table where
  name := "output"
  pairs := [
    { key := "format", text := '\x22' :: o.format.tag.toList ++ ['\x22'], value := .text o.format.tag
      isKey := by decide, reads := Toml.reads_quoted (isLiteral_tag o.format) },
    { key := "show_timestamps", text := (flagText o.showTimestamps).toList
      value := .bool o.showTimestamps, isKey := by decide
      reads := reads_flagText o.showTimestamps }]
  isKey := by decide
  nodup := by
    simp only [List.map_cons, List.map_nil]
    decide

theorem toList_pairLine (key value : String) :
    (pairLine key value).toList = key.toList ++ (' ' :: '=' :: ' ' :: value.toList ++ ['\n']) := by
  simp only [pairLine, String.toList_append, List.append_assoc]
  rfl

theorem toList_countLine (key : String) (n : Nat) :
    (countLine key n).toList = key.toList ++ (' ' :: '=' :: ' ' :: digitsOf n ++ ['\n']) := by
  rw [countLine, toList_pairLine, String.toList_ofList]

theorem lines_timelineTable (h : s.IsWritable) :
    (timelineTable h).lines = "[timeline]\n".toList ++
      s.timeline.counts.flatMap fun c => (countLine c.1 c.2).toList := by
  have hlines : (timelineTable h).pairs.map Pair.line =
      s.timeline.counts.map fun c => (countLine c.1 c.2).toList := by
    simp only [timelineTable, List.map_pmap, Pair.line, countPair, List.pmap_eq_map,
      toList_countLine]
  have hheader : "[timeline]\n".toList = '[' :: ("timeline".toList ++ [']', '\n']) := by decide
  rw [Table.lines, List.flatMap_def, List.flatMap_def, hlines, hheader, List.cons_append,
    List.append_assoc]
  rfl

theorem lines_outputTable (o : Settings.Output) :
    (outputTable o).lines = "[output]\n".toList ++
      ((pairLine "format" ("\x22" ++ o.format.tag ++ "\x22")).toList ++
        (pairLine "show_timestamps" (flagText o.showTimestamps)).toList) := by
  simp only [toList_pairLine, String.toList_append]
  rw [Table.lines, List.flatMap_def]
  simp only [outputTable, Pair.line, List.map_cons, List.map_nil, List.flatten_cons,
    List.flatten_nil, List.append_nil]
  rfl

theorem toList_encode (h : s.IsWritable) :
    (encode s).toList = (timelineTable h).lines ++ '\n' :: (outputTable s.output).lines := by
  rw [lines_timelineTable, lines_outputTable]
  unfold encode
  simp only [Timeline.counts, List.flatMap_cons, List.flatMap_nil, String.toList_append,
    List.append_assoc, List.append_nil]
  rfl

theorem ofEntries?_written (h : s.IsWritable) :
    ofEntries? [(timelineTable h).entry, (outputTable s.output).entry] = some s := by
  have htimeline : (timelineTable h).pairs.map Pair.entry =
      s.timeline.counts.map fun c => (c.1, .int c.2) := by
    simp only [timelineTable, List.map_pmap, Pair.entry, countPair, List.pmap_eq_map]
  rw [Table.entry, htimeline]
  obtain ⟨⟨turn, label, shell, task, summary, depth⟩, ⟨format, stamps⟩⟩ := s
  cases format
  · rfl
  · rfl

/-- **Settings are read back as they were written.** -/
theorem parse_encode (h : s.IsWritable) : Settings.parse (encode s) = some s := by
  have hlength := congrArg List.length (toList_encode h)
  have htimeline := (timelineTable h).length_pairs_lt
  have houtput := (outputTable s.output).length_pairs_lt
  rw [List.length_append, List.length_cons] at hlength
  -- each line takes one step, and there are as many steps as characters
  obtain ⟨more, hmore⟩ : ∃ more, (encode s).toList.length + 1 =
      more + 1 + ((outputTable s.output).pairs.length + 1) + ((timelineTable h).pairs.length + 1) :=
    ⟨(encode s).toList.length + 1 - (1 + ((outputTable s.output).pairs.length + 1) +
      ((timelineTable h).pairs.length + 1)), by omega⟩
  have hread : Toml.parse (encode s) =
      some [(timelineTable h).entry, (outputTable s.output).entry] := by
    have hmark : Toml.parse (encode s) =
        Toml.lines? ((encode s).toList.length + 1) ⟨[], none⟩ (encode s).toList := by
      rw [Toml.parse, toList_encode h]
      rfl
    have houtput (p : Toml.Progress) (hnew : p.entries.lookup "output" = none) :
        Toml.lines? (more + 1 + ((outputTable s.output).pairs.length + 1)) p
          ('\n' :: (outputTable s.output).lines) =
            some (p.entries ++ [(outputTable s.output).entry]) := by
      rw [← Nat.add_assoc, Toml.lines?_newline, Nat.add_assoc,
        ← List.append_nil (outputTable s.output).lines, Toml.lines?_table _ hnew]
      rfl
    rw [hmark, hmore, toList_encode h, Toml.lines?_table _ rfl, houtput _ rfl]
    rfl
  rw [Settings.parse, hread, Option.bind_some, ofEntries?_written]

end written

/-! ## Settings of a file -/

section files
variable {part v : Toml} {fields entries : Entries} {n fallback : Nat} {name text : String}

theorem eq_or_read_of_fieldOr {fallback a : α} {read : Toml → Option α}
    (h : fieldOr fallback read name fields = some a) :
    a = fallback ∨ ∃ v, fields.lookup name = some v ∧ read v = some a := by
  rw [fieldOr] at h
  cases hlookup : fields.lookup name with
  | none =>
    rw [hlookup] at h
    exact .inl (Option.some.inj h).symm
  | some v =>
    rw [hlookup] at h
    exact .inr ⟨v, rfl, h⟩

theorem lt_of_countOf? (hv : Fits v) (h : countOf? v = some n) : n < 0x8000000000000000 := by
  unfold countOf? at h
  split at h
  · cases h
    cases hv with
    | int hlow hhigh => exact Int.ofNat_lt.mp hhigh
  · cases h

theorem lt_of_fieldOr_countOf? (hfields : fields.Fit)
    (h : fieldOr fallback countOf? name fields = some n)
    (hfallback : fallback < 0x8000000000000000) : n < 0x8000000000000000 := by
  rcases eq_or_read_of_fieldOr h with rfl | ⟨v, hlookup, hread⟩
  · exact hfallback
  · exact lt_of_countOf? (hfields.lookup hlookup) hread

theorem fit_of_fieldsOf? {names : List String} (hpart : Fits part)
    (h : fieldsOf? names part = some fields) : fields.Fit := by
  cases hpart with
  | list hitems =>
    cases h
    exact fun e he => hitems _ (List.of_mem_zip he).2
  | tables hitems =>
    cases h
    exact fun e he => hitems _ (List.of_mem_zip he).2
  | inline hentries =>
    cases h
    exact hentries
  | table hentries =>
    cases h
    exact hentries
  | date =>
    cases h
    exact Entries.fit_nil
  | text s => cases h
  | int hlow hhigh => cases h
  | float => cases h
  | bool b => cases h

theorem counts_lt_of_timelineOf? {t : Settings.Timeline} (hpart : Fits part)
    (h : timelineOf? part = some t) : ∀ c ∈ t.counts, c.2 < 0x8000000000000000 := by
  unfold timelineOf? at h
  obtain ⟨fields, hfields, h⟩ := Option.bind_eq_some_iff.mp h
  obtain ⟨turn, hturn, h⟩ := Option.bind_eq_some_iff.mp h
  obtain ⟨label, hlabel, h⟩ := Option.bind_eq_some_iff.mp h
  obtain ⟨shell, hshell, h⟩ := Option.bind_eq_some_iff.mp h
  obtain ⟨task, htask, h⟩ := Option.bind_eq_some_iff.mp h
  obtain ⟨summary, hsummary, h⟩ := Option.bind_eq_some_iff.mp h
  obtain ⟨depth, hdepth, h⟩ := Option.bind_eq_some_iff.mp h
  cases h
  have hfit := fit_of_fieldsOf? hpart hfields
  simp only [Timeline.counts, List.forall_mem_cons]
  exact ⟨lt_of_fieldOr_countOf? hfit hturn (by decide),
    lt_of_fieldOr_countOf? hfit hlabel (by decide), lt_of_fieldOr_countOf? hfit hshell (by decide),
    lt_of_fieldOr_countOf? hfit htask (by decide), lt_of_fieldOr_countOf? hfit hsummary (by decide),
    lt_of_fieldOr_countOf? hfit hdepth (by decide), by simp⟩

theorem isWritable_preset : IsWritable {} := by
  simp only [IsWritable, Timeline.counts, List.forall_mem_cons]
  decide

/-- **The settings of a file can be written**, because no greater number is an integer of TOML. -/
theorem isWritable_of_parse {s : Settings} (h : Settings.parse text = some s) : s.IsWritable := by
  obtain ⟨entries, hentries, h⟩ := Option.bind_eq_some_iff.mp h
  have hfit := Toml.fit_parse hentries
  unfold ofEntries? at h
  obtain ⟨t, ht, h⟩ := Option.bind_eq_some_iff.mp h
  obtain ⟨o, -, h⟩ := Option.bind_eq_some_iff.mp h
  cases h
  rcases eq_or_read_of_fieldOr ht with rfl | ⟨v, hlookup, hread⟩
  · exact isWritable_preset
  · exact counts_lt_of_timelineOf? (hfit.lookup hlookup) hread

end files

/-! ## The repair -/

def Timeline.charLimits : List (Settings.Timeline → Nat) :=
  [turnClipChars, labelMaxChars, shellLabelChars, taskLabelChars, summaryLabelMaxChars]

section repair
variable {s : Settings} {limit : Settings.Timeline → Nat}

theorem limit_repair (s : Settings) (h : limit ∈ Timeline.charLimits) :
    limit s.repair.timeline = nonZero (limit {}) (limit s.timeline) := by
  simp only [Timeline.charLimits, List.mem_cons, List.not_mem_nil, or_false] at h
  rcases h with rfl | rfl | rfl | rfl | rfl <;> rfl

theorem preset_pos (h : limit ∈ Timeline.charLimits) : 1 ≤ limit {} := by
  simp only [Timeline.charLimits, List.mem_cons, List.not_mem_nil, or_false] at h
  rcases h with rfl | rfl | rfl | rfl | rfl <;> decide

theorem limit_repair_pos (s : Settings) (h : limit ∈ Timeline.charLimits) :
    1 ≤ limit s.repair.timeline := by
  rw [limit_repair s h, nonZero]
  split
  · exact preset_pos h
  · exact Nat.one_le_iff_ne_zero.mpr ‹_›

theorem needsRepair_iff : s.needsRepair = true ↔ ∃ limit ∈ Timeline.charLimits, limit s.timeline = 0 := by
  have hany : s.needsRepair = Timeline.charLimits.any fun limit => limit s.timeline == 0 := by
    simp only [needsRepair, Timeline.charLimits, List.any_cons, List.any_nil, Bool.or_false,
      Bool.or_assoc]
  rw [hany, List.any_eq_true]
  simp only [beq_iff_eq]

theorem repair_eq_self (h : s.needsRepair = false) : s.repair = s := by
  have hlimits : ∀ limit ∈ Timeline.charLimits, nonZero (limit {}) (limit s.timeline) = limit s.timeline := by
    intro limit hlimit
    rw [nonZero, if_neg]
    intro hzero
    exact absurd (needsRepair_iff.mpr ⟨limit, hlimit, hzero⟩) (by simp [h])
  simp only [Timeline.charLimits, List.forall_mem_cons, List.not_mem_nil, false_implies,
    implies_true, and_true] at hlimits
  obtain ⟨hturn, hlabel, hshell, htask, hsummary⟩ := hlimits
  simp only [repair, hturn, hlabel, hshell, htask, hsummary]

theorem needsRepair_repair (s : Settings) : s.repair.needsRepair = false := by
  rw [Bool.eq_false_iff, ne_eq, needsRepair_iff]
  rintro ⟨limit, hlimit, hzero⟩
  exact absurd (limit_repair_pos s hlimit) (by omega)

theorem IsWritable.repair (h : s.IsWritable) : s.repair.IsWritable := by
  have hkept {fallback n : Nat} (hfallback : fallback < 0x8000000000000000)
      (hn : n < 0x8000000000000000) : nonZero fallback n < 0x8000000000000000 := by
    rw [nonZero]
    split
    · exact hfallback
    · exact hn
  simp only [IsWritable, Timeline.counts, List.forall_mem_cons] at h ⊢
  obtain ⟨hturn, hlabel, hshell, htask, hsummary, hdepth, hnil⟩ := h
  exact ⟨hkept (by decide) hturn, hkept (by decide) hlabel, hkept (by decide) hshell,
    hkept (by decide) htask, hkept (by decide) hsummary, hdepth, hnil⟩

end repair

/-- The settings `f` are a repair of `c`, which is told to have changed something or not, and are
themselves in need of none. -/
structure RepairedOnce (c f : Settings) (changed : Bool) : Prop where
  positive : ∀ limit ∈ Timeline.charLimits, 1 ≤ limit f.timeline
  onlyZeros : ∀ limit ∈ Timeline.charLimits, limit f.timeline ≠ limit c.timeline →
    limit c.timeline = 0 ∧ limit f.timeline = limit {}
  depth : f.timeline.threadMaxDepth = c.timeline.threadMaxDepth
  output : f.output = c.output
  told : changed = true ↔ f ≠ c
  reread : Settings.parse (encode f) = some f
  settled : f.needsRepair = false ∧ f.repair = f

/-- **The settings of a file are repaired once**, and what was repaired is read back as it is. -/
theorem repairedOnce {text : String} {c : Settings} (h : Settings.parse text = some c) :
    RepairedOnce c c.repair c.needsRepair where
  positive _ hlimit := limit_repair_pos c hlimit
  onlyZeros limit hlimit hchanged := by
    rw [limit_repair c hlimit, nonZero] at hchanged ⊢
    split at hchanged
    · rename_i hzero
      exact ⟨hzero, if_pos hzero⟩
    · exact absurd rfl hchanged
  depth := rfl
  output := rfl
  told := by
    constructor
    · rw [needsRepair_iff]
      rintro ⟨limit, hlimit, hzero⟩ hsame
      have hpos := limit_repair_pos c hlimit
      rw [hsame, hzero] at hpos
      exact absurd hpos (by decide)
    · intro hchanged
      by_contra hneeds
      exact hchanged (repair_eq_self (Bool.eq_false_iff.mpr hneeds))
  reread := parse_encode (isWritable_of_parse h).repair
  settled := ⟨needsRepair_repair c, repair_eq_self (needsRepair_repair c)⟩

/-- A limit of zero in a file, and a depth of zero, which stays. -/
theorem repairedOnce_zeros :
    Settings.parse "[timeline]\nlabel_max_chars = 0\nthread_max_depth = 0\n" =
        some { timeline := { labelMaxChars := 0, threadMaxDepth := 0 } } ∧
      RepairedOnce { timeline := { labelMaxChars := 0, threadMaxDepth := 0 } }
        { timeline := { threadMaxDepth := 0 } } true := by
  have hread : Settings.parse "[timeline]\nlabel_max_chars = 0\nthread_max_depth = 0\n" =
      some { timeline := { labelMaxChars := 0, threadMaxDepth := 0 } } := by decide +kernel
  exact ⟨hread, repairedOnce hread⟩

end Chronicle.Settings
