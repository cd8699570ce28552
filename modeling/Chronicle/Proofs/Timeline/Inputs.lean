import Chronicle.Proofs.Json.Readable
import Chronicle.Timeline.Label

/-!
# Inputs that are texts of records

The input of a tool may be a record or a text that holds one. Its label is the same in either case,
since it is made of the texts that the record holds under certain names, and those are in the text
of the record as well.

* `HoldsRecord`: a record, or a text that is one up to blanks around it.
* `ofInput?_congr`: a record is told by its texts alone.
* `inputRecord?_text`: the record that is found in its text.
* `LabelledAlike`, `labelledAlike`: a text of a record has the label of the record, and an input
  that holds none has the tool's name.
-/

namespace Chronicle.Label

open Text (isBlank trim)
open Metadata (textMember?)

/-- A record, or a text that is one but for blanks around it. -/
inductive HoldsRecord : Json → Prop where
  | record (members : List (String × Json)) : HoldsRecord (.record members)
  | text {s : String} {members : List (String × Json)} :
      Json.parse (trim s.toList) = some (.record members) → HoldsRecord (.text s)

/-! ## What a label is made of -/

theorem ofInput?_congr {v w : Json} (h : ∀ name, textMember? v name = textMember? w name)
    (limits : Limits) (tool : String) (subject : Subject) :
    ofInput? limits tool v subject = ofInput? limits tool w subject := by
  have htext (names : List String) : Metadata.text? v names = Metadata.text? w names := by
    rw [Metadata.text?, funext h]
    rfl
  cases subject <;> simp only [ofInput?, htext]

theorem textMember?_congr {ms ns : List (String × Json)} {name : String}
    (h : (ns.lookup name).bind Json.text? = (ms.lookup name).bind Json.text?) :
    textMember? (.record ns) name = textMember? (.record ms) name := by
  simp only [textMember?, Json.get?, h]

theorem ofTool_congr {limits : Limits} {input input' : Json} {v w : Json}
    (hv : inputRecord? input = some v) (hw : inputRecord? input' = some w)
    (h : ∀ name, textMember? v name = textMember? w name) (tool : String) :
    ofTool limits tool (some input) = ofTool limits tool (some input') := by
  simp only [ofTool, Option.bind_some, hv, hw, ofInput?_congr h]

/-! ## Records in texts -/

theorem inputRecord?_text {s : String} {inner : List Char} {members : List (String × Json)}
    (htrim : trim s.toList = '\x7b' :: (inner ++ ['\x7d']))
    (hparse : Json.parse (trim s.toList) = some (.record members)) :
    inputRecord? (.text s) = some (.record members) := by
  have hholds : Content.holdsJson s = true := by
    obtain ⟨c, rest, hrest⟩ := List.exists_cons_of_ne_nil (l := inner ++ ['\x7d']) (by simp)
    unfold Content.holdsJson
    simp only
    rw [hparse, htrim, hrest]
    rfl
  rw [inputRecord?, if_pos hholds, hparse]

theorem holdsRecord_of_inputRecord? {input v : Json} (h : inputRecord? input = some v) :
    HoldsRecord input := by
  cases input with
  | record members => exact .record members
  | text s =>
    rw [inputRecord?] at h
    split at h
    · split at h
      · rename_i members hparse
        exact .text hparse
      · cases h
    · cases h
  | _ => cases h

theorem ofTool_of_no_record {limits : Limits} {tool : String} {input : Option Json}
    (htool : Category.isServerTool tool = false) (h : ∀ v ∈ input, ¬ HoldsRecord v) :
    ofTool limits tool input = tool := by
  have hnone : input.bind inputRecord? = none := by
    rw [Option.bind_eq_none_iff]
    intro v hv
    rw [Option.eq_none_iff_forall_ne_some]
    intro w hw
    exact h v hv (holdsRecord_of_inputRecord? hw)
  rw [ofTool, if_neg (by simp [htool]), hnone]
  cases subject? tool <;> rfl

/-! ## Labels -/

/-- A tool is labelled alike for a record and for its text, and by its name for what holds none. -/
structure LabelledAlike (limits : Limits) (tool : String) : Prop where
  /-- The text of a record may have any blanks around it and any space between its tokens. -/
  written {members : List (String × Json)} {lead text trail : List Char} :
    Json.Ascending members → Json.Readable (.record members) →
    (Json.record members).depth ≤ 127 → Json.Spaced (Json.printed (.record members)) text →
    (∀ c ∈ lead, isBlank c = true) → (∀ c ∈ trail, isBlank c = true) →
      ofTool limits tool (some (.text (String.ofList (lead ++ text ++ trail)))) =
        ofTool limits tool (some (.record members))
  /-- A text that nests deeper holds no record. -/
  deeper {members : List (String × Json)} {lead text trail : List Char} :
    Category.isServerTool tool = false → 127 < (Json.record members).depth →
    Json.Spaced (Json.printed (.record members)) text →
    (∀ c ∈ lead, isBlank c = true) → (∀ c ∈ trail, isBlank c = true) →
      ofTool limits tool (some (.text (String.ofList (lead ++ text ++ trail)))) = tool
  /-- The name stands for an input that is missing or holds no record. -/
  bare {input : Option Json} : Category.isServerTool tool = false →
    (∀ v ∈ input, ¬ HoldsRecord v) → ofTool limits tool input = tool

/-- **A text of a record has the label of the record.** -/
theorem labelledAlike (limits : Limits) (tool : String) : LabelledAlike limits tool where
  written {members lead text trail} hascending hreadable hdepth htext hlead htrail := by
    obtain ⟨inner, htrim, hcore⟩ := htext.exists_trim_eq hlead htrail
    obtain ⟨given, hparse, -, hsame⟩ :=
      Json.exists_parse_eq_record hcore hascending hreadable hdepth
    rw [← String.toList_ofList (l := lead ++ text ++ trail)] at htrim
    rw [← htrim] at hparse
    refine ofTool_congr (inputRecord?_text htrim hparse) rfl (fun name => ?_) tool
    exact textMember?_congr (hsame name)
  deeper {members lead text trail} htool hdepth htext hlead htrail := by
    obtain ⟨inner, htrim, hcore⟩ := htext.exists_trim_eq hlead htrail
    refine ofTool_of_no_record htool fun v hv hholds => ?_
    obtain rfl := Option.some.inj hv
    cases hholds with
    | text hparse =>
      rw [String.toList_ofList, htrim] at hparse
      have hshallow := ((Json.isSome_parse_iff hcore).mp (hparse ▸ rfl)).2
      exact absurd hdepth (Nat.not_lt.mpr hshallow)
  bare := ofTool_of_no_record

/-- A record whose texts and numbers can be read. -/
def readInput : List (String × Json) :=
  [("file_path", .text "/x/y/z.md"), ("limit", .number (.int 40)),
    ("share", .number (.float ⟨0x3FE0000000000000⟩))]

/-- A record of lists that stand 127 deep in one another. -/
def deepInput : Json := .record [("file_path", (fun v => .list [v])^[127] .null)]

/-- Blanks that are no space of JSON may stand around a record in several lines. One that nests too
deep and one that breaks off are no records. -/
theorem labelledAlike_spaced :
    (Json.Ascending readInput ∧ Json.Readable (.record readInput) ∧
        (Json.record readInput).depth ≤ 127 ∧ 127 < deepInput.depth) ∧
      ofTool {} "Read" (some (.text ("\u3000 \x7b\n  \"file_path\": \"/x/y/z.md\",\n" ++
          "  \"limit\": 40,\n  \"share\": 0.5\n\x7d\u00a0"))) =
        ofTool {} "Read" (some (.record readInput)) ∧
      ofTool {} "Read" (some (.record readInput)) = "Read y/z.md" ∧
      ofTool {} "Read" (some (.text (String.ofList (Json.compactChars deepInput)))) = "Read" ∧
      ofTool {} "Read" (some (.text "\x7b\"file_path\": \"/x/y")) = "Read" := by
  have hascending : Json.Ascending readInput := by
    unfold Json.Ascending
    decide
  have hreadable : Json.Readable (.record readInput) := by
    refine ⟨trivial, ?_, ?_, trivial⟩
    · rw [Json.Readable, Json.readBack_int (by decide) (by decide)]
      rfl
    · show (Json.readBack (.float ⟨0x3FE0000000000000⟩)).isSome = true
      decide +kernel
  have hdeep : 127 < deepInput.depth := by decide +kernel
  refine ⟨⟨hascending, hreadable, by decide, hdeep⟩, ?_, by decide +kernel, ?_, ?_⟩
  · have htext : "\u3000 \x7b\n  \"file_path\": \"/x/y/z.md\",\n" ++
        "  \"limit\": 40,\n  \"share\": 0.5\n\x7d\u00a0" =
        String.ofList (['\u3000', ' '] ++ Json.prettyChars 0 (.record readInput) ++ ['\u00a0']) := by
      decide +kernel
    have hlead : ∀ c ∈ ['\u3000', ' '], isBlank c = true :=
      List.forall_mem_cons.mpr ⟨rfl, List.forall_mem_singleton.mpr rfl⟩
    rw [htext]
    exact (labelledAlike {} "Read").written hascending hreadable (by decide)
      (Json.spaced_prettyChars _ 0) hlead (List.forall_mem_singleton.mpr rfl)
  · have h := (labelledAlike {} "Read").deeper rfl hdeep (Json.spaced_compactChars deepInput)
      (List.forall_mem_nil _) (List.forall_mem_nil _)
    rwa [List.nil_append, List.append_nil] at h
  · refine (labelledAlike {} "Read").bare rfl ?_
    rintro _ ⟨⟩ (_ | hparse)
    have hnone : Json.parse (trim "\x7b\"file_path\": \"/x/y".toList) = none := by decide +kernel
    rw [hnone] at hparse
    cases hparse

end Chronicle.Label
