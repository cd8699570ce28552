import Mathlib.Data.List.Basic
import Chronicle.Timeline.Label

/-!
# Names of tools on context servers

The name of such a tool is made of a mark and of segments between double underscores. A segment may
begin with an underscore, and the last one may end with one, so three underscores may stand side by
side: the first two of them are the ones between the segments.

* `AreSegments`: the segments that a name can be made of.
* `nameParts_append`, `nameParts_intercalate`: they are got back from the name.
* `ToldBySegments`, `toldBySegments`: the category and the label that the name gets, and that no other
  name than the empty one is labelled by nothing.
-/

namespace Chronicle

open Label

/-- No segment is empty or holds a double underscore, and only the last may end with an
underscore. -/
structure AreSegments (segments : List String) : Prop where
  nonempty : segments ≠ []
  filled : ∀ segment ∈ segments, segment ≠ ""
  unbroken : ∀ segment ∈ segments, ¬['_', '_'] <:+: segment.toList
  closed : ∀ segment ∈ segments.dropLast, segment.toList.getLast? ≠ some '_'

def serverTool (segments : List String) : String :=
  Category.serverMark ++ "__".intercalate segments

/-! ## The parts of a name -/

theorem nameParts_cons {c : Char} {cs : List Char} (h : ¬['_', '_'] <+: c :: cs)
    (part : List Char) : nameParts part (c :: cs) = nameParts (c :: part) cs := by
  rw [nameParts]
  rintro rest rfl rfl
  exact h ⟨rest, rfl⟩

theorem nameParts_of_unbroken {cs : List Char} (h : ¬['_', '_'] <:+: cs) (part : List Char) :
    nameParts part cs = [part.reverse ++ cs] := by
  induction cs generalizing part with
  | nil => rw [nameParts, List.append_nil]
  | cons c cs ih =>
    rw [nameParts_cons (fun hprefix => h hprefix.isInfix),
      ih fun hinfix => h (List.infix_cons hinfix)]
    simp

theorem nameParts_append {cs : List Char} (h : ¬['_', '_'] <:+: cs)
    (hlast : cs.getLast? ≠ some '_') (part rest : List Char) :
    nameParts part (cs ++ '_' :: '_' :: rest) = (part.reverse ++ cs) :: nameParts [] rest := by
  induction cs generalizing part with
  | nil => rw [List.nil_append, nameParts, List.append_nil]
  | cons c cs ih =>
    -- a double underscore here would lie in the segment or begin with its last character
    have hbegin : ¬['_', '_'] <+: c :: (cs ++ '_' :: '_' :: rest) := by
      intro hprefix
      cases cs with
      | nil =>
        obtain ⟨rfl, -⟩ := List.cons_prefix_cons.mp hprefix
        exact hlast rfl
      | cons d cs =>
        obtain ⟨rfl, hmore⟩ := List.cons_prefix_cons.mp hprefix
        obtain ⟨rfl, -⟩ := List.cons_prefix_cons.mp hmore
        exact h (List.prefix_append ['_', '_'] cs).isInfix
    have hrest : cs.getLast? ≠ some '_' := by
      intro hcs
      rw [List.getLast?_cons, hcs] at hlast
      exact hlast rfl
    rw [List.cons_append, nameParts_cons hbegin, ih (fun hinfix => h (List.infix_cons hinfix)) hrest]
    simp

theorem AreSegments.tail {first second : String} {more : List String}
    (h : AreSegments (first :: second :: more)) : AreSegments (second :: more) where
  nonempty := List.cons_ne_nil _ _
  filled segment hmem := h.filled segment (List.mem_cons_of_mem _ hmem)
  unbroken segment hmem := h.unbroken segment (List.mem_cons_of_mem _ hmem)
  closed segment hmem := h.closed segment (List.mem_cons_of_mem _ hmem)

theorem nameParts_intercalate {segments : List String} (h : AreSegments segments) :
    nameParts [] ("__".intercalate segments).toList = segments.map String.toList := by
  induction segments with
  | nil => exact absurd rfl h.nonempty
  | cons first more ih =>
    have hfirst := h.unbroken first List.mem_cons_self
    cases more with
    | nil => simp [nameParts_of_unbroken hfirst]
    | cons second more =>
      have hlast := h.closed first List.mem_cons_self
      have hjoined : ("__".intercalate (first :: second :: more)).toList =
          first.toList ++ '_' :: '_' :: ("__".intercalate (second :: more)).toList := by
        rw [String.intercalate_cons_cons]
        simp
      rw [hjoined, nameParts_append hfirst hlast, ih h.tail]
      rfl

/-! ## Category and label -/

theorem isServerTool_serverTool (segments : List String) :
    Category.isServerTool (serverTool segments) = true := by
  rw [Category.isServerTool, List.isPrefixOf_iff_prefix, serverTool, String.toList_append]
  exact List.prefix_append _ _

theorem Category.ofTool_of_isServerTool {name : String} (h : Category.isServerTool name = true) :
    Category.ofTool name = .mcp := by
  have hskill : Category.isSkillTool name = false := by
    rw [Category.isSkillTool, beq_eq_false_iff_ne]
    rintro rfl
    exact absurd h (by decide)
  rw [Category.ofTool, hskill, h]
  rfl

theorem serverParts_serverTool {segments : List String} (h : AreSegments segments) :
    serverParts (serverTool segments) = segments.map String.toList := by
  have hrest : (serverTool segments).toList.drop Category.serverMark.length =
      ("__".intercalate segments).toList := by
    rw [serverTool, String.toList_append, ← String.length_toList, List.drop_left]
  rw [serverParts, if_pos (isServerTool_serverTool segments), hrest, nameParts_intercalate h,
    List.filter_eq_self]
  intro part hpart
  obtain ⟨segment, hmem, rfl⟩ := List.mem_map.mp hpart
  simpa using h.filled segment hmem

theorem ofServerTool_serverTool {segments : List String} (h : AreSegments segments) :
    ofServerTool (serverTool segments) = "/".intercalate (segments.drop (segments.length - 2)) := by
  rw [ofServerTool, serverParts_serverTool h]
  obtain hnil | ⟨front, method, rfl⟩ := segments.eq_nil_or_concat'
  · exact absurd hnil h.nonempty
  obtain rfl | ⟨front, server, rfl⟩ := front.eq_nil_or_concat'
  · simp
  · have hlast : (front ++ [server] ++ [method]).drop
        ((front ++ [server] ++ [method]).length - 2) = [server, method] := by
      rw [List.append_assoc, List.length_append, List.singleton_append, List.length_cons,
        List.length_singleton, Nat.add_sub_cancel, List.drop_left]
    rw [hlast]
    simp [String.append_assoc]

theorem ofServerTool_eq_empty_iff {name : String} : ofServerTool name = "" ↔ name = "" := by
  have hparts : ∀ part ∈ (serverParts name).reverse, part ≠ [] := by
    intro part hpart
    simpa using (List.mem_filter.mp (List.mem_reverse.mp hpart)).2
  have hempty : ofServerTool "" = "" := by decide
  refine ⟨fun h => ?_, fun h => h ▸ hempty⟩
  rw [ofServerTool] at h
  split at h
  · exact h
  · next only hone =>
    exact absurd (String.ofList_eq_empty_iff.mp h) (hparts only (by simp [hone]))
  · next method server more hmore =>
    exact absurd (String.ofList_eq_empty_iff.mp h) (by simp)

/-- What is told of the tool with these segments. -/
structure ToldBySegments (segments : List String) : Prop where
  category : Category.ofTool (serverTool segments) = .mcp
  /-- The segments come back from the name. -/
  parts : serverParts (serverTool segments) = segments.map String.toList
  /-- The label is made of the last two segments, or of the only one, whatever the tool is given. -/
  label : ∀ limits input, Label.ofTool limits (serverTool segments) input =
    "/".intercalate (segments.drop (segments.length - 2))

/-- **The name of a tool tells its segments**, and only the empty name is labelled by nothing. -/
theorem toldBySegments :
    (∀ segments, AreSegments segments → ToldBySegments segments) ∧
      ∀ name, ofServerTool name = "" ↔ name = "" := by
  refine ⟨fun segments h => ?_, fun _ => ofServerTool_eq_empty_iff⟩
  have hserver := isServerTool_serverTool segments
  refine ⟨Category.ofTool_of_isServerTool hserver, serverParts_serverTool h, fun limits input => ?_⟩
  rw [Label.ofTool, if_pos hserver]
  exact ofServerTool_serverTool h

/-- A segment that begins with an underscore and a last one that ends with one. -/
theorem toldBySegments_underscores :
    AreSegments ["git_hub", "_issues", "new_"] ∧ ToldBySegments ["git_hub", "_issues", "new_"] ∧
      serverTool ["git_hub", "_issues", "new_"] = "mcp__git_hub___issues__new_" ∧
      ofServerTool "mcp__git_hub___issues__new_" = "_issues/new_" := by
  have h : AreSegments ["git_hub", "_issues", "new_"] :=
    ⟨by decide, by decide, by decide +kernel, by decide⟩
  refine ⟨h, toldBySegments.1 _ h, ?_, ?_⟩
  · decide
  · decide

end Chronicle
