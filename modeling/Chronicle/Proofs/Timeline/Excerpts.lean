import Chronicle.Proofs.Session.Turns
import Chronicle.Proofs.Text.Clip
import Chronicle.Proofs.Text.Headline
import Chronicle.Proofs.Timeline.Quoting

/-!
# What a timeline shows of a content

A turn shows what is left of its content, and the label of a hook the content without the blanks
around it; both are clipped. Most other labels are headlines, which are clipped too, with something to
fall back on where the content is blank.

* `WithinLimits`, `clippedToLimits`: no turn and no label of a hook is longer than its limit.
* `Titled`, `titledByHeadline`: a label is the fallback of a blank content, and of no other.
-/

namespace Chronicle

open Text

/-! ## Lengths -/

theorem length_clip_le (text : String) (limit : Nat) : (clip text limit).length ≤ limit := by
  rw [(clipped text limit).length]
  exact min_le_right _ _

/-- Items that show no more of their events than the limits allow. -/
structure WithinLimits (limits : Limits) (events : List Event) (items : List TimelineItem) :
    Prop where
  turns (t : Turn) : .turn t ∈ items → t.content.length ≤ limits.turn
  /-- The event of a hook has an action, and its label is not too long. -/
  hooks : List.Forall₂
    (fun e item => e.kind = .hook → ∃ a, item = .action a ∧ a.label.length ≤ limits.label)
    (sources events) items

section
variable {limits : Limits} {e : Event} {item : TimelineItem}

theorem length_content_of_turn? {t : Turn} (h : e.turn? limits = some t) :
    t.content.length ≤ limits.turn := by
  obtain ⟨speaker, -, hturn⟩ := Option.bind_eq_some_iff.mp h
  obtain ⟨content, hcontent, rfl⟩ := Option.map_eq_some_iff.mp hturn
  obtain ⟨-, hclip⟩ := Option.ite_none_left_eq_some.mp hcontent
  show content.length ≤ limits.turn
  rw [← Option.some.inj hclip]
  exact length_clip_le _ _

theorem Event.bind_label?_ownItem?_of_hook (limits : Limits) (h : e.kind = .hook) :
    (e.ownItem? limits).bind TimelineItem.label? =
      some (clip (trimmed e.content) limits.label) := by
  unfold kind at h
  unfold ownItem? request
  cases hp : e.payload with
  | hook tool input => rfl
  | _ => simp [hp] at h

theorem StemsFrom.exists_label_of_hook (h : StemsFrom limits e item) (hkind : e.kind = .hook) :
    ∃ a, item = .action a ∧ a.label = clip (trimmed e.content) limits.label := by
  have hlabel := e.bind_label?_ownItem?_of_hook limits hkind
  rw [h, Option.bind_some, TimelineItem.label?_forget] at hlabel
  cases item with
  | turn t => cases hlabel
  | action a => exact ⟨a, rfl, Option.some.inj hlabel⟩

theorem withinLimits_timelineOf (limits : Limits) (events : List Event) :
    WithinLimits limits events (timelineOf limits events) where
  turns t h := by
    have hturn : t ∈ (timelineOf limits events).filterMap TimelineItem.turn? :=
      List.mem_filterMap.mpr ⟨_, h, rfl⟩
    rw [filterMap_turn?_timelineOf] at hturn
    obtain ⟨e, -, he⟩ := List.mem_filterMap.mp hturn
    exact length_content_of_turn? he
  hooks := by
    refine (forall₂_stemsFrom limits events).imp fun e item h hkind => ?_
    obtain ⟨a, hitem, hlabel⟩ := h.exists_label_of_hook hkind
    refine ⟨a, hitem, ?_⟩
    rw [hlabel]
    exact length_clip_le _ _

end

/-- **A clipped text fits, and so do the turns and the labels of hooks** in any timeline, while it is
built and in the end. -/
theorem clippedToLimits :
    (∀ text limit, Clipped text limit) ∧
      ∀ limits events, WithinLimits limits events (timelineOf limits events) ∧
        WithinLimits limits events (Builder.pushAll limits {} events).liveItems := by
  refine ⟨clipped, fun limits events => ⟨withinLimits_timelineOf limits events, ?_⟩⟩
  rw [Builder.liveItems_pushAll, ← timelineOf_eq_replay]
  exact withinLimits_timelineOf limits events

/-! ## Headlines as labels -/

/-- A label that is the headline of a content. -/
structure Titled (limits : Limits) (content : String) : Prop where
  /-- Whatever there is to fall back on is the label of a blank content. -/
  bare : (∀ fallback, headlineOr limits content fallback = fallback) ↔ allBlank content = true
  /-- The label of any other content is made of its first line that is not blank. -/
  titled : allBlank content = false →
    ∃ line, (linesOf content.toList).find? (fun line => !line.all isBlank) = some line ∧
      ∀ fallback, headlineOr limits content fallback = clip (String.ofList (trim line)) limits.label

theorem titled (limits : Limits) (content : String) : Titled limits content := by
  have hblank (h : allBlank content = true) (fallback : String) :
      headlineOr limits content fallback = fallback := by
    rw [headlineOr, isEmpty_headline, if_pos h]
  have hvisible (h : allBlank content = false) (fallback : String) :
      headlineOr limits content fallback = clip (headline content) limits.label := by
    rw [headlineOr, isEmpty_headline, if_neg (by simp [h])]
  refine ⟨⟨fun h => ?_, hblank⟩, fun h => ?_⟩
  · by_contra hnot
    rw [Bool.not_eq_true] at hnot
    -- one label would be two texts, as it does not depend on what there is to fall back on
    have hsame : "" = "x" := by rw [← h "", ← h "x", hvisible hnot, hvisible hnot]
    exact absurd hsame (by decide)
  · obtain ⟨line, hline⟩ := exists_find?_of_visible (visible_iff.mpr h)
    refine ⟨line, hline, fun fallback => ?_⟩
    rw [hvisible h, ← trim_firstLine_of_find? hline, ← headline_toList, String.ofList_toList]

/-- **A label falls back exactly where its content is blank**, as its headline is empty exactly
there. -/
theorem titledByHeadline :
    (∀ text, HeadlineTold text) ∧ ∀ limits content, Titled limits content :=
  ⟨headlineTold, titled⟩

end Chronicle
