import Chronicle.Proofs.Content.Joints
import Chronicle.Proofs.Session.Hints

/-!
# Turns of a session

What someone says is stripped twice on its way to the timeline: when the record is read, and when the
turn is made. The second time takes nothing away unless the first has put a tag together.

* `Event.turn?`, `filterMap_turn?_timelineOf`: the turns of a timeline are those of its events.
* `SessionRecord.content_of_speaker?`: what is said in an event is what is left of its record.
* `SettledUnlessTorn`: what is left of control markup in a stripped text.
* `TurnsOfSession`, `strippedUnlessTorn`: every turn shows the content of its event, unless a tag was
  torn.
-/

namespace Chronicle

open Markup (Complete Tears TornAt)
open Text (clip)

/-! ## Turns and their events -/

def TimelineItem.turn? : TimelineItem → Option Turn
  | .turn t => some t
  | .action _ => none

def Event.turn? (limits : Limits) (e : Event) : Option Turn :=
  e.speaker?.bind fun speaker => turnOf limits speaker e

section
variable {limits : Limits} {e : Event} {item : TimelineItem}

theorem TimelineItem.turn?_forget (invoked : Bool) (item : TimelineItem) :
    (item.forget invoked).turn? = item.turn? := by
  cases item with
  | turn t => rfl
  | action a => cases invoked <;> rfl

theorem Event.bind_turn?_ownItem? (limits : Limits) (e : Event) :
    (e.ownItem? limits).bind TimelineItem.turn? = e.turn? limits := by
  have hturn (t : Option Turn) : (t.map TimelineItem.turn).bind TimelineItem.turn? = t := by
    cases t <;> rfl
  unfold ownItem? request turn? speaker? kind
  cases e.payload with
  | user => simp only [ownItem?_turnOf, hturn, Option.bind_some]
  | assistant => simp only [ownItem?_turnOf, hturn, Option.bind_some]
  | _ => rfl

theorem filterMap_eq_of_forall₂ {R : α → β → Prop} {f : α → Option γ} {g : β → Option γ}
    {as : List α} {bs : List β} (h : List.Forall₂ R as bs) (hR : ∀ a b, R a b → g b = f a) :
    bs.filterMap g = as.filterMap f := by
  induction h with
  | nil => rfl
  | @cons a b as bs hab _ ih => rw [List.filterMap_cons, List.filterMap_cons, hR a b hab, ih]

/-- **The turns of a timeline are those of its events, in order.** -/
theorem filterMap_turn?_timelineOf (limits : Limits) (events : List Event) :
    (timelineOf limits events).filterMap TimelineItem.turn? =
      events.filterMap (Event.turn? limits) := by
  -- what an item has taken on since its event made it is no part of a turn
  rw [filterMap_eq_of_forall₂ (f := Event.turn? limits) (forall₂_stemsFrom limits events), sources,
    List.filterMap_filter]
  · refine List.filterMap_congr fun e _ => ?_
    rw [← e.isSome_ownItem? limits, ← e.bind_turn?_ownItem? limits]
    cases e.ownItem? limits <;> rfl
  · intro e item h
    rw [← e.bind_turn?_ownItem? limits, h, Option.bind_some, TimelineItem.turn?_forget]

end

/-! ## What is said in a session -/

theorem SessionRecord.content_of_speaker? {r : SessionRecord} {latest : LatestCategory} {e : Event}
    {speaker : Speaker} (h : e ∈ r.events latest) (hspeaker : e.speaker? = some speaker) :
    e.content = Markup.strip r.content ∧ e.content.isEmpty = false := by
  unfold Event.speaker? at hspeaker
  rcases mem_events h with h | ⟨role, -, h⟩
  · rw [kind_of_mem_thinkingEvents h] at hspeaker
    cases hspeaker
  · rw [(of_mem_roleEvents h).1] at hspeaker
    rw [roleEvents.eq_def] at h
    cases role with
    | user =>
      obtain ⟨hempty, rfl⟩ := mem_turnEvents.mp h
      exact ⟨rfl, hempty⟩
    | assistant =>
      obtain ⟨hempty, rfl⟩ := mem_turnEvents.mp h
      exact ⟨rfl, hempty⟩
    | _ => cases hspeaker

/-- What control markup leaves of a text: no block, unless removed blocks have put its tags
together. -/
structure SettledUnlessTorn (text : String) : Prop where
  /-- Every block that one pass leaves has a tag that a removed block stood in. -/
  torn {kind : Markup.Kind} {p s : Nat} : Complete kind (Markup.dropBlocks text.toList) p s →
    TornAt kind.opening text.toList p ∨ TornAt kind.closing text.toList s
  clean : ¬ Tears text → ∀ kind p s, ¬ Complete kind (Markup.strip text).toList p s
  /-- Stripping again changes nothing exactly if no block is left. -/
  again : Markup.strip (Markup.strip text) = Markup.strip text ↔
    ∀ kind p s, ¬ Complete kind (Markup.strip text).toList p s

theorem settledUnlessTorn (text : String) : SettledUnlessTorn text where
  torn h := (Markup.stripped_dropBlocks text.toList).tornAt_of_complete h
  clean := Markup.not_complete_strip
  again := Markup.strip_strip_iff text

/-- The turn that shows what an event says as it is, clipped. -/
def Event.wholeTurn (limits : Limits) (speaker : Speaker) (e : Event) : Turn :=
  ⟨speaker, clip e.content limits.turn, e.timestamp⟩

/-- The turns of a session show what its events say. -/
structure TurnsOfSession (limits : Limits) (records : List SessionRecord) : Prop where
  /-- Each event that someone speaks in makes its turn, or none, and these are the turns of the
  timeline. -/
  turns : (timelineOf limits (sessionEvents records)).filterMap TimelineItem.turn? =
    (sessionEvents records).filterMap (Event.turn? limits)
  /-- An event makes a turn of all that it says unless there is a block in it. -/
  whole {e : Event} {speaker : Speaker} : e ∈ sessionEvents records → e.speaker? = some speaker →
    (∀ kind p s, ¬ Complete kind e.content.toList p s) →
      e.turn? limits = some (e.wholeTurn limits speaker)
  /-- There is none unless a tag was torn in the content of its record. -/
  source {e : Event} {speaker : Speaker} : e ∈ sessionEvents records → e.speaker? = some speaker →
    ∃ r ∈ records, e.content = Markup.strip r.content ∧
      (¬ Tears r.content → e.turn? limits = some (e.wholeTurn limits speaker))

theorem Event.turn?_eq_wholeTurn {limits : Limits} {e : Event} {speaker : Speaker}
    (hspeaker : e.speaker? = some speaker) (hempty : e.content.isEmpty = false)
    (hstrip : Markup.strip e.content = e.content) :
    e.turn? limits = some (e.wholeTurn limits speaker) := by
  rw [turn?, hspeaker, Option.bind_some, turnOf, turnContent, hstrip]
  simp only [hempty]
  rfl

/-- **Turns show what was said**, and stripped texts hold no block, unless a tag was torn. -/
theorem strippedUnlessTorn (limits : Limits) (records : List SessionRecord) :
    (∀ text, SettledUnlessTorn text) ∧ TurnsOfSession limits records := by
  have hsource {e : Event} {speaker : Speaker} (he : e ∈ sessionEvents records)
      (hspeaker : e.speaker? = some speaker) : ∃ r ∈ records,
        e.content = Markup.strip r.content ∧ e.content.isEmpty = false := by
    obtain ⟨r, hr, latest, hevents⟩ := exists_record_of_mem_eventsAfter he
    exact ⟨r, hr, SessionRecord.content_of_speaker? hevents hspeaker⟩
  have hwhole {e : Event} {speaker : Speaker} (he : e ∈ sessionEvents records)
      (hspeaker : e.speaker? = some speaker)
      (hclean : ∀ kind p s, ¬ Complete kind e.content.toList p s) :
      e.turn? limits = some (e.wholeTurn limits speaker) := by
    obtain ⟨r, -, hcontent, hempty⟩ := hsource he hspeaker
    refine Event.turn?_eq_wholeTurn hspeaker hempty ?_
    rw [hcontent] at hclean ⊢
    exact (Markup.strip_strip_iff r.content).mpr hclean
  refine ⟨settledUnlessTorn, filterMap_turn?_timelineOf limits _, hwhole, fun he hspeaker => ?_⟩
  obtain ⟨r, hr, hcontent, -⟩ := hsource he hspeaker
  refine ⟨r, hr, hcontent, fun htears => hwhole he hspeaker ?_⟩
  rw [hcontent]
  exact Markup.not_complete_strip htears

/-- A reminder inside the opening tag of a reminder. -/
def tornReminder : String :=
  "<system-rem<system-reminder></system-reminder>inder>x</system-reminder>"

def saidReminder : Event where
  payload := .user
  content := "<system-reminder>x</system-reminder>"

/-- What is left of it is a reminder, of which nothing is left. -/
theorem not_forall_strip :
    (¬ ∀ text kind p s, ¬ Complete kind (Markup.strip text).toList p s) ∧
      (¬ ∀ text, Markup.strip (Markup.strip text) = Markup.strip text) ∧
        ¬ ∀ (limits : Limits) (records : List SessionRecord), ∀ e ∈ sessionEvents records,
          ∀ speaker, e.speaker? = some speaker →
            e.turn? limits = some (e.wholeTurn limits speaker) := by
  have hstrip : Markup.strip tornReminder = "<system-reminder>x</system-reminder>" := by
    decide +kernel
  have hagain : Markup.strip "<system-reminder>x</system-reminder>" = "" := by decide +kernel
  have hsettled : ¬ Markup.strip (Markup.strip tornReminder) = Markup.strip tornReminder := by
    rw [hstrip, hagain]
    decide
  refine ⟨fun h => hsettled ((Markup.strip_strip_iff _).mpr (h tornReminder)),
    fun h => hsettled (h tornReminder), fun h => ?_⟩
  have hevents : sessionEvents [{ role := "user", content := tornReminder }] = [saidReminder] := by
    decide +kernel
  have hnone : saidReminder.turn? {} = none := by decide +kernel
  have hmem : saidReminder ∈ sessionEvents [{ role := "user", content := tornReminder }] := by
    rw [hevents]
    exact List.mem_singleton_self saidReminder
  have hwhole := h {} _ saidReminder hmem .user rfl
  rw [hnone] at hwhole
  cases hwhole

end Chronicle
