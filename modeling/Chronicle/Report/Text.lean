import Chronicle.Content.Language
import Chronicle.Json.Printer
import Chronicle.Report.Line
import Chronicle.Thread
import Chronicle.Timeline.Selection

/-!
# Reports

What each command prints, as lines of text and as JSON.

* `timelineText`, `timelineJson`: the items shown, and all counts.
* `tallyText`, `tallyJson`: the counts.
* `threadsText`, `threadsJson`: the nodes of threads.
* `Inspection`: the shape and language of a text.
-/

namespace Chronicle

/-- Lines, each with its end. -/
def printed (lines : List String) : String :=
  String.join (lines.map (· ++ "\n"))

/-! ## Timeline -/

def timelineText (showTimestamps : Bool) (shown : List TimelineItem) : String :=
  printed (shown.map (renderLine showTimestamps))

/-- The counts with the tags ascending. -/
def tallyByTag (items : List TimelineItem) : Json :=
  .ofMembers ((tally items).map fun (category, count) => (category.tag, .ofNat count))

/-- The items shown and the counts of all. -/
def timelineJson (items shown : List TimelineItem) : String :=
  printed [(Json.record [("items", .list (shown.map TimelineItem.toJson)),
    ("tally", tallyByTag items)]).pretty]

/-! ## Tally -/

def countRow (name : String) (count : Nat) : String :=
  padded nameWidth name ++ " " ++ String.ofList (digitsOf count)

/-- A category a line, and the sum. -/
def tallyText (items : List TimelineItem) : String :=
  let counts := tally items
  printed (counts.map (fun (category, count) => countRow category.tag count) ++
    [countRow "total" (counts.foldl (fun sum count => sum + count.2) 0)])

/-- The counts in the order of the categories. -/
def tallyJson (items : List TimelineItem) : String :=
  printed [(Json.record ((tally items).map fun (category, count) =>
    (category.tag, .ofNat count))).pretty]

/-! ## Threads -/

/-- A node, indented by its level. -/
def ThreadNode.line (n : ThreadNode) : String :=
  String.ofList (List.replicate (2 * n.indent) ' ') ++ n.id ++
    match n.parent with
    | some parent => if n.isChild then " (reply to " ++ parent ++ ")" else ""
    | none => ""

def threadsText (nodes : List ThreadNode) : String := printed (nodes.map ThreadNode.line)

def threadsJson (nodes : List ThreadNode) : String :=
  printed [(Json.list (nodes.map ThreadNode.toJson)).pretty]

/-! ## Inspection -/

/-- What can be told of a text. -/
structure Inspection where
  shape : Content.Shape
  language : Content.Language
  lines : Nat
deriving DecidableEq, Repr

namespace Inspection

/-- The inspection of a text. The language of a listing is that of its lines without numbers. -/
def of (text : String) : Inspection :=
  let shape := Content.Shape.of text
  { shape
    language := .guess (if shape = .lineNumbered then Content.withoutNumbers text else text)
    lines := Text.lineCount text }

theorem shape_of (text : String) : (of text).shape = .of text := by
  simp only [of]

theorem language_of (text : String) :
    (of text).language = .guess
      (if Content.Shape.of text = .lineNumbered then Content.withoutNumbers text else text) := by
  simp only [of]

/-- A line for each thing that is told. -/
def text (i : Inspection) : String :=
  printed ["shape: " ++ i.shape.tag, "language: " ++ i.language.label,
    "lines: " ++ String.ofList (digitsOf i.lines)]

def json (i : Inspection) : String :=
  printed [(Json.record [("language", .text i.language.label), ("lines", .ofNat i.lines),
    ("shape", .text i.shape.tag)]).pretty]

end Inspection

end Chronicle
