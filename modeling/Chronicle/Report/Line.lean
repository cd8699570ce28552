import Chronicle.Decimal.Notation
import Chronicle.Timeline.Item

/-!
# Lines of a report

`renderLine` shows an item on a line: the time of day if it is wanted, and then who spoke and what,
or the category, status and label of an action with its duration.
-/

namespace Chronicle

/-- A text filled with spaces on the right to this many characters. -/
def padded (width : Nat) (text : String) : String :=
  text ++ String.ofList (List.replicate (width - text.length) ' ')

/-- The text with a space for each line feed. -/
def flattened (text : String) : String :=
  String.ofList (text.toList.map fun c => if c == '\n' then ' ' else c)

def nameWidth : Nat := 13

def statusWidth : Nat := 7

def Status.word : Status → String
  | pending => "pending"
  | success => "ok"
  | error => "error"

def Turn.line (t : Turn) : String :=
  padded nameWidth t.speaker.tag ++ " > " ++ flattened t.content

def durationNote (millis : Nat) : String :=
  " (" ++ String.ofList (digitsOf millis) ++ " ms)"

def Action.line (a : Action) : String :=
  padded nameWidth a.category.tag ++ " " ++ padded statusWidth a.status.word ++ " " ++ a.label ++
    (a.durationMs.map durationNote).getD ""

/-- An item without its time. -/
def TimelineItem.line : TimelineItem → String
  | turn t => t.line
  | action a => a.line

/-- An item, after the time of day if that is wanted. -/
def renderLine (showTimestamps : Bool) (item : TimelineItem) : String :=
  if showTimestamps then item.timestamp.clock ++ " " ++ item.line else item.line

end Chronicle
