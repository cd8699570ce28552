import Chronicle.Decimal.Notation
import Chronicle.Json.Basic
import Chronicle.Timeline.Limits
import Chronicle.Toml.Reader

/-!
# Settings

What the configuration file chooses: the limits of a timeline and the form of the output.

* `Settings.parse`, `Settings.encode`: the file and its canonical text.
* `Settings.repair`: character limits of zero give way to their defaults.
-/

namespace Chronicle

/-- The limits of timelines and threads. -/
structure Settings.Timeline where
  turnClipChars : Nat := 200
  labelMaxChars : Nat := 80
  shellLabelChars : Nat := 60
  taskLabelChars : Nat := 50
  summaryLabelMaxChars : Nat := 80
  threadMaxDepth : Nat := 5
deriving DecidableEq, Repr

/-- The form in which results are printed. -/
inductive Form where
  | text
  | json
deriving DecidableEq, Repr

def Form.tag : Form → String
  | text => "text"
  | json => "json"

def Form.ofTag? (name : String) : Option Form :=
  [text, json].find? fun format => format.tag == name

structure Settings.Output where
  format : Form := .text
  showTimestamps : Bool := true
deriving DecidableEq, Repr

structure Settings where
  timeline : Settings.Timeline := {}
  output : Settings.Output := {}
deriving DecidableEq, Repr

namespace Settings

/-! ## Reading -/

def countOf? : Toml → Option Nat
  | .int (.ofNat n) => some n
  | _ => none

def flagOf? : Toml → Option Bool
  | .bool b => some b
  | _ => none

/-- The entries of a table, however it is written. -/
def entriesOf? : Toml → Option Toml.Entries
  | .inline entries => some entries
  | .table _ _ entries => some entries
  | _ => none

/-- Whether a value is empty, as that of a named constant has to be. -/
def isEmptyValue : Toml → Bool
  | .list [] => true
  | .inline [] => true
  | .table _ _ [] => true
  | _ => false

/-- A form of output: its name, or a table of that name alone over an empty value. -/
def formatOf? : Toml → Option Form
  | .text name => Form.ofTag? name
  | value =>
    match entriesOf? value with
    | some [(name, content)] => if isEmptyValue content then Form.ofTag? name else none
    | _ => none

/-- The fields of a section by name. A section may also be a list that gives its first fields in
order. A date counts as a section without any known field. -/
def fieldsOf? (names : List String) : Toml → Option Toml.Entries
  | .list items => some (names.zip items)
  | .tables items => some (names.zip items)
  | .date => some []
  | part => entriesOf? part

/-- A field that may be missing; one that is given has to be of the right kind. -/
def fieldOr (fallback : α) (read : Toml → Option α) (name : String) (fields : Toml.Entries) :
    Option α :=
  match fields.lookup name with
  | none => some fallback
  | some value => read value

def timelineOf? (part : Toml) : Option Settings.Timeline := do
  let fields ←
    fieldsOf?
      ["turn_clip_chars", "label_max_chars", "shell_label_chars", "task_label_chars",
        "summary_label_max_chars", "thread_max_depth"]
      part
  let preset : Settings.Timeline := {}
  return {
    turnClipChars := ← fieldOr preset.turnClipChars countOf? "turn_clip_chars" fields
    labelMaxChars := ← fieldOr preset.labelMaxChars countOf? "label_max_chars" fields
    shellLabelChars := ← fieldOr preset.shellLabelChars countOf? "shell_label_chars" fields
    taskLabelChars := ← fieldOr preset.taskLabelChars countOf? "task_label_chars" fields
    summaryLabelMaxChars :=
      ← fieldOr preset.summaryLabelMaxChars countOf? "summary_label_max_chars" fields
    threadMaxDepth := ← fieldOr preset.threadMaxDepth countOf? "thread_max_depth" fields }

def outputOf? (part : Toml) : Option Settings.Output := do
  let fields ← fieldsOf? ["format", "show_timestamps"] part
  return {
    format := ← fieldOr .text formatOf? "format" fields
    showTimestamps := ← fieldOr true flagOf? "show_timestamps" fields }

/-- The settings of a document's entries. Other entries do not count. -/
def ofEntries? (entries : Toml.Entries) : Option Settings := do
  return {
    timeline := ← fieldOr {} timelineOf? "timeline" entries
    output := ← fieldOr {} outputOf? "output" entries }

def parse (text : String) : Option Settings := (Toml.parse text).bind ofEntries?

/-! ## Writing -/

def pairLine (key value : String) : String := key ++ " = " ++ value ++ "\n"

def countLine (key : String) (n : Nat) : String := pairLine key (String.ofList (digitsOf n))

def flagText (b : Bool) : String := if b then "true" else "false"

/-- The settings as a file. -/
def encode (s : Settings) : String :=
  "[timeline]\n" ++
    countLine "turn_clip_chars" s.timeline.turnClipChars ++
    countLine "label_max_chars" s.timeline.labelMaxChars ++
    countLine "shell_label_chars" s.timeline.shellLabelChars ++
    countLine "task_label_chars" s.timeline.taskLabelChars ++
    countLine "summary_label_max_chars" s.timeline.summaryLabelMaxChars ++
    countLine "thread_max_depth" s.timeline.threadMaxDepth ++
    "\n[output]\n" ++
    pairLine "format" ("\x22" ++ s.output.format.tag ++ "\x22") ++
    pairLine "show_timestamps" (flagText s.output.showTimestamps)

def toJson (s : Settings) : Json :=
  .record [
    ("output", .record [
      ("format", .text s.output.format.tag),
      ("show_timestamps", .bool s.output.showTimestamps)]),
    ("timeline", .record [
      ("label_max_chars", .ofNat s.timeline.labelMaxChars),
      ("shell_label_chars", .ofNat s.timeline.shellLabelChars),
      ("summary_label_max_chars", .ofNat s.timeline.summaryLabelMaxChars),
      ("task_label_chars", .ofNat s.timeline.taskLabelChars),
      ("thread_max_depth", .ofNat s.timeline.threadMaxDepth),
      ("turn_clip_chars", .ofNat s.timeline.turnClipChars)])]

/-! ## Repair -/

/-- A limit, or its default where it is zero. -/
def nonZero (fallback limit : Nat) : Nat := if limit = 0 then fallback else limit

/-- Character limits of zero give way to their defaults. A depth of zero means something and
stays. -/
def repair (s : Settings) : Settings :=
  let preset : Settings.Timeline := {}
  { s with
    timeline :=
      { s.timeline with
        turnClipChars := nonZero preset.turnClipChars s.timeline.turnClipChars
        labelMaxChars := nonZero preset.labelMaxChars s.timeline.labelMaxChars
        shellLabelChars := nonZero preset.shellLabelChars s.timeline.shellLabelChars
        taskLabelChars := nonZero preset.taskLabelChars s.timeline.taskLabelChars
        summaryLabelMaxChars :=
          nonZero preset.summaryLabelMaxChars s.timeline.summaryLabelMaxChars } }

/-- Whether a character limit is zero. -/
def needsRepair (s : Settings) : Bool :=
  s.timeline.turnClipChars == 0 || s.timeline.labelMaxChars == 0 ||
    s.timeline.shellLabelChars == 0 || s.timeline.taskLabelChars == 0 ||
    s.timeline.summaryLabelMaxChars == 0

end Settings

/-- The limits that settings choose for building a timeline. -/
def Settings.Timeline.limits (s : Settings.Timeline) : Limits where
  turn := s.turnClipChars
  label := s.labelMaxChars
  shell := s.shellLabelChars
  task := s.taskLabelChars
  summary := s.summaryLabelMaxChars

end Chronicle
