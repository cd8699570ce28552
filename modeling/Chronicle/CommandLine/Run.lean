import Chronicle.CommandLine.Arguments
import Chronicle.Event.Stream
import Chronicle.Hook.Record
import Chronicle.RecordFile
import Chronicle.Report.Text
import Chronicle.Session.Events
import Chronicle.Timeline.Builder

/-!
# Running a command

`run` is the whole program as a function of its arguments, of the home directory and of the files it
may read.

* `FileState`, `Files`: what can be found at a path.
* `eventsOf`: the events of a source, with hooks merged in by time.
* `Failure`: what was tried and why it failed.
-/

namespace Chronicle

/-! ## Files -/

inductive FileState where
  | missing
  /-- Something that is no file. -/
  | directory
  | file (bytes : ByteArray)

/-- What is found at each path. -/
abbrev Files := String → FileState

structure Failure where
  /-- What was tried. -/
  context : String
  /-- Why it failed, where that is not already said. -/
  cause : Option String := none
deriving DecidableEq, Repr

def Failure.message (f : Failure) : String :=
  match f.cause with
  | none => f.context
  | some cause => f.context ++ ": " ++ cause

def missingCause : String := "No such file or directory (os error 2)"

def directoryCause : String := "Is a directory (os error 21)"

/-- The bytes of a file, or none for a directory. -/
def openFile (files : Files) (path : String) : Except Failure (Option ByteArray) :=
  match files path with
  | .missing => .error ⟨"Failed to open " ++ path, some missingCause⟩
  | .directory => .ok none
  | .file bytes => .ok (some bytes)

/-- The records of a file. `what` names them. -/
def recordsOf (files : Files) (what path : String) (read : RecordFile.Reader α) :
    Except Failure (List α) := do
  let context := "Failed to read " ++ what ++ " from " ++ path
  match ← openFile files path with
  | none => .error ⟨context, some ("IO error: " ++ directoryCause)⟩
  | some bytes => (RecordFile.readBytes read bytes).mapError fun e => ⟨context, some e.message⟩

/-- The text of a file, or why there is none. -/
def textOf : FileState → Except String String
  | .missing => .error missingCause
  | .directory => .error directoryCause
  | .file bytes =>
    match String.fromUTF8? bytes with
    | some text => .ok text
    | none => .error "stream did not contain valid UTF-8"

/-! ## Events -/

/-- The events of a session's records, or of live events. -/
def primaryEvents (files : Files) (source : EventSource) : Except Failure (List Event) :=
  if source.live then
    List.map LiveEvent.toEvent <$>
      recordsOf files "live events" source.file fun node _ => LiveEvent.decode node
  else
    sessionEvents <$>
      recordsOf files "session records" source.file fun node _ => SessionRecord.decode node

/-- The events of hooks in order; none without a file. -/
def hookEvents (files : Files) : Option String → Except Failure (List Event)
  | none => .ok []
  | some path =>
    (fun records => (HookRecord.sort records).map HookRecord.toEvent) <$>
      recordsOf files "hook records" path HookRecord.ofNode

def eventsOf (files : Files) (source : EventSource) : Except Failure (List Event) := do
  let primary ← primaryEvents files source
  let hooks ← hookEvents files source.hooks
  return mergeStreams primary hooks

/-! ## Settings -/

def below (directory path : String) : String :=
  match directory.toList.getLast? with
  | none => path
  | some '/' => directory ++ path
  | some _ => directory ++ "/" ++ path

/-- Where the settings are kept below the home directory. -/
def settingsPath : String := ".config/sessionlens/sessionlens.toml"

def settingsOf (path : String) (state : FileState) : Except Failure Settings := do
  let text ← (textOf state).mapError fun cause => ⟨"Failed to read config at " ++ path, some cause⟩
  match Settings.parse text with
  | some settings => return settings.repair
  | none => .error ⟨"Failed to parse config at " ++ path, some "not a valid configuration"⟩

/-- The settings of the file that is named, which must exist, or of the one below the home
directory, which need not. -/
def loadSettings (files : Files) (home named : Option String) : Except Failure Settings :=
  match named with
  | some path =>
    match files path with
    | .missing => .error { context := "Config file not found: " ++ path }
    | state => settingsOf path state
  | none =>
    match home.map (below · settingsPath) with
    | none => .ok {}
    | some path =>
      match files path with
      | .missing => .ok {}
      | state => settingsOf path state

/-! ## Commands -/

def Command.output (files : Files) (settings : Settings) (format : Form) :
    Command → Except Failure String
  | .timeline source categories => do
    let items := timelineOf settings.timeline.limits (← eventsOf files source)
    let shown := select categories items
    match format with
    | .text => return timelineText settings.output.showTimestamps shown
    | .json => return timelineJson items shown
  | .tally source => do
    let items := timelineOf settings.timeline.limits (← eventsOf files source)
    match format with
    | .text => return tallyText items
    | .json => return tallyJson items
  | .threads path => do
    let records ← recordsOf files "thread records" path fun node _ => ThreadRecord.decode node
    let nodes := Thread.inOrder records settings.timeline.threadMaxDepth
    match format with
    | .text => return threadsText nodes
    | .json => return threadsJson nodes
  | .inspect path => do
    let text ← (textOf (files path)).mapError fun cause => ⟨"Failed to read " ++ path, some cause⟩
    match format with
    | .text => return (Inspection.of text).text
    | .json => return (Inspection.of text).json

structure Outcome where
  code : Nat
  output : String := ""
  failure : Option Failure := none

/-- What an invocation prints. The form named on the command line counts before the settings'. -/
def Invocation.output (files : Files) (home : Option String) (i : Invocation) :
    Except Failure String := do
  let settings ← loadSettings files home i.config
  i.command.output files settings (i.format.getD settings.output.format)

def usage : String :=
  printed [
    "Usage: COMMAND FILE [OPTIONS]",
    "",
    "Commands:",
    "  timeline FILE  Print the action timeline of a session",
    "  tally FILE     Count timeline actions per category",
    "  threads FILE   Show indentation levels for records linked by parent id",
    "  inspect FILE   Classify the shape and language of a text payload",
    "",
    "Options:",
    "  --config PATH        Read configuration from this file",
    "  -v, --verbose        Log recoverable anomalies",
    "  --format text|json   Choose the form of the output",
    "  --hooks FILE         Splice in hook records by time (timeline, tally)",
    "  --live               FILE holds live events (timeline, tally)",
    "  --category CATEGORY  Only show actions of this category (timeline, repeatable)"]

/-- Runs a command line. Misuse ends with code 2 and failure with code 1. -/
def run (files : Files) (home : Option String) (words : List String) : Outcome :=
  match Arguments.parse words with
  | none => { code := 2 }
  | some .help => { code := 0, output := usage }
  | some (.run invocation) =>
    match invocation.output files home with
    | .ok output => { code := 0, output }
    | .error failure => { code := 1, failure := some failure }

/-- The paths that a command line may read. -/
def pathsOf (home : Option String) (words : List String) : List String :=
  match Arguments.parse words with
  | some (.run i) =>
    let inputs :=
      match i.command with
      | .timeline source _ => source.file :: source.hooks.toList
      | .tally source => source.file :: source.hooks.toList
      | .threads path => [path]
      | .inspect path => [path]
    inputs ++ i.config.toList ++ (home.map (below · settingsPath)).toList
  | _ => []

/-! ## Files in memory -/

/-- A place below the working directory, by the names that lead to it. -/
abbrev Place := List (List Char)

/-- The steps of a path, between slashes. -/
def stepsOf (path : String) : List (List Char) := path.toList.splitOnP (· == '/')

/-- A step that stays where it is. -/
def isIdle (step : List Char) : Bool := step.isEmpty || step == ['.']

/-- What is found at a place: a file, or the directory of one. -/
def stateAt (contents : List (Place × ByteArray)) (place : Place) : FileState :=
  match contents.find? (·.1 == place) with
  | some entry => .file entry.2
  | none => if contents.any (fun entry => place.isPrefixOf entry.1) then .directory else .missing

/-- What is found after steps from a directory. No step leads on from a file, or out of the working
directory. -/
def walk (contents : List (Place × ByteArray)) (here : Place) : List (List Char) → FileState
  | [] => .directory
  | step :: more =>
    if isIdle step then walk contents here more
    else if step == ['.', '.'] then
      if here.isEmpty then .missing else walk contents here.dropLast more
    else
      match stateAt contents (here ++ [step]) with
      | .missing => .missing
      | .directory => walk contents (here ++ [step]) more
      | .file bytes => if more.isEmpty then .file bytes else .missing

/-- The files of a working directory, by their paths in it. Nothing else can be found. -/
def Files.ofList (contents : List (String × ByteArray)) : Files := fun path =>
  let placed := contents.map fun entry => ((stepsOf entry.1).filter (!isIdle ·), entry.2)
  if path.toList.head? = some '/' then .missing else walk placed [] (stepsOf path)

end Chronicle
