import Chronicle.Content.Shape
import Chronicle.Event.Metadata
import Chronicle.Text.Clip
import Chronicle.Timeline.Limits

/-!
# Labels of tools

`Label.ofTool` is the short text that stands for an invocation. It tells what the tool was asked to
do if the input is a record, or a text that holds one, and else it is the tool's name.

* `Label.pathTail`: the last two segments of a deep path.
* `Label.ofServerTool`: the server and the method of a tool on a context server.
-/

namespace Chronicle.Label

open Text Metadata

/-! ## Names and paths -/

/-- The segments of a path, between slashes of either direction. -/
def pathSegments (cs : List Char) : List (List Char) :=
  (cs.splitOnP fun c => c == '/' || c == '\\').filter (!·.isEmpty)

/-- The last two segments of a path that has more, and other paths as they are. -/
def pathTail (path : String) : String :=
  match (pathSegments path.toList).reverse with
  | last :: parent :: _ :: _ => String.ofList (parent ++ '/' :: last)
  | _ => path

/-- The parts of a name between double underscores, from left to right. -/
def nameParts (part : List Char) : List Char → List (List Char)
  | '_' :: '_' :: cs => part.reverse :: nameParts [] cs
  | c :: cs => nameParts (c :: part) cs
  | [] => [part.reverse]

/-- The parts of a tool's name after the mark of context servers, empty ones left out. -/
def serverParts (name : String) : List (List Char) :=
  let cs := name.toList
  let rest := if Category.isServerTool name then cs.drop Category.serverMark.length else cs
  (nameParts [] rest).filter (!·.isEmpty)

/-- The last two parts of the name of a tool on a context server. -/
def ofServerTool (name : String) : String :=
  match (serverParts name).reverse with
  | [] => name
  | [only] => String.ofList only
  | method :: server :: _ => String.ofList (server ++ '/' :: method)

/-! ## What a tool was asked to do -/

/-- What the label of a tool tells. -/
inductive Subject where
  | file
  | command
  | search
  | skill
  | task
  | page
  | webSearch
deriving DecidableEq, Repr

def subject? : String → Option Subject
  | "Read" => some .file
  | "Write" => some .file
  | "Edit" => some .file
  | "MultiEdit" => some .file
  | "NotebookEdit" => some .file
  | "NotebookRead" => some .file
  | "read_file" => some .file
  | "write_file" => some .file
  | "edit_file" => some .file
  | "Bash" => some .command
  | "shell" => some .command
  | "exec_command" => some .command
  | "run_terminal_cmd" => some .command
  | "Grep" => some .search
  | "Glob" => some .search
  | "grep_search" => some .search
  | "file_search" => some .search
  | "Skill" => some .skill
  | "Task" => some .task
  | "WebFetch" => some .page
  | "WebSearch" => some .webSearch
  | _ => none

def inQuotes (s : String) : String := "\x22" ++ s ++ "\x22"

/-- What a record of input tells of the subject. -/
def ofInput? (limits : Limits) (tool : String) (input : Json) : Subject → Option String
  | .file => (text? input ["file_path", "notebook_path", "path"]).map fun path =>
    tool ++ " " ++ pathTail path
  | .command => (text? input ["command", "cmd"]).map fun command =>
    clip (headline command) limits.shell
  | .search => (text? input ["pattern", "query"]).map fun pattern => tool ++ " " ++ inQuotes pattern
  | .skill => some ("Skill: " ++ (text? input ["skill", "name", "command"]).getD "unknown")
  | .task => (text? input ["description", "subagent_type"]).map fun description =>
    "Task: " ++ clip description limits.task
  | .page => (text? input ["url"]).map fun url => "WebFetch " ++ clip url limits.label
  | .webSearch => (text? input ["query"]).map fun query => "WebSearch " ++ inQuotes query

/-- The record that an input is, or that its text holds. -/
def inputRecord? : Json → Option Json
  | .record members => some (.record members)
  | .text s =>
    if Content.holdsJson s then
      match Json.parse (trim s.toList) with
      | some (.record members) => some (.record members)
      | _ => none
    else none
  | _ => none

/-- The label of an invocation. -/
def ofTool (limits : Limits) (tool : String) (input : Option Json) : String :=
  if Category.isServerTool tool then ofServerTool tool
  else
    ((subject? tool).bind fun subject =>
      (input.bind inputRecord?).bind fun data => ofInput? limits tool data subject).getD tool

end Chronicle.Label
