import Chronicle.Text.Blank

/-!
# Categories

Every action of a timeline has one of thirteen categories.

* `Category.tag`, `Category.ofTag?`: the exact tag.
* `Category.parse`: the tag as people write it, in any case and with dashes.
* `Category.ofTool`: the category that a tool's name tells.
-/

namespace Chronicle

/-- What kind of action it is. -/
inductive Category where
  | skill
  | mcp
  | builtin
  | agent
  | error
  | hook
  | hookProgress
  | system
  | snapshot
  | queue
  | context
  | result
  | summary
deriving DecidableEq, Repr, Inhabited

namespace Category

def all : List Category :=
  [skill, mcp, builtin, agent, error, hook, hookProgress, system, snapshot, queue, context, result,
    summary]

def tag : Category → String
  | skill => "skill"
  | mcp => "mcp"
  | builtin => "builtin"
  | agent => "agent"
  | error => "error"
  | hook => "hook"
  | hookProgress => "hook_progress"
  | system => "system"
  | snapshot => "snapshot"
  | queue => "queue"
  | context => "context"
  | result => "result"
  | summary => "summary"

def ofTag? (text : String) : Option Category :=
  all.find? fun category => category.tag == text

/-- A character of a tag as people write it: a small letter, and an underscore for a dash. -/
def tagChar (c : Char) : Char :=
  if c == '-' then '_' else c.toLower

/-- The category that a text names, whatever its case, with dashes for underscores and blanks
around it. -/
def parse (text : String) : Option Category :=
  ofTag? (String.ofList ((Text.trim text.toList).map tagChar))

def unknownMessage (text : String) : String :=
  "unknown category: " ++ text

theorem mem_all (category : Category) : category ∈ all := by
  cases category <;> simp [all]

theorem ofTag?_tag (category : Category) : ofTag? category.tag = some category := by
  cases category <;> rfl

theorem parse_tag (category : Category) : parse category.tag = some category := by
  cases category <;> rfl

/-! ## Tools -/

/-- How the names of tools on a context server begin. -/
def serverMark : String := "mcp__"

def isSkillTool (name : String) : Bool := name == "Skill"

/-- A tool on a context server. -/
def isServerTool (name : String) : Bool := serverMark.toList.isPrefixOf name.toList

/-- The tool that hands a task to another agent. -/
def isAgentTool (name : String) : Bool := name == "Task"

/-- The category of a tool, by its name. -/
def ofTool (name : String) : Category :=
  if isSkillTool name then skill
  else if isServerTool name then mcp
  else if isAgentTool name then agent
  else builtin

end Category

end Chronicle
