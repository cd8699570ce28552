import Chronicle.Category
import Chronicle.Settings

/-!
# Arguments

`Arguments.parse` reads the words of a command line. Options may stand anywhere among the words of
their command; a value follows its option as a word of its own or after an equals sign, and a word
with a leading dash is no value. After two dashes alone no word is an option. Only `--category` may
be given more than once.
-/

namespace Chronicle

/-- Where the events of a timeline come from. -/
structure EventSource where
  file : String
  hooks : Option String := none
  /-- Whether the file holds live events and not the records of a session. -/
  live : Bool := false
deriving DecidableEq, Repr

inductive Command where
  | timeline (source : EventSource) (categories : List Category)
  | tally (source : EventSource)
  | threads (file : String)
  | inspect (file : String)
deriving DecidableEq, Repr

/-- A command with the options that every command has. -/
structure Invocation where
  command : Command
  format : Option Form := none
  config : Option String := none
deriving DecidableEq, Repr

/-- What a command line asks for. -/
inductive Arguments where
  | run (invocation : Invocation)
  | help
deriving DecidableEq, Repr

namespace Arguments

/-! ## Options -/

inductive Flag where
  | config
  | verbose
  | format
  | hooks
  | live
  | category
deriving DecidableEq, Repr

def Flag.ofName? : String → Option Flag
  | "config" => some config
  | "verbose" => some verbose
  | "format" => some format
  | "hooks" => some hooks
  | "live" => some live
  | "category" => some category
  | _ => none

def Flag.takesValue : Flag → Bool
  | verbose => false
  | live => false
  | _ => true

/-- Options in the order in which they were given, and the words that are none. -/
structure Given where
  flags : List (Flag × String) := []
  words : List String := []

/-- The value of an option that may be given once. -/
def Given.value? (g : Given) (flag : Flag) : Option String := g.flags.lookup flag

def Given.has (g : Given) (flag : Flag) : Bool := (g.value? flag).isSome

def Flag.accepts : Flag → String → Bool
  | config, value => !value.isEmpty
  | hooks, value => !value.isEmpty
  | format, value => (Form.ofTag? value).isSome
  | category, value => (Category.parse value).isSome
  | verbose, _ => true
  | live, _ => true

/-- Whether nothing is wrong so far: options have values that they can have, and there is at most
one word, which is not empty. -/
def Given.isSound (g : Given) : Bool :=
  g.flags.all (fun flag => flag.1.accepts flag.2) && g.words.length ≤ 1 &&
    g.words.all fun word => !word.isEmpty

def Given.add (g : Given) (flag : Flag) (value : String) : Given :=
  { g with flags := g.flags ++ [(flag, value)] }

inductive Word where
  /-- Two dashes alone. -/
  | dashes
  /-- An option by its long name, and the value after an equals sign. -/
  | long (name : String) (value : Option String)
  /-- Options by their short names. -/
  | short (names : List Char)
  | plain (text : String)

/-- What a word is. A single dash is no option. -/
def Word.of (text : String) : Word :=
  match text.toList with
  | ['-', '-'] => .dashes
  | '-' :: '-' :: name =>
    match name.dropWhile (· != '=') with
    | '=' :: value =>
      .long (String.ofList (name.takeWhile (· != '='))) (some (String.ofList value))
    | _ => .long (String.ofList name) none
  | '-' :: c :: names => .short (c :: names)
  | _ => .plain text

/-- Why the words of a command line are not taken as they are. -/
inductive Stop where
  | help
  | misuse

/-- Why reading stops where help is asked for: what was wrong before counts first. -/
def Given.askHelp (g : Given) : Stop := if g.isSound then .help else .misuse

/-- Reads options by their short names. -/
def collectShort (g : Given) : List Char → Except Stop Given
  | [] => .ok g
  | c :: more =>
    if c == 'h' then .error g.askHelp
    else if c == 'v' && !g.has .verbose then collectShort (g.add .verbose "") more
    else .error .misuse

/-- Reads words while they may be options of `allowed`. Unless `wordsToo`, reading stops at the
first word that is none. -/
def collect (allowed : List Flag) (wordsToo : Bool) (g : Given) :
    List String → Except Stop (Given × List String)
  | [] => .ok (g, [])
  | text :: more =>
    match Word.of text with
    | .dashes =>
      if wordsToo then .ok ({ g with words := g.words ++ more }, []) else .error .misuse
    | .plain text =>
      if wordsToo then collect allowed wordsToo { g with words := g.words ++ [text] } more
      else .ok (g, text :: more)
    | .short names =>
      match collectShort g names with
      | .ok g => collect allowed wordsToo g more
      | .error stop => .error stop
    | .long name value =>
      if name = "help" && value.isNone then .error g.askHelp
      else
        match Flag.ofName? name with
        | none => .error .misuse
        | some flag =>
          if flag ∉ allowed || (g.has flag && flag != .category) then .error .misuse
          else if flag.takesValue then
            match value, more with
            | some value, more => collect allowed wordsToo (g.add flag value) more
            | none, next :: more =>
              match Word.of next with
              | .plain value => collect allowed wordsToo (g.add flag value) more
              | _ => .error .misuse
            | none, [] => .error .misuse
          else if value.isSome then .error .misuse
          else collect allowed wordsToo (g.add flag "") more

/-! ## Values -/

def need (value : Option α) : Except Stop α :=
  match value with
  | some a => .ok a
  | none => .error .misuse

/-- A path that is not empty. -/
def path? (text : String) : Option String := if text.isEmpty then none else some text

def optionalValue (g : Given) (flag : Flag) (read : String → Option α) : Except Stop (Option α) :=
  match g.value? flag with
  | none => .ok none
  | some text => some <$> need (read text)

/-- The only word, which is a path. -/
def onlyFile (g : Given) : Except Stop String :=
  match g.words with
  | [file] => need (path? file)
  | _ => .error .misuse

/-- The source that the options of a timeline or a tally name. -/
def eventSource (g : Given) : Except Stop EventSource := do
  return { file := ← onlyFile g, hooks := ← optionalValue g .hooks path?, live := g.has .live }

def categories (g : Given) : Except Stop (List Category) :=
  (g.flags.filter (·.1 == .category)).mapM fun given => need (Category.parse given.2)

def common : List Flag := [.config, .verbose, .format]

/-- A command's own options, and how it is read. -/
def command? : String → Option (List Flag × (Given → Except Stop Command))
  | "timeline" =>
    some ([.hooks, .live, .category], fun g => do
      return .timeline (← eventSource g) (← categories g))
  | "tally" => some ([.hooks, .live], fun g => do return .tally (← eventSource g))
  | "threads" => some ([], fun g => do return .threads (← onlyFile g))
  | "inspect" => some ([], fun g => do return .inspect (← onlyFile g))
  | _ => none

/-- Whether help can be had on this: on nothing else, on a command, or on help itself. -/
def isTopic : List String → Bool
  | [] => true
  | [name] => name = "help" || (command? name).isSome
  | _ => false

/-- The invocation that a command line asks for. A configuration file named after the command counts
before one named in front of it. -/
def invocation (words : List String) : Except Stop Invocation := do
  let (front, rest) ← collect [.config, .verbose] false {} words
  let frontConfig ← optionalValue front .config path?
  match rest with
  | [] => .error .misuse
  | "help" :: topic => .error (if isTopic topic then .help else .misuse)
  | name :: rest =>
    let (own, read) ← need (command? name)
    let (g, _) ← collect (own ++ common) true {} rest
    let command ← read g
    let format ← optionalValue g .format Form.ofTag?
    let config ← optionalValue g .config path?
    return { command, format, config := config.or frontConfig }

/-- What a command line asks for; none if it is misused. -/
def parse (words : List String) : Option Arguments :=
  match invocation words with
  | .ok i => some (.run i)
  | .error .help => some .help
  | .error .misuse => none

end Arguments

end Chronicle
