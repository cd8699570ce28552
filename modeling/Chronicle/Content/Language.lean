import Chronicle.Content.Shape
import Chronicle.Text.Pattern

/-!
# Language of a text

An advisory guess at the language that a text is written in: the first language of a fixed list
whose signature the text shows, and plain text if none does.

* `Language.rustSignature` and so on: the pattern of a language that one pattern tells.
* `Language.shows`: whether a text shows a language.
* `Language.guess`: the guess.
-/

namespace Chronicle.Content

open Text Text.Pattern

/-- The languages that are told apart. -/
inductive Language where
  | diff
  | json
  | rust
  | typeScript
  | python
  | go
  | sql
  | html
  | css
  | bash
  | toml
  | yaml
  | plainText
deriving DecidableEq, Repr

namespace Language

def label : Language → String
  | diff => "diff"
  | json => "json"
  | rust => "rust"
  | typeScript => "typescript"
  | python => "python"
  | go => "go"
  | sql => "sql"
  | html => "html"
  | css => "css"
  | bash => "bash"
  | toml => "toml"
  | yaml => "yaml"
  | plainText => "text"

def tag : Language → String
  | typeScript => "type_script"
  | plainText => "plain_text"
  | other => other.label

/-! ## Signatures -/

def isSmall (c : Char) : Bool := 'a' ≤ c && c ≤ 'z'

def isLetter (c : Char) : Bool := c.isAlpha

/-- Anything but these characters. -/
def except (chars : String) : Char → Bool := fun c => !among chars c

/-- A word character or one of these. -/
def wordOr (chars : String) : Char → Bool := fun c => isWord c || among chars c

/-- Any characters up to the end of the line, at least one. -/
def onLine : Pattern := some1 (except "\n")

/-- Parentheses around characters of a class that holds no closing one. -/
def inParens (content : Pattern) : Pattern := word "(" ++ content ++ word ")"

/-- An item with an optional visibility, a mutable binding or borrow, a derive attribute, or a
`use` of a path. -/
def rustSignature : Pattern :=
  oneOf [
    lineStart ++ blanks ++
      optional (word "pub" ++ optional (inParens (some1 isSmall)) ++ blanks1) ++
      optional (word "async" ++ blanks1) ++ oneOf [word "fn", word "impl", word "trait"] ++
      blanks1 ++ name,
    boundary ++ word "let" ++ blanks1 ++ word "mut" ++ blank,
    word "&mut" ++ blanks1 ++ one isWord,
    word "#[derive(",
    lineStart ++ blanks ++ word "use" ++ blanks1 ++ name ++ word "::"]

/-- An interface or type, an import from a quoted module, a binding with a type, or a colon before
a primitive type. -/
def typeScriptSignature : Pattern :=
  oneOf [
    lineStart ++ blanks ++ optional (word "export" ++ blanks1) ++
      oneOf [word "interface", word "type"] ++ blanks1 ++ name ++ blanks ++
      optional (word "<" ++ many (except ">") ++ word ">") ++ blanks ++ one (among "=\x7b"),
    lineStart ++ blanks ++ word "import" ++ blank ++ onLine ++ blank ++ word "from" ++ blanks1 ++
      one (among "\x22\x27"),
    boundary ++ oneOf [word "const", word "let"] ++ blanks1 ++ name ++ blanks ++ word ":" ++
      blanks ++ one isLetter,
    word ":" ++ blanks ++ oneOf [word "string", word "number", word "boolean", word "void"] ++
      boundary]

/-- A function or class with its colon, either form of import, an attribute of `self`, or the test
for the main module. -/
def pythonSignature : Pattern :=
  oneOf [
    lineStart ++ blanks ++ optional (word "async" ++ blanks1) ++ word "def" ++ blanks1 ++ name ++
      blanks ++ word "(",
    lineStart ++ blanks ++ word "from" ++ blanks1 ++ some1 (wordOr ".") ++ blanks1 ++
      word "import" ++ blank,
    lineStart ++ blanks ++ word "import" ++ blanks1 ++ some1 (wordOr ".") ++
      optional (blanks1 ++ word "as" ++ blanks1 ++ name) ++ blanks ++ lineEnd,
    lineStart ++ blanks ++ word "class" ++ blanks1 ++ name ++
      optional (inParens (many (except ")"))) ++ blanks ++ word ":",
    boundary ++ word "self." ++ name,
    word "if" ++ blanks1 ++ word "__name__" ++ blanks ++ word "=="]

/-- A package clause, a function with an optional receiver, or a call into `fmt`. -/
def goSignature : Pattern :=
  oneOf [
    lineStart ++ word "package" ++ blanks1 ++ name ++ blanks ++ lineEnd,
    lineStart ++ blanks ++ word "func" ++ blanks1 ++
      optional (inParens (many (except ")")) ++ blanks) ++ name ++ blanks ++ word "(",
    boundary ++ word "fmt." ++ name ++ word "("]

/-- A statement in either case at the start of a line. -/
def sqlSignature : Pattern :=
  lineStart ++ blanks ++ oneOf [
    anyCase "SELECT" ++ blanks1 ++ onLine ++ blanks1 ++ anyCase "FROM" ++ blank,
    anyCase "INSERT" ++ blanks1 ++ anyCase "INTO" ++ blank,
    anyCase "UPDATE" ++ blanks1 ++ name ++ blanks1 ++ anyCase "SET" ++ blank,
    anyCase "DELETE" ++ blanks1 ++ anyCase "FROM" ++ blank,
    anyCase "CREATE" ++ blanks1 ++ optional (anyCase "UNIQUE" ++ blanks1) ++
      oneOf [anyCase "TABLE", anyCase "INDEX", anyCase "VIEW"] ++ blank,
    anyCase "ALTER" ++ blanks1 ++ anyCase "TABLE" ++ blank,
    anyCase "DROP" ++ blanks1 ++ anyCase "TABLE" ++ blank]

def elements : List String :=
  ["div", "span", "body", "head", "p", "a", "ul", "ol", "li", "section", "script", "table", "tr",
    "td", "button", "form", "input", "img", "svg"]

/-- A document type, the root element, or the tag of a common element. -/
def htmlSignature : Pattern :=
  oneOf [
    anyCase "<!DOCTYPE" ++ blanks1 ++ anyCase "html",
    anyCase "<html" ++ oneOf [blank, word ">"],
    word "<" ++ optional (word "/") ++ oneOf (elements.map anyCase) ++
      optional (blank ++ many (except ">")) ++ optional (word "/") ++ word ">"]

/-- A selector and a first declaration inside its braces. -/
def cssSignature : Pattern :=
  lineStart ++ blanks ++ optional (one (among ".#")) ++
    one (fun c => isLetter c || c == '*') ++ many (wordOr "-.#:[]=\x22 >+~,()") ++ word "\x7b" ++
    blanks ++ optional (word "\n") ++ blanks ++ some1 (wordOr "-") ++ blanks ++ word ":" ++
    blanks ++ some1 (except ";\x7b\x7d\n") ++ word ";"

def commands : List String :=
  ["sudo", "cd", "ls", "echo", "export", "cargo", "npm", "npx", "pnpm", "yarn", "git", "grep",
    "mkdir", "rm", "cp", "mv", "curl", "wget", "chmod", "brew", "docker", "pip"]

/-- The first line of a script, a prompt, or a common command with an argument. -/
def bashSignature : Pattern :=
  oneOf [
    lineStart ++ word "#!" ++ blanks ++ word "/" ++ optional (word "usr/") ++ word "bin/" ++
      optional (word "env" ++ blanks1) ++
      optional (oneOf [word "ba", word "z", word "da"]) ++ word "sh" ++ boundary,
    lineStart ++ blanks ++ word "$" ++ blanks1 ++ visible,
    lineStart ++ blanks ++ oneOf (commands.map word) ++ blanks1 ++ visible]

/-- A table's header on a line of its own. -/
def tomlHeader : Pattern :=
  lineStart ++ blanks ++ word "[" ++ optional (word "[") ++ some1 (wordOr ".-\x22") ++ word "]" ++
    optional (word "]") ++ blanks ++ lineEnd

def tomlKey : Pattern :=
  lineStart ++ blanks ++ some1 (wordOr ".-\x22") ++ blanks ++ word "=" ++ blanks ++ visible

/-- A line with a key, an item, or the start of a document. -/
def yamlLine : Pattern :=
  oneOf [
    textStart ++ blanks ++ optional (word "-" ++ blanks1) ++ some1 (wordOr "-.\x22\x27") ++
      word ":" ++ oneOf [blank, textEnd],
    textStart ++ blanks ++ word "-" ++ blanks1 ++ visible,
    textStart ++ word "---" ++ blanks ++ textEnd]

def isComment (line : List Char) : Bool := beginsWith "#" (trimStart line)

/-- Two lines or more that are neither blank nor comments, eight tenths of which are YAML's. -/
def looksLikeYaml (text : String) : Bool :=
  let lines := (visibleLines text.toList).filter fun line => !isComment line
  2 ≤ lines.length && isShare 8 (lines.countP yamlLine.occursIn) lines.length

/-! ## The guess -/

def shows (text : String) : Language → Bool
  | diff => isPatch text
  | json => holdsJson text
  | rust => rustSignature.occursIn text.toList
  | typeScript => typeScriptSignature.occursIn text.toList
  | python => pythonSignature.occursIn text.toList
  | go => goSignature.occursIn text.toList
  | sql => sqlSignature.occursIn text.toList
  | html => htmlSignature.occursIn text.toList
  | css => cssSignature.occursIn text.toList
  | bash => bashSignature.occursIn text.toList
  | toml => tomlHeader.occursIn text.toList && tomlKey.occursIn text.toList
  | yaml => looksLikeYaml text
  | plainText => true

/-- The languages in the order in which they are tried. -/
def battery : List Language :=
  [diff, json, rust, typeScript, python, go, sql, html, css, bash, toml, yaml]

/-- The first language that the text shows; a blank text shows none. -/
def guess (text : String) : Language :=
  if allBlank text then plainText else (battery.find? (shows text)).getD plainText

end Language

end Chronicle.Content
