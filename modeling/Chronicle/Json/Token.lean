import Chronicle.Json.Lexeme

/-!
# Tokens of a JSON text

`Tokens.ofChars` cuts a text into tokens, each with the line it stands on. The tokens of a text that
cannot be read to its end are those before the place where it breaks.

Only space, tab, carriage return and line feed may stand between tokens.
-/

namespace Chronicle.Json

/-- A token. A number beyond the finite numbers and a text with a surrogate left alone have no
value, but they are tokens. -/
inductive Token where
  | openList
  | closeList
  | openRecord
  | closeRecord
  | colon
  | comma
  | null
  | bool (b : Bool)
  | number (value : Option Number)
  | text (value : Option String)

/-- What something that is no token was going to be, by its first character. -/
inductive Opening where
  | null
  | text
  | other
deriving DecidableEq, Repr

/-- Where something in a text is no token. -/
structure Break where
  /-- The line on which it begins. -/
  start : Nat
  /-- The line on which it shows to one who reads it. -/
  shown : Nat
  /-- The line on which it shows to one who passes over it. -/
  passed : Nat
  opening : Opening

namespace Break

/-- A break that begins and shows on one line. -/
def ofLine (line : Nat) : Break := ⟨line, line, line, .other⟩

/-- The line to report where only a name could stand. What does not open a text is not read on. -/
def shownAsName (b : Break) : Nat := if b.opening = .text then b.shown else b.start

/-- The line to report where only a name could stand and would be passed over. -/
def passedAsName (b : Break) : Nat := if b.opening = .text then b.passed else b.start

end Break

/-- The tokens of a text and the way they end. -/
inductive Tokens where
  /-- The text ends on this line. -/
  | ends (line : Nat)
  /-- What follows is no token. -/
  | breaks (b : Break)
  /-- A token on this line, and the tokens after it. -/
  | token (t : Token) (line : Nat) (rest : Tokens)

namespace Tokens

/-- The line of the first token or of the end. -/
def line : Tokens → Nat
  | ends line => line
  | breaks b => b.start
  | token _ line _ => line

def size : Tokens → Nat
  | ends _ => 0
  | breaks _ => 0
  | token _ _ rest => rest.size + 1

end Tokens

/-! ## Cutting -/

/-- What the last characters were part of. -/
inductive Mode where
  /-- No token is under way. -/
  | between
  /-- A word of which these letters are still to come. -/
  | word (letters : List Char) (token : Token)
  | number (lexeme : NumberLexeme)
  | text (lexeme : TextLexeme)

/-- The outcome of one character. -/
inductive Step where
  /-- Go on in this mode. -/
  | go (mode : Mode)
  /-- A token is complete; go on in this mode. -/
  | emit (token : Token) (mode : Mode)
  /-- Two tokens are complete, the second of one character. -/
  | emitTwo (first second : Token)
  /-- A token is complete and nothing can follow it. -/
  | emitBreak (token : Token)
  /-- The text breaks here. -/
  | broken

def isSpace (c : Char) : Bool :=
  c == ' ' || c == '\t' || c == '\n' || c == '\r'

def mark? (c : Char) : Option Token :=
  if c == '[' then some .openList
  else if c == ']' then some .closeList
  else if c == '{' then some .openRecord
  else if c == '}' then some .closeRecord
  else if c == ':' then some .colon
  else if c == ',' then some .comma
  else none

/-- The mode that the first character of a longer token opens. -/
def open? (c : Char) : Option Mode :=
  if c == '\x22' then some (.text {})
  else if c == 'n' then some (.word ['u', 'l', 'l'] .null)
  else if c == 't' then some (.word ['r', 'u', 'e'] (.bool true))
  else if c == 'f' then some (.word ['a', 'l', 's', 'e'] (.bool false))
  else (NumberLexeme.begin? c).map .number

/-- A character where no token is under way. -/
def stepBetween (c : Char) : Step :=
  if isSpace c then .go .between
  else
    match mark? c, open? c with
    | some t, _ => .emit t .between
    | none, some mode => .go mode
    | none, none => .broken

/-- A character right after the end of a number. -/
def stepAfter (t : Token) (c : Char) : Step :=
  match stepBetween c with
  | .go mode => .emit t mode
  | .emit second _ => .emitTwo t second
  | _ => .emitBreak t

def Mode.step : Mode → Char → Step
  | .between, c => stepBetween c
  | .word [] t, c => stepAfter t c
  | .word [l] t, c => if c == l then .emit t .between else .broken
  | .word (l :: ls) t, c => if c == l then .go (.word ls t) else .broken
  | .number n, c =>
    match n.extend c with
    | some n => .go (.number n)
    | none => if n.complete then stepAfter (.number n.value?) c else .broken
  | .text t, c =>
    match t.step c with
    | .more t => .go (.text t)
    | .done s => .emit (.text s) .between
    | .broken => .broken

def lineAfter (c : Char) (line : Nat) : Nat :=
  if c == '\n' then line + 1 else line

/-- The break of a token that began on line `start`, with line `next` after what breaks it. In a
quoted text a surrogate that was left alone shows first, but not to one who passes over the text,
who stops in front of a control and behind a wrong escape. -/
def Mode.broken (start next : Nat) : Mode → Break
  | .text t =>
    { start, opening := .text
      shown := if t.paired then next else start
      passed := if t.escape = .none then start else next }
  | .word _ .null => ⟨start, next, next, .null⟩
  | _ => ⟨start, next, next, .other⟩

/-- What the end of the text leaves of a token under way, which began on line `start`. -/
def Mode.finish (start line : Nat) : Mode → Tokens
  | .between => .ends line
  | .word [] t => .token t start (.ends line)
  | .word (l :: ls) t => .breaks ((Mode.word (l :: ls) t).broken start line)
  | .number n =>
    if n.complete then .token (.number n.value?) start (.ends line)
    else .breaks ((Mode.number n).broken start line)
  | .text t => .breaks ((Mode.text t).broken start line)

/-- Cuts characters into tokens. `line` is the line of the next character, `start` that of the token
under way. A break shows once the character that makes it has been read. -/
def cut (mode : Mode) (start line : Nat) : List Char → Tokens
  | [] => mode.finish start line
  | c :: cs =>
    let next := lineAfter c line
    match mode.step c with
    | .go .between => cut .between next next cs
    | .go mode' => cut mode' (if mode matches .between then line else start) next cs
    | .emit t mode' =>
      .token t (if mode matches .between then line else start) (cut mode' line next cs)
    | .emitTwo t u => .token t start (.token u line (cut .between next next cs))
    | .emitBreak t => .token t start (.breaks ⟨line, next, next, .other⟩)
    | .broken => .breaks (mode.broken (if mode matches .between then line else start) next)

/-- The tokens of a text, whose first line is line 1. -/
def Tokens.ofChars (cs : List Char) : Tokens := cut .between 1 1 cs

end Chronicle.Json
