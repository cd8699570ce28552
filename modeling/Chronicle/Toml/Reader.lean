import Chronicle.Decimal.Numeral
import Chronicle.Time.Calendar
import Chronicle.Toml.Table

/-!
# Reading TOML

`Toml.parse` gives the entries of a document, or nothing for a text that is none.

The readers take what stands at the start of a text and give it with the rest of the text. Values
may be nested in at most 79 lists and inline tables, and a dotted key has at most 79 parts.
-/

namespace Chronicle.Toml

/-- The least nesting, and the least number of parts of a key, that is refused. -/
def nestingLimit : Nat := 80

/-! ## Space and ends of lines -/

/-- A space or a tab. -/
def isGap (c : Char) : Bool := c == ' ' || c == '\t'

def dropGap (cs : List Char) : List Char := cs.dropWhile isGap

/-- A character that may stand in a comment or in a quoted text of one line: no control but the
tab. -/
def isPlain (c : Char) : Bool := c == '\t' || (0x20 ≤ c.toNat && c.toNat != 0x7F)

/-- What follows a line feed, with or without a carriage return before it. -/
def afterNewline? : List Char → Option (List Char)
  | '\n' :: cs => some cs
  | '\r' :: '\n' :: cs => some cs
  | _ => none

def dropComment : List Char → List Char
  | '#' :: cs => cs.dropWhile isPlain
  | cs => cs

/-- What follows the rest of a line that holds nothing more but a comment. -/
def afterLine? (cs : List Char) : Option (List Char) :=
  match dropComment (dropGap cs) with
  | [] => some []
  | cs => afterNewline? cs

/-- The text after gaps, comments and ends of lines, of which there are at most `steps`. -/
def dropLines : (steps : Nat) → List Char → List Char
  | 0, cs => cs
  | steps + 1, cs =>
    let cs := dropGap cs
    match afterNewline? (dropComment cs) with
    | some rest => dropLines steps rest
    | none => cs

/-! ## Texts -/

/-- The character of a code point, if it is one. -/
def charOf? (n : Nat) : Option Char :=
  if n.isValidChar then some (Char.ofNat n) else none

def hexValue? (c : Char) : Option Nat :=
  if c.isDigit then some (c.toNat - '0'.toNat)
  else if 'a' ≤ c && c ≤ 'f' then some (c.toNat - 'a'.toNat + 10)
  else if 'A' ≤ c && c ≤ 'F' then some (c.toNat - 'A'.toNat + 10)
  else none

/-- A number of exactly `count` hexadecimal digits. -/
def hexDigits? : (count value : Nat) → List Char → Option (Nat × List Char)
  | 0, value, cs => some (value, cs)
  | count + 1, value, c :: cs =>
    (hexValue? c).bind fun d => hexDigits? count (value * 16 + d) cs
  | _ + 1, _, [] => none

/-- What follows a backslash. -/
def escape? : List Char → Option (Char × List Char)
  | 'b' :: cs => some ('\x08', cs)
  | 't' :: cs => some ('\t', cs)
  | 'n' :: cs => some ('\n', cs)
  | 'f' :: cs => some ('\x0c', cs)
  | 'r' :: cs => some ('\r', cs)
  | '\x22' :: cs => some ('\x22', cs)
  | '\\' :: cs => some ('\\', cs)
  | 'u' :: cs => do
    let (n, cs) ← hexDigits? 4 0 cs
    return (← charOf? n, cs)
  | 'U' :: cs => do
    let (n, cs) ← hexDigits? 8 0 cs
    return (← charOf? n, cs)
  | _ => none

/-- The rest of a text in double quotes, after `done` in reverse. -/
def basicText : (steps : Nat) → (done : List Char) → List Char → Option (String × List Char)
  | steps + 1, done, c :: cs =>
    if c == '\x22' then some (String.ofList done.reverse, cs)
    else if c == '\\' then do
      let (e, cs) ← escape? cs
      basicText steps (e :: done) cs
    else if isPlain c then basicText steps (c :: done) cs
    else none
  | _, _, _ => none

def singleQuote : Char := Char.ofNat 39

/-- The rest of a text in single quotes. -/
def literalText (cs : List Char) : Option (String × List Char) :=
  match cs.dropWhile fun c => isPlain c && c != singleQuote with
  | c :: rest =>
    if c == singleQuote then
      some (String.ofList (cs.takeWhile fun c => isPlain c && c != singleQuote), rest)
    else none
  | [] => none

/-- The quotes at the start of a text of several lines: the text ends if there are three or more, of
which up to two more than three belong to it. -/
def closing? (quote : Char) (cs : List Char) : Option (List Char × List Char) :=
  let count := (cs.takeWhile (· == quote)).length
  if 3 ≤ count then some (List.replicate (min (count - 3) 2) quote, cs.drop (min count 5)) else none

/-- The text after gaps and ends of lines, of which there are at most `steps`. -/
def dropEmptyLines : (steps : Nat) → List Char → List Char
  | 0, cs => cs
  | steps + 1, cs =>
    let cs := dropGap cs
    match afterNewline? cs with
    | some rest => dropEmptyLines steps rest
    | none => cs

/-- The rest of a text of several lines, with escapes or without. A backslash at the end of a line
joins the text with what follows the gap. -/
def longText (quote : Char) (escapes : Bool) :
    (steps : Nat) → (done : List Char) → List Char → Option (String × List Char)
  | steps + 1, done, c :: cs =>
    match closing? quote (c :: cs), afterNewline? (c :: cs) with
    | some (quotes, rest), _ => some (String.ofList (done.reverse ++ quotes), rest)
    | none, some rest => longText quote escapes steps ('\n' :: done) rest
    | none, none =>
      if escapes && c == '\\' then
        match afterNewline? (dropGap cs) with
        | some rest => longText quote escapes steps done (dropEmptyLines rest.length rest)
        | none => do
          let (e, cs) ← escape? cs
          longText quote escapes steps (e :: done) cs
      else if isPlain c then longText quote escapes steps (c :: done) cs
      else none
  | _, _, _ => none

/-- The text after an end of line that it begins with, if it does. -/
def dropFirstNewline (cs : List Char) : List Char := (afterNewline? cs).getD cs

/-- Three quotes at the start of a text. -/
def afterThree? (quote : Char) (cs : List Char) : Option (List Char) :=
  if List.isPrefixOf [quote, quote, quote] cs then some (cs.drop 3) else none

/-- A quoted text of any of the four kinds. -/
def quoted? (cs : List Char) : Option (String × List Char) :=
  match cs with
  | c :: rest =>
    if c == '\x22' || c == singleQuote then
      match afterThree? c cs with
      | some body => longText c (c == '\x22') body.length [] (dropFirstNewline body)
      | none => if c == '\x22' then basicText rest.length [] rest else literalText rest
    else none
  | [] => none

/-! ## Keys -/

/-- A character of a key without quotes. -/
def isBare (c : Char) : Bool := c.isAlphanum || c == '_' || c == '-'

def keyPart? (cs : List Char) : Option (String × List Char) :=
  match cs with
  | c :: rest =>
    if c == '\x22' then basicText rest.length [] rest
    else if c == singleQuote then literalText rest
    else
      let name := cs.takeWhile isBare
      if name.isEmpty then none else some (String.ofList name, cs.dropWhile isBare)
  | [] => none

/-- The parts of a key between points, of which there are at most `steps`, with any gaps around
them. -/
def keyParts? : (steps : Nat) → List Char → Option (List String × List Char)
  | 0, _ => none
  | steps + 1, cs => do
    let (part, cs) ← keyPart? (dropGap cs)
    match dropGap cs with
    | '.' :: cs => do
      let (parts, cs) ← keyParts? steps cs
      return (part :: parts, cs)
    | cs => return ([part], cs)

/-- A key as the path to its table and its last part. -/
def key? (cs : List Char) : Option ((List String × String) × List Char) := do
  let (parts, cs) ← keyParts? (nestingLimit - 1) cs
  let last ← parts.getLast?
  return ((parts.dropLast, last), cs)

/-! ## Numbers and dates -/

/-- Digits of a class, between which single underscores may stand; at most `steps` of them. -/
def digitRun? (holds : Char → Bool) : (steps : Nat) → List Char → Option (List Char × List Char)
  | 0, _ => none
  | steps + 1, c :: cs =>
    if holds c then
      let next :=
        match cs with
        | '_' :: d :: rest => if holds d then d :: rest else cs
        | cs => cs
      match digitRun? holds steps next with
      | some (more, rest) => some (c :: more, rest)
      | none => some ([c], cs)
    else none
  | _ + 1, [] => none

/-- A sign, if there is one: whether it is a minus, and the rest. -/
def sign (cs : List Char) : Bool × List Char := Decimal.splitSign cs

/-- The digits of a decimal integer: zero, or digits of which the first is not zero. -/
def wholeDigits? (cs : List Char) : Option (List Char × List Char) :=
  match cs with
  | '0' :: rest => some (['0'], rest)
  | cs => digitRun? Char.isDigit cs.length cs

def valueIn (base : Nat) (digits : List Char) : Nat :=
  digits.foldl (fun n c => n * base + (hexValue? c).getD 0) 0

/-- An integer of 64 bits with a sign. -/
def fit? (n : Int) : Option Toml :=
  if -0x8000000000000000 ≤ n && n < 0x8000000000000000 then some (.int n) else none

/-- An integer in base sixteen, eight or two, after its mark. -/
def basedInt? : List Char → Option (Toml × List Char)
  | '0' :: mark :: cs => do
    let (base, holds) ←
      if mark == 'x' then some (16, fun c => (hexValue? c).isSome)
      else if mark == 'o' then some (8, fun c => '0' ≤ c && c ≤ '7')
      else if mark == 'b' then some (2, fun c => c == '0' || c == '1')
      else none
    let (digits, rest) ← digitRun? holds cs.length cs
    return (← fit? (valueIn base digits), rest)
  | _ => none

def decimalInt? (cs : List Char) : Option (Toml × List Char) := do
  let (negative, cs) := sign cs
  let (digits, cs) ← wholeDigits? cs
  let size : Int := valueIn 10 digits
  return (← fit? (if negative then -size else size), cs)

def fraction? : List Char → Option (List Char × List Char)
  | '.' :: cs => digitRun? Char.isDigit cs.length cs
  | _ => none

def exponent? : List Char → Option (Int × List Char)
  | c :: cs =>
    if c == 'e' || c == 'E' then do
      let (negative, cs) := sign cs
      let (digits, cs) ← digitRun? Char.isDigit cs.length cs
      let size : Int := valueIn 10 digits
      return (if negative then -size else size, cs)
    else none
  | [] => none

/-- A number with a fraction or an exponent, or one of the words for infinity and NaN. Positive
numbers have to be finite. -/
def float? (cs : List Char) : Option (Toml × List Char) := do
  let (negative, cs) := sign cs
  if List.isPrefixOf ['i', 'n', 'f'] cs || List.isPrefixOf ['n', 'a', 'n'] cs then
    return (.float, cs.drop 3)
  let (whole, cs) ← wholeDigits? cs
  let (fraction, cs, fractionGiven) :=
    match fraction? cs with
    | some (digits, cs) => (digits, cs, true)
    | none => ([], cs, false)
  let (exponent, cs, exponentGiven) :=
    match exponent? cs with
    | some (e, cs) => (e, cs, true)
    | none => (0, cs, false)
  if !fractionGiven && !exponentGiven then none
  else
    let size := Decimal.nearest (valueIn 10 (whole ++ fraction)) (exponent - fraction.length)
    if size.isFinite || negative then return (.float, cs) else none

open Time.Moment in
def calendarDate? (cs : List Char) : Option (List Char) := do
  let (year, cs) ← digits? 4 0 cs
  let cs ← after? (· == '-') cs
  let (month, cs) ← digits? 2 0 cs
  let cs ← after? (· == '-') cs
  let (day, cs) ← digits? 2 0 cs
  if 1 ≤ month && month ≤ 12 && 1 ≤ day && day ≤ daysIn year month then return cs else none

open Time.Moment in
def timeOfDay? (cs : List Char) : Option (List Char) := do
  let (hour, cs) ← digits? 2 0 cs
  let cs ← after? (· == ':') cs
  let (minute, cs) ← digits? 2 0 cs
  let cs ← after? (· == ':') cs
  let (second, cs) ← digits? 2 0 cs
  if 23 < hour || 59 < minute || 60 < second then none
  else
    match Time.Moment.fraction? cs with
    | some (_, cs) => return cs
    | none => return cs

open Time.Moment in
/-- The text after an offset from universal time, if it begins with one. -/
def dropOffset (cs : List Char) : List Char :=
  match cs with
  | 'Z' :: cs => cs
  | 'z' :: cs => cs
  | c :: rest =>
    if c == '+' || c == '-' then
      (do
        let (hours, rest) ← digits? 2 0 rest
        let rest ← after? (· == ':') rest
        let (minutes, rest) ← digits? 2 0 rest
        if hours ≤ 23 && minutes ≤ 59 then some rest else none).getD cs
    else cs
  | [] => []

/-- A date, a time, or a date with a time. -/
def date? (cs : List Char) : Option (Toml × List Char) :=
  match calendarDate? cs with
  | some rest =>
    match rest with
    | c :: later =>
      if c == 'T' || c == 't' || c == ' ' then
        match timeOfDay? later with
        | some rest => some (.date, dropOffset rest)
        | none => some (.date, rest)
      else some (.date, rest)
    | [] => some (.date, [])
  | none => (timeOfDay? cs).map (Toml.date, ·)

def number? (cs : List Char) : Option (Toml × List Char) :=
  (date? cs).or ((float? cs).or ((basedInt? cs).or (decimalInt? cs)))

/-! ## Values -/

def word? (word : String) (value : Toml) (cs : List Char) : Option (Toml × List Char) :=
  if word.toList.isPrefixOf cs then some (value, cs.drop word.length) else none

def afterChar? (expected : Char) : List Char → Option (List Char)
  | c :: cs => if c == expected then some cs else none
  | [] => none

mutual

/-- A value inside `depth` lists and inline tables. -/
def value? (depth : Nat) : (steps : Nat) → List Char → Option (Toml × List Char)
  | 0, _ => none
  | _, [] => none
  | steps + 1, c :: cs =>
    if c == '\x22' || c == singleQuote then (quoted? (c :: cs)).map fun (s, cs) => (.text s, cs)
    else if c == '[' then
      if nestingLimit ≤ depth + 1 then none
      else (items? (depth + 1) steps (dropLines cs.length cs)).map fun (vs, cs) => (.list vs, cs)
    else if c == '\x7b' then
      if nestingLimit ≤ depth + 1 then none
      else
        match dropGap cs with
        | '\x7d' :: cs => some (.inline [], cs)
        | cs => (pairs? (depth + 1) steps [] cs).map fun (es, cs) => (.inline es, cs)
    else if c == 't' then word? "true" (.bool true) (c :: cs)
    else if c == 'f' then word? "false" (.bool false) (c :: cs)
    else if c == 'i' then word? "inf" .float (c :: cs)
    else if c == 'n' then word? "nan" .float (c :: cs)
    else if c.isDigit || c == '+' || c == '-' then number? (c :: cs)
    else none

/-- The items of a list and its closing bracket. A comma may stand after the last item. -/
def items? (depth : Nat) : (steps : Nat) → List Char → Option (List Toml × List Char)
  | 0, _ => none
  | steps + 1, cs =>
    match cs with
    | ']' :: cs => some ([], cs)
    | cs => do
      let (v, cs) ← value? depth steps cs
      match dropLines cs.length cs with
      | ',' :: cs => do
        let (vs, cs) ← items? depth steps (dropLines cs.length cs)
        return (v :: vs, cs)
      | ']' :: cs => return ([v], cs)
      | _ => none

/-- The pairs of an inline table and its closing brace. -/
def pairs? (depth : Nat) : (steps : Nat) → Entries → List Char → Option (Entries × List Char)
  | 0, _, _ => none
  | steps + 1, done, cs => do
    let ((path, last), cs) ← key? cs
    let cs ← afterChar? '=' cs
    let (v, cs) ← value? depth steps (dropGap cs)
    let done ← Entries.define path last v done
    match dropGap cs with
    | ',' :: cs => pairs? depth steps done cs
    | '\x7d' :: cs => return (done, cs)
    | _ => none

end

/-! ## Documents -/

/-- A document as far as it has been read. -/
structure Progress where
  entries : Entries
  /-- The table that keys go to: the path to it, and its own key. -/
  current : Option (List String × String)

def Progress.define (p : Progress) (path : List String) (key : String) (value : Toml) :
    Option Progress := do
  let entries ←
    match p.current with
    | none => p.entries.define path key value
    | some (owner, name) =>
      p.entries.descend false (fun _ inner => inner.define path key value) (owner ++ [name]) false
  return { p with entries }

/-- A line that is not blank: a header or a pair. -/
def line? (p : Progress) (cs : List Char) : Option (Progress × List Char) :=
  match cs with
  | '[' :: '[' :: cs => do
    let ((path, last), cs) ← key? cs
    let cs ← afterChar? ']' cs
    let cs ← afterChar? ']' cs
    let cs ← afterLine? cs
    return (⟨← p.entries.append path last, some (path, last)⟩, cs)
  | '[' :: cs => do
    let ((path, last), cs) ← key? cs
    let cs ← afterChar? ']' cs
    let cs ← afterLine? cs
    return (⟨← p.entries.enter path last, some (path, last)⟩, cs)
  | cs => do
    let ((path, last), cs) ← key? cs
    let cs ← afterChar? '=' cs
    let (v, cs) ← value? 0 (cs.length + 1) (dropGap cs)
    let cs ← afterLine? cs
    return (← p.define path last v, cs)

/-- The lines of a document, of which there are at most `steps`. -/
def lines? : (steps : Nat) → Progress → List Char → Option Entries
  | 0, _, _ => none
  | steps + 1, p, cs =>
    match dropLines cs.length cs with
    | [] => some p.entries
    | cs =>
      if (dropComment cs).isEmpty then some p.entries
      else
        match line? p cs with
        | some (p, cs) => lines? steps p cs
        | none => none

/-- The entries of a document, which may begin with a byte order mark. -/
def parse (text : String) : Option Entries :=
  let cs :=
    match text.toList with
    | c :: cs => if c.toNat == 0xFEFF then cs else c :: cs
    | [] => []
  lines? (cs.length + 1) ⟨[], none⟩ cs

end Chronicle.Toml
