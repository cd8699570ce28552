/-!
# Dates and times of day

`Moment.parse` reads a date and a time with an offset in the Internet format, and
`Moment.epochMillis` counts the milliseconds from the start of 1970 to it.

* The date and the time are separated by a `T` in either case or by a space.
* The offset is a `Z` in either case, or a sign, hours and minutes. The minus may be the
  mathematical one.
* The second may be 60 in any minute and is then the first second of the next.
* The fraction may have any number of digits, of which three count.
-/

namespace Chronicle.Time

/-- A date and time of day with an offset from universal time. -/
structure Moment where
  year : Nat
  month : Nat
  day : Nat
  hour : Nat
  minute : Nat
  second : Nat
  milli : Nat
  /-- Minutes by which the clock is ahead of universal time. -/
  offset : Int
deriving DecidableEq, Repr

namespace Moment

/-! ## Calendar -/

/-- A leap year of the Gregorian calendar, extended to all years. -/
def isLeap (year : Nat) : Bool :=
  year % 4 == 0 && (year % 100 != 0 || year % 400 == 0)

def daysIn (year month : Nat) : Nat :=
  if month == 2 then (if isLeap year then 29 else 28)
  else if month == 4 || month == 6 || month == 9 || month == 11 then 30
  else 31

/-- Days before a month of a year, in that year. -/
def daysBeforeMonth (year month : Nat) : Nat :=
  (List.range (month - 1)).foldl (fun days m => days + daysIn year (m + 1)) 0

/-- Days before a year, from the start of the year 0. -/
def daysBeforeYear (year : Nat) : Nat :=
  365 * year + (year + 3) / 4 - (year + 99) / 100 + (year + 399) / 400

/-- Days from the start of 1970; negative for earlier dates. -/
def epochDay (m : Moment) : Int :=
  (daysBeforeYear m.year + daysBeforeMonth m.year m.month + (m.day - 1) : Nat) -
    (daysBeforeYear 1970 : Nat)

/-- Milliseconds from the start of 1970 in universal time. -/
def epochMillis (m : Moment) : Int :=
  let minutes : Int := m.epochDay * 1440 + m.hour * 60 + m.minute - m.offset
  (minutes * 60 + m.second) * 1000 + m.milli

/-- Whether the date exists and the clock can show the time. -/
def isReal (m : Moment) : Bool :=
  1 ≤ m.month && m.month ≤ 12 && 1 ≤ m.day && m.day ≤ daysIn m.year m.month && m.hour ≤ 23 &&
    m.minute ≤ 59 && m.second ≤ 60

/-! ## Reading -/

/-- A number of exactly `count` digits, and the rest. -/
def digits? : (count : Nat) → (value : Nat) → List Char → Option (Nat × List Char)
  | 0, value, cs => some (value, cs)
  | count + 1, value, c :: cs =>
    if c.isDigit then digits? count (value * 10 + (c.toNat - '0'.toNat)) cs else none
  | _ + 1, _, [] => none

/-- What follows a character of the class. -/
def after? (holds : Char → Bool) : List Char → Option (List Char)
  | c :: cs => if holds c then some cs else none
  | [] => none

/-- The milliseconds of a fraction, cut and not rounded. -/
def milliOf (digits : List Char) : Nat :=
  ((digits ++ ['0', '0', '0']).take 3).foldl (fun n c => n * 10 + (c.toNat - '0'.toNat)) 0

/-- A point and at least one digit, or nothing. -/
def fraction? : List Char → Option (Nat × List Char)
  | '.' :: cs =>
    let digits := cs.takeWhile Char.isDigit
    if digits.isEmpty then none else some (milliOf digits, cs.dropWhile Char.isDigit)
  | cs => some (0, cs)

/-- Minutes ahead of universal time, which must be all that is left. -/
def offset? : List Char → Option Int
  | [] => none
  | c :: cs =>
    if c == 'Z' || c == 'z' then (if cs.isEmpty then some 0 else none)
    else if c == '+' || c == '-' || c == '−' then do
      let (hours, cs) ← digits? 2 0 cs
      let cs ← after? (· == ':') cs
      let (minutes, cs) ← digits? 2 0 cs
      if hours ≤ 23 && minutes ≤ 59 && cs.isEmpty then
        let size : Int := hours * 60 + minutes
        some (if c == '+' then size else -size)
      else none
    else none

def parse (cs : List Char) : Option Moment := do
  let (year, cs) ← digits? 4 0 cs
  let cs ← after? (· == '-') cs
  let (month, cs) ← digits? 2 0 cs
  let cs ← after? (· == '-') cs
  let (day, cs) ← digits? 2 0 cs
  let cs ← after? (fun c => c == 'T' || c == 't' || c == ' ') cs
  let (hour, cs) ← digits? 2 0 cs
  let cs ← after? (· == ':') cs
  let (minute, cs) ← digits? 2 0 cs
  let cs ← after? (· == ':') cs
  let (second, cs) ← digits? 2 0 cs
  let (milli, cs) ← fraction? cs
  let offset ← offset? cs
  let m : Moment := { year, month, day, hour, minute, second, milli, offset }
  if m.isReal then some m else none

end Moment

end Chronicle.Time
