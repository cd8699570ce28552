import Chronicle.Decimal.Numeral
import Chronicle.Json.Basic
import Chronicle.Text.Blank
import Chronicle.Time.Calendar

/-!
# Timestamps

A timestamp is a number of seconds from the start of 1970, or missing. Any binary64 number can
stand in its place; only those that are finite and greater than zero are known times.

* `Timestamp.ofJson`: seconds, milliseconds, or a date and time.
* `Timestamp.known`: the timestamp if it is a known time.
* `Timestamp.compare`: missing timestamps come last.
* `Timestamp.elapsedMillis`: whole milliseconds between two known times.
* `Timestamp.clock`: the time of day.
-/

namespace Chronicle

/-- Seconds from the start of 1970, if told. -/
abbrev Timestamp := Option Binary64

namespace Timestamp

/-- Ten to the eleventh: greater numbers are milliseconds. -/
def millisBound : Binary64 := ⟨0x42374876E8000000⟩

/-- A number of seconds, given in seconds or in milliseconds. -/
def seconds (x : Binary64) : Binary64 :=
  if !x.isNaN && millisBound.orderKey < x.orderKey then .ofFloat (x.toFloat / 1000) else x

/-- The seconds of a text: a numeral, or a date and time. -/
def ofText (text : String) : Timestamp :=
  let cs := Text.trim text.toList
  match Decimal.numeral? cs with
  | some x => some (seconds x)
  | none => (Time.Moment.parse cs).map fun m => .ofFloat (Float.ofInt m.epochMillis / 1000)

/-- The timestamp that a value tells; most values tell none. -/
def ofJson : Json → Timestamp
  | .number n => some (seconds n.toBinary64)
  | .text s => ofText s
  | _ => none

/-- A number as a value; null for a missing timestamp and for one that JSON cannot write. -/
def toJson : Timestamp → Json
  | some x => .ofBinary64 x
  | none => .null

/-! ## Order -/

/-- The timestamp if it is a known time. -/
def known (t : Timestamp) : Timestamp :=
  t.filter fun x => x.isFinite && x.isPositive

/-- By the total order of binary64, missing timestamps last. -/
protected def compare : Timestamp → Timestamp → Ordering
  | some x, some y => x.compare y
  | some _, none => .lt
  | none, some _ => .gt
  | none, none => .eq

/-! ## Durations and clock -/

/-- The greatest natural number of 64 bits. -/
def maxMillis : Nat := 0xFFFFFFFFFFFFFFFF

/-- Whole milliseconds in a number of seconds, halves upward; zero for a negative number, and at
most what 64 bits hold. -/
def wholeMillis (seconds : Float) : Nat :=
  let millis := Binary64.ofFloat (seconds * 1000)
  if millis.isNegative || millis.isNaN then 0
  else if millis.isFinite then min millis.exact.round maxMillis
  else maxMillis

/-- Whole milliseconds from one known time to another, none if either is unknown. -/
def elapsedMillis (started finished : Timestamp) : Option Nat := do
  let s ← started.known
  let f ← finished.known
  return wholeMillis (f.toFloat - s.toFloat)

/-- The last millisecond that the calendar can show. -/
def lastMilli : Nat := 8210266876799999

def twoDigits (n : Nat) : List Char :=
  [Nat.digitChar (n / 10 % 10), Nat.digitChar (n % 10)]

/-- What a clock shows for a time that it cannot show. -/
def noClock : String := "--:--:--"

/-- Hours, minutes and seconds in universal time. -/
def clock (t : Timestamp) : String :=
  match t.known with
  | none => noClock
  | some x =>
    let millis := wholeMillis x.toFloat
    if millis ≤ lastMilli then
      let s := millis / 1000
      String.ofList (twoDigits (s / 3600 % 24) ++ ':' :: twoDigits (s / 60 % 60) ++
        ':' :: twoDigits (s % 60))
    else noClock

end Timestamp

end Chronicle
