import TagTemplate.Text.Blank

/-!
# Timestamps

A day of the calendar, or a moment of such a day, with or without the distance of its clock
from universal time. `Timestamp.text` writes one in its usual form, the parts from the
largest to the smallest, and `Timestamp.literal` as the call that makes it. Two moments with
such distances are the same if universal time is (`Timestamp.same`); one without is never the
same as one with it.
-/

namespace TagTemplate

/-- A day. -/
structure Date where
  /-- The year, from 1 to 9999. -/
  year : Nat
  /-- The month, from 1. -/
  month : Nat
  /-- The day of the month, from 1. -/
  day : Nat
deriving Repr, DecidableEq

/-- A time of day. -/
structure Clock where
  /-- The hour. -/
  hour : Nat
  /-- The minute. -/
  minute : Nat
  /-- The second. -/
  second : Nat
  /-- The millionths of a second. -/
  micros : Nat
  /-- How many minutes the clock is ahead of universal time, if that is known. -/
  offset : Option Int
deriving Repr, DecidableEq

/-- A day, or a moment of it. -/
structure Timestamp where
  /-- The day. -/
  date : Date
  /-- The time of day. -/
  clock : Option Clock
deriving Repr, DecidableEq

namespace Date

/-- Whether a year has a leap day. -/
def isLeapYear (year : Nat) : Bool :=
  year % 4 == 0 && (year % 100 != 0 || year % 400 == 0)

/-- The number of days of a month. -/
def daysInMonth (year month : Nat) : Nat :=
  if month = 2 then (if isLeapYear year then 29 else 28)
  else if month ∈ [4, 6, 9, 11] then 30
  else 31

/-- The number of days of all years before a year. -/
def daysBefore (year : Nat) : Nat :=
  let n := year - 1
  365 * n + n / 4 - n / 100 + n / 400

/-- The number of a day, counted from the first day of the year 1. -/
def number (d : Date) : Nat :=
  let months := (List.range (d.month - 1)).map fun m => daysInMonth d.year (m + 1)
  daysBefore d.year + months.foldr (· + ·) 0 + (d.day - 1)

end Date

/-- The decimal digits of a number, padded with zeros. -/
def paddedDigits (width n : Nat) : Text :=
  let digits := Nat.toDigits 10 n
  List.replicate (width - digits.length) '0' ++ digits

/-- A day as it is written. -/
def Date.text (d : Date) : Text :=
  paddedDigits 4 d.year ++ '-' :: paddedDigits 2 d.month ++ '-' :: paddedDigits 2 d.day

namespace Clock

/-- The distance from universal time as it is written. -/
def offsetText (minutes : Int) : Text :=
  (if minutes < 0 then '-' else '+') :: paddedDigits 2 (minutes.natAbs / 60) ++
    ':' :: paddedDigits 2 (minutes.natAbs % 60)

/-- A time of day as it is written. The millionths are left out if there are none. -/
def text (c : Clock) : Text :=
  paddedDigits 2 c.hour ++ ':' :: paddedDigits 2 c.minute ++ ':' :: paddedDigits 2 c.second ++
    (if c.micros = 0 then [] else '.' :: paddedDigits 6 c.micros) ++
    (c.offset.map offsetText).getD []

/-- The hour and the minute, and what follows them : the second and the millionths are left out
where they and all after them are none. -/
def parts (c : Clock) : List Nat :=
  if c.micros ≠ 0 then [c.hour, c.minute, c.second, c.micros]
  else if c.second ≠ 0 then [c.hour, c.minute, c.second]
  else [c.hour, c.minute]

/-- A distance from universal time as the call that makes it, in whole days and the seconds
after them. -/
def offsetLiteral (minutes : Int) : Text :=
  let days := minutes / 1440
  let seconds := minutes % 1440 * 60
  let units := (if days = 0 then [] else [s!"days={days}"]) ++
    (if seconds = 0 then [] else [s!"seconds={seconds}"])
  let delta := ", ".intercalate units
  if minutes = 0 then "datetime.timezone.utc".toList
  else s!"datetime.timezone(datetime.timedelta({delta}))".toList

/-- The millionths of a second that have passed since the day began. -/
def elapsed (c : Clock) : Nat :=
  ((c.hour * 60 + c.minute) * 60 + c.second) * 1000000 + c.micros

end Clock

namespace Timestamp

/-- A timestamp as it is written : the day, a space and the time of day. -/
def text (t : Timestamp) : Text :=
  match t.clock with
  | none => t.date.text
  | some c => t.date.text ++ ' ' :: c.text

/-- A timestamp as the call that makes it. -/
def literal (t : Timestamp) : Text :=
  let day := [t.date.year, t.date.month, t.date.day]
  let call (name : String) (numbers : List Nat) (rest : Text) : Text :=
    let listed := ", ".intercalate (numbers.map toString)
    s!"datetime.{name}({listed}".toList ++ rest ++ [')']
  match t.clock with
  | none => call "date" day []
  | some c =>
    call "datetime" (day ++ c.parts)
      ((c.offset.map fun m => ", tzinfo=".toList ++ Clock.offsetLiteral m).getD [])

/-- The millionths of a second between the beginning of the calendar and a moment, where its
own clock stands at the beginning of the day for a whole day. -/
def instant (t : Timestamp) : Int :=
  match t.clock with
  | none => t.date.number * 86400000000
  | some c => t.date.number * 86400000000 + c.elapsed - c.offset.getD 0 * 60000000

/-- Whether two timestamps are the same. -/
def same (s t : Timestamp) : Bool :=
  let known (t : Timestamp) : Option Bool := t.clock.map fun c => c.offset.isSome
  known s == known t && s.instant == t.instant

end Timestamp

end TagTemplate
