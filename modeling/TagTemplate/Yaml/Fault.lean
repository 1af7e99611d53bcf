import TagTemplate.Fault

/-!
# Faults in YAML

A text that is not well formed is one thing; a well-formed scalar whose tag promises a value
that it does not have is another. `Yaml.Fault.escaping?` is the fault that the second kind
leaves the reader with.
-/

namespace TagTemplate

namespace Yaml

/-- Why a text is not read. -/
inductive Fault where
  /-- It is not YAML, or it uses a tag for what the tag is not for. -/
  | malformed
  /-- An integer has too many digits. -/
  | numeralTooLong (digits : Nat)
  /-- A text is no integer in a base. -/
  | notInteger (base : Nat) (written : Text)
  /-- A text is no floating-point number. -/
  | notNumber (written : Text)
  /-- A number has no digits at all. -/
  | noDigits
  /-- A power of sixty is beyond every floating-point number. -/
  | integerTooLarge
  /-- A word is no truth value. -/
  | notTruth (word : Text)
  /-- A text is no timestamp. -/
  | notTimestamp
  /-- A timestamp has parts instead of a text. -/
  | partsNotText
  /-- A year is not in the calendar. -/
  | yearOutOfRange (year : Nat)
  /-- A month is not in a year. -/
  | monthOutOfRange
  /-- A day is not in its month. -/
  | dayOutOfRange
  /-- An hour is not in a day. -/
  | hourOutOfRange
  /-- A minute is not in an hour. -/
  | minuteOutOfRange
  /-- A second is not in a minute. -/
  | secondOutOfRange
  /-- A clock is a day or more away from universal time. -/
  | offsetOutOfRange (minutes : Int)
  /-- An escape is beyond the last character. -/
  | noCharacter (code : Nat)
deriving Repr, DecidableEq

namespace Fault

/-- A number of minutes as whole days and the seconds after them. -/
def durationText (minutes : Int) : String :=
  let days := Int.fdiv minutes 1440
  let seconds := Int.fmod minutes 1440 * 60
  let parts := (if days = 0 then [] else [s!"days={days}"]) ++
    (if seconds = 0 then [] else [s!"seconds={seconds}"])
  let joined := String.intercalate ", " parts
  s!"datetime.timedelta({joined})"

/-- The wording of the fault of an offset. -/
def offsetText (minutes : Int) : String :=
  "offset must be a timedelta strictly between -timedelta(hours=24) and timedelta(hours=24), " ++
    s!"not {durationText minutes}."

/-- The most characters that are shown of a text that is no integer. -/
def shownLimit : Nat := 200

/-- The fault that leaves the reader, unless the text is just not well formed. -/
def escaping? : Fault → Option TagTemplate.Fault
  | malformed => none
  | numeralTooLong n => some (.numeralTooLong n)
  | notInteger base s =>
    let shown := (quoted s).take shownLimit
    some (.raised .value (s!"invalid literal for int() with base {base}: ".toList ++ shown))
  | notNumber s =>
    some (.raised .value ("could not convert string to float: ".toList ++ quoted s))
  | noDigits => some (.raised .index "string index out of range".toList)
  | integerTooLarge => some .integerTooLarge
  | notTruth word => some (.missingKey word)
  | notTimestamp =>
    some (.raised .attribute "'NoneType' object has no attribute 'groupdict'".toList)
  | partsNotText => some (.notText "list")
  | yearOutOfRange y => some (.raised .value s!"year {y} is out of range".toList)
  | monthOutOfRange => some (.raised .value "month must be in 1..12".toList)
  | dayOutOfRange => some (.raised .value "day is out of range for month".toList)
  | hourOutOfRange => some (.raised .value "hour must be in 0..23".toList)
  | minuteOutOfRange => some (.raised .value "minute must be in 0..59".toList)
  | secondOutOfRange => some (.raised .value "second must be in 0..59".toList)
  | offsetOutOfRange minutes => some (.raised .value (offsetText minutes).toList)
  | noCharacter code =>
    if code < Nat.pow 2 31 then some (.raised .value "chr() arg not in range(0x110000)".toList)
    else some (.raised .overflow "Python int too large to convert to C int".toList)

end Fault

end Yaml

end TagTemplate
