import TagTemplate.Json.Reader
import TagTemplate.Number.Literal
import TagTemplate.Text.Base64
import TagTemplate.Text.LowerCase
import TagTemplate.Yaml.Fault

/-!
# YAML scalars

Every node has a tag, which says what it stands for. A plain scalar without a tag of its own
gets one from the way it is written (`Tag.ofPlain`) : it may stand for the absent value, a
truth value, a number or a timestamp, and else it is a text. A line feed at its end does not
count there. Integers may be binary, octal, hexadecimal or in base sixty, and underscores
between their digits do not count.
`scalarValue` is the value that a tag gives to a text.
-/

namespace TagTemplate

namespace Yaml

/-! ## Tags -/

/-- What a node stands for. -/
inductive Tag where
  /-- The absent value. -/
  | null
  /-- A truth value. -/
  | bool
  /-- An integer. -/
  | int
  /-- A floating-point number. -/
  | float
  /-- A timestamp. -/
  | timestamp
  /-- Bytes. -/
  | binary
  /-- A text. -/
  | text
  /-- The key whose mapping is merged into the one around it. -/
  | merge
  /-- The key of the value that stands for a whole mapping. -/
  | default
  /-- A list. -/
  | sequence
  /-- A mapping. -/
  | mapping
  /-- A set. -/
  | set
  /-- A list of pairs. -/
  | pairs
  /-- Nothing that is known. -/
  | unknown
deriving Repr, DecidableEq

/-- What every tag in common use begins with. -/
def commonTags : Text := "tag:yaml.org,2002:".toList

/-- The tags in common use, without their beginning. -/
def tagNames : List (String × Tag) :=
  [("null", .null), ("bool", .bool), ("int", .int), ("float", .float),
    ("timestamp", .timestamp), ("binary", .binary), ("str", .text), ("merge", .merge),
    ("value", .default), ("seq", .sequence), ("map", .mapping), ("set", .set), ("omap", .pairs),
    ("pairs", .pairs)]

/-- The tag that is written in full. -/
def Tag.ofText (s : Text) : Tag :=
  if commonTags.isPrefixOf s then
    ((tagNames.find? fun p => p.1.toList = s.drop commonTags.length).map Prod.snd).getD .unknown
  else .unknown

/-- Whether a tag is one of a value with parts. -/
def Tag.isCollection : Tag → Bool
  | sequence | mapping | set | pairs => true
  | _ => false

/-! ## Integers as they are written -/

/-- Digits of a class, or underscores, at least one. -/
def isRun (p : Char → Bool) (s : Text) : Bool :=
  !s.isEmpty && s.all fun c => p c || c == '_'

/-- A scalar without its sign. -/
def unsignedPart : Text → Text
  | '-' :: s => s
  | '+' :: s => s
  | s => s

/-- One or two digits below sixty. -/
def isSexagesimalDigit : Text → Bool
  | [c] => c.isDigit
  | [c, d] => '0' ≤ c && c ≤ '5' && d.isDigit
  | _ => false

/-- The pieces of a text between colons; `piece` is the current one, in reverse. -/
def colonPieces (piece : Text) : Text → List Text
  | [] => [piece.reverse]
  | ':' :: s => piece.reverse :: colonPieces [] s
  | c :: s => colonPieces (c :: piece) s

/-- Whether a text is an integer in base sixty, without its sign. -/
def isSexagesimal (s : Text) : Bool :=
  match colonPieces [] s with
  | first :: second :: rest =>
    isRun Char.isDigit first && first.head? != some '0' && first.head? != some '_' &&
      (second :: rest).all isSexagesimalDigit
  | _ => false

/-- Whether a text is an integer, without its sign. -/
def isIntPart : Text → Bool
  | '0' :: 'b' :: s => isRun (fun c => c == '0' || c == '1') s
  | '0' :: 'x' :: s => isRun (fun c => (Json.hexDigit? c).isSome) s
  | ['0'] => true
  | '0' :: s => isRun (fun c => '0' ≤ c && c ≤ '7') s
  | '_' :: _ => false
  | s => isRun Char.isDigit s || isSexagesimal s

/-! ## Floating-point numbers as they are written -/

/-- Whether a text is the exponent of a floating-point number, or nothing. -/
def isExponentPart : Text → Bool
  | [] => true
  | e :: sign :: s => (e == 'e' || e == 'E') && (sign == '-' || sign == '+') && isDigits s
  | _ => false

/-- Whether a text is a floating-point number. -/
def isFloat (s : Text) : Bool :=
  let body := unsignedPart s
  let digits := body.takeWhile fun c => c.isDigit || c == '_'
  if [".inf", ".Inf", ".INF"].any fun w => w.toList = body then true
  else if [".nan", ".NaN", ".NAN"].any fun w => w.toList = s then true
  else
    match body.drop digits.length with
    | '.' :: r =>
      let fraction := r.takeWhile fun c => c.isDigit || c == '_'
      isExponentPart (r.drop fraction.length) &&
        (digits.head?.any Char.isDigit ||
          (digits.isEmpty && fraction.head?.any Char.isDigit && body.length == s.length))
    | ':' :: _ =>
      let minutes := body.takeWhile (· != '.')
      let fraction := (body.drop minutes.length).drop 1
      minutes.length < body.length && digits.head?.any Char.isDigit &&
        ((colonPieces [] minutes).drop 1).all isSexagesimalDigit &&
        fraction.all fun c => c.isDigit || c == '_'
    | _ => false

/-! ## Timestamps as they are written -/

/-- The digits at the head of a text, at most `most` of them, and what follows. -/
def digitsUpTo (most : Nat) (s : Text) : Text × Text :=
  let digits := (s.take most).takeWhile Char.isDigit
  (digits, s.drop digits.length)

/-- The number that digits denote. -/
def natOf (digits : Text) : Nat :=
  Nat.ofDigitChars 10 digits 0

/-- The number of one or two digits at the head of a text, whether it has two, and what
follows. -/
def shortNumber? (s : Text) : Option (Nat × Bool × Text) :=
  match digitsUpTo 2 s with
  | ([], _) => none
  | (digits, rest) => some (natOf digits, digits.length = 2, rest)

/-- The number of two digits after a character, and what follows. -/
def twoDigitsAfter? (mark : Char) (s : Text) : Option (Nat × Text) :=
  match s with
  | c :: rest =>
    if c = mark then
      match shortNumber? rest with
      | some (n, true, rest) => some (n, rest)
      | _ => none
    else none
  | [] => none

/-- The distance from universal time at the end of a timestamp : none, the letter `Z`, or a
sign with hours and perhaps minutes. -/
def offset? (s : Text) : Option (Option Int) :=
  if s.isEmpty then some none
  else
    match s.dropWhile fun c => c == ' ' || c == '\t' with
    | ['Z'] => some (some 0)
    | sign :: rest => do
      guard (sign = '+' ∨ sign = '-')
      let (hours, _, rest) ← shortNumber? rest
      let minutes ← if rest.isEmpty then some 0 else
        match twoDigitsAfter? ':' rest with
        | some (minutes, []) => some minutes
        | _ => none
      return some (signed (sign = '-') (hours * 60 + minutes))
    | [] => none

/-- The millionths that the digits after a point denote; those beyond the sixth do not
count. -/
def micros (digits : Text) : Nat :=
  let digits := digits.take 6
  natOf (digits ++ List.replicate (6 - digits.length) '0')

/-- The time of day at the end of a timestamp. -/
def clock? (s : Text) : Option Clock := do
  let (hour, _, rest) ← shortNumber? s
  let (minute, rest) ← twoDigitsAfter? ':' rest
  let (second, rest) ← twoDigitsAfter? ':' rest
  let (fraction, rest) := match rest with
    | '.' :: rest => (rest.takeWhile Char.isDigit, rest.dropWhile Char.isDigit)
    | rest => ([], rest)
  return ⟨hour, minute, second, micros fraction, ← offset? rest⟩

/-- A timestamp whose parts may be out of their ranges, and whether its month and its day have
two digits each. -/
def timestampParts? (s : Text) : Option (Timestamp × Bool) := do
  let (year, rest) := digitsUpTo 4 s
  guard (year.length = 4)
  guard (rest.head? = some '-')
  let (month, monthIsWide, rest) ← shortNumber? (rest.drop 1)
  guard (rest.head? = some '-')
  let (day, dayIsWide, rest) ← shortNumber? (rest.drop 1)
  let date : Date := ⟨natOf year, month, day⟩
  let isWide := monthIsWide && dayIsWide
  match rest with
  | [] => return (⟨date, none⟩, isWide)
  | c :: rest =>
    guard (c = 'T' ∨ c = 't' ∨ c = ' ' ∨ c = '\t')
    let rest := if c = 'T' ∨ c = 't' then rest
      else rest.dropWhile fun c => c == ' ' || c == '\t'
    return (⟨date, some (← clock? rest)⟩, isWide)

/-- Whether a plain scalar is a timestamp : a day alone has two digits for its month and two
for the day of it. -/
def isTimestamp (s : Text) : Bool :=
  match timestampParts? s with
  | some (t, isWide) => t.clock.isSome || isWide
  | none => false

/-! ## Plain scalars -/

/-- A text without the line feed at its end, unless it is nothing else. -/
def withoutLastBreak (s : Text) : Text :=
  if 1 < s.length ∧ s.getLast? = some '\n' then s.dropLast else s

/-- The words for truth values. -/
def truthWords : List String :=
  ["yes", "Yes", "YES", "no", "No", "NO", "true", "True", "TRUE", "false", "False", "FALSE", "on",
    "On", "ON", "off", "Off", "OFF"]

/-- The tag of a plain scalar. The marks of tags, anchors and aliases are none themselves, and no
tag that is known is theirs. -/
def Tag.ofPlain (written : Text) : Tag :=
  let s := withoutLastBreak written
  if ["", "~", "null", "Null", "NULL"].any fun w => w.toList = s then .null
  else if truthWords.any fun w => w.toList = s then .bool
  else if isFloat s then .float
  else if isIntPart (unsignedPart s) then .int
  else if isTimestamp s then .timestamp
  else if s = ['<', '<'] then .merge
  else if s = ['='] then .default
  else if s ∈ [['!'], ['&'], ['*']] then .unknown
  else .text

/-! ## Values of scalars -/

/-- The characters that mark a base after a zero. -/
def baseMark? : Nat → Option Char
  | 2 => some 'b'
  | 8 => some 'o'
  | 16 => some 'x'
  | _ => none

/-- Digits without the mark of their base. -/
def withoutBaseMark (base : Nat) (s : Text) : Text :=
  match s with
  | '0' :: c :: rest => if baseMark? base = some (lowerAscii c) then rest else s
  | _ => s

/-- The number that digits in a base denote. -/
def ofDigitsIn (base : Nat) (s : Text) : Nat :=
  s.foldl (fun n c => base * n + (Json.hexDigit? c).getD 0) 0

/-- The integer that a text denotes in a base, with blanks around it, a sign and perhaps the
mark of the base. A numeral in base ten has a limit on its digits. -/
def integerIn (base : Nat) (written : Text) : Except Fault Int :=
  let (negative, s) := Binary64.literalSign (numeralBody written)
  let digits := withoutBaseMark base s
  let run := digits.takeWhile fun c => (Json.hexDigit? c).any (· < base)
  if base = 10 ∧ digitLimit < run.length then .error (.numeralTooLong run.length)
  else if run.isEmpty ∨ run.length < digits.length then .error (.notInteger base written)
  else .ok (signed negative (ofDigitsIn base run))

/-- The sign of a number and what follows it, without underscores. -/
def signAndBody (s : Text) : Except Fault (Bool × Text) :=
  match s.filter (· != '_') with
  | [] => .error .noDigits
  | '-' :: body => .ok (true, body)
  | '+' :: body => .ok (false, body)
  | body => .ok (false, body)

/-- The value of an integer scalar. -/
def intValue (s : Text) : Except Fault Int := do
  let (negative, body) ← signAndBody s
  let n ← match body with
    | [] => .error .noDigits
    | '0' :: 'b' :: digits => integerIn 2 digits
    | '0' :: 'x' :: digits => integerIn 16 digits
    | ['0'] => .ok 0
    | '0' :: _ => integerIn 8 body
    | _ =>
      if ':' ∈ body then do
        let digits ← (colonPieces [] body).mapM (integerIn 10)
        .ok (digits.foldl (fun n d => 60 * n + d) 0)
      else integerIn 10 body
  return if negative then -n else n

/-- The floating-point number that a text denotes. -/
def numberOf (written : Text) : Except Fault Binary64 :=
  match Binary64.ofLiteral? written with
  | some x => .ok x
  | none => .error (.notNumber written)

/-- The sum of numbers in base sixty, the least first; `base` is the place of the first. -/
def sexagesimalSum (base : Nat) (sum : Binary64) : List Binary64 → Except Fault Binary64
  | [] => .ok sum
  | x :: rest =>
    match Binary64.ofInt base with
    | .infinite _ => .error .integerTooLarge
    | b => sexagesimalSum (base * 60) (sum.add (x.mul b)) rest

/-- Whether a floating-point scalar is the word for not a number. -/
def isNotANumberWord (s : Text) : Bool :=
  match signAndBody (lowered s) with
  | .ok (_, body) => body = ".nan".toList
  | .error _ => false

/-- The value of a floating-point scalar. -/
def floatValue (s : Text) : Except Fault Binary64 := do
  let (negative, body) ← signAndBody (lowered s)
  let x ← if body = ".inf".toList then .ok (.infinite false)
    else if body = ".nan".toList then .ok .nan
    else if ':' ∈ body then do
      let digits ← (colonPieces [] body).mapM numberOf
      sexagesimalSum 1 (.ofInt 0) digits.reverse
    else numberOf body
  return if negative then x.negate else x

/-- The value of a truth word. -/
def boolValue (s : Text) : Except Fault Bool :=
  let word := lowered s
  if ["yes", "true", "on"].any fun w => w.toList = word then .ok true
  else if ["no", "false", "off"].any fun w => w.toList = word then .ok false
  else .error (.notTruth word)

/-- The value of a timestamp, whose parts have to be in their ranges. -/
def timestampValue (s : Text) : Except Fault Timestamp :=
  match timestampParts? (withoutLastBreak s) with
  | none => .error .notTimestamp
  | some (t, _) =>
    let offset := (t.clock.bind Clock.offset).getD 0
    if 1440 ≤ offset.natAbs then .error (.offsetOutOfRange offset)
    else if t.date.year = 0 then .error (.yearOutOfRange t.date.year)
    else if t.date.month = 0 ∨ 12 < t.date.month then .error .monthOutOfRange
    else if t.date.day = 0 ∨ Date.daysInMonth t.date.year t.date.month < t.date.day then
      .error .dayOutOfRange
    else if t.clock.any fun c => 24 ≤ c.hour then .error .hourOutOfRange
    else if t.clock.any fun c => 60 ≤ c.minute then .error .minuteOutOfRange
    else if t.clock.any fun c => 60 ≤ c.second then .error .secondOutOfRange
    else .ok t

/-- The value of bytes. -/
def binaryValue (s : Text) : Except Fault (List UInt8) :=
  if s.all fun c => c.toNat < 128 then (Base64.decode? s).elim (.error .malformed) .ok
  else .error .malformed

/-- The value that a tag gives to a text; `mark` is that of the object it becomes. -/
def scalarValue (mark : Nat) (tag : Tag) (s : Text) : Except Fault Value :=
  match tag with
  | .null => .ok .null
  | .bool => (boolValue s).map .bool
  | .int => (intValue s).map .int
  | .float => (floatValue s).map .float
  | .timestamp => (timestampValue s).map (.timestamp mark)
  | .binary => (binaryValue s).map .bytes
  | .text => .ok (.text s)
  | _ => .error .malformed

end Yaml

end TagTemplate
