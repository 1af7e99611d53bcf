import TagTemplate.Value

/-!
# Reading JSON

`Json.read` reads a text that is one JSON value between blanks. Numbers with a point or an
exponent are floating-point, all others integers of any size, with an optional limit on
their digits; the words `NaN`, `Infinity` and `-Infinity` are numbers too. A key that occurs
again in an object keeps its first place and takes the last value.
-/

namespace TagTemplate

namespace Json

/-- Why a text is not read. -/
inductive Fault where
  /-- It is not JSON. -/
  | malformed
  /-- It holds an integer with too many digits. -/
  | numeralTooLong (digits : Nat)
deriving Repr, DecidableEq

/-- The blanks between the parts of a JSON text. -/
def isSpace (c : Char) : Bool :=
  c == ' ' || c == '\t' || c == '\n' || c == '\r'

/-- The text without the blanks at its head. -/
def skip (s : Text) : Text :=
  s.dropWhile isSpace

/-! ## Strings -/

/-- The value of a hexadecimal digit. -/
def hexDigit? (c : Char) : Option Nat :=
  if c.isDigit then some (c.toNat - 48)
  else if 'a' ≤ c ∧ c ≤ 'f' then some (c.toNat - 87)
  else if 'A' ≤ c ∧ c ≤ 'F' then some (c.toNat - 55)
  else none

/-- The number of a `\u` escape. -/
def hexEscape? (a b c d : Char) : Option Nat := do
  let a ← hexDigit? a
  let b ← hexDigit? b
  let c ← hexDigit? c
  let d ← hexDigit? d
  return ((a * 16 + b) * 16 + c) * 16 + d

/-- The character that a one-letter escape stands for. -/
def letterEscape? : Char → Option Char
  | '"' => some '"'
  | '\\' => some '\\'
  | '/' => some '/'
  | 'b' => some '\x08'
  | 'f' => some '\x0c'
  | 'n' => some '\n'
  | 'r' => some '\r'
  | 't' => some '\t'
  | _ => none

/-- The code units of a string after its opening quote and what follows its closing quote;
`before` is what was read so far, in reverse. -/
def units? (before : List Nat) : Text → Option (List Nat × Text)
  | '"' :: rest => some (before.reverse, rest)
  | '\\' :: 'u' :: a :: b :: c :: d :: rest =>
    match hexEscape? a b c d with
    | some n => units? (n :: before) rest
    | none => none
  | '\\' :: c :: rest =>
    match letterEscape? c with
    | some e => units? (e.toNat :: before) rest
    | none => none
  | c :: rest => if c < ' ' then none else units? (c.toNat :: before) rest
  | [] => none

/-- The first half of a pair of surrogates. -/
def isHighSurrogate (n : Nat) : Bool :=
  0xD800 ≤ n && n < 0xDC00

/-- The second half of a pair of surrogates. -/
def isLowSurrogate (n : Nat) : Bool :=
  0xDC00 ≤ n && n < 0xE000

/-- The character of a code unit; a surrogate without its other half has none and is
replaced. -/
def unitChar (n : Nat) : Char :=
  if isHighSurrogate n || isLowSurrogate n then '\uFFFD' else Char.ofNat n

/-- The text of code units, with pairs of surrogates joined; `before` is the text so far, in
reverse. -/
def joinUnits (before : Text) : List Nat → Text
  | [] => before.reverse
  | h :: l :: rest =>
    if isHighSurrogate h && isLowSurrogate l then
      joinUnits (Char.ofNat (0x10000 + (h - 0xD800) * 0x400 + (l - 0xDC00)) :: before) rest
    else joinUnits (unitChar h :: before) (l :: rest)
  | [n] => (unitChar n :: before).reverse

/-- The string after its opening quote, and what follows. -/
def string? (s : Text) : Option (Text × Text) :=
  (units? [] s).map fun (us, rest) => (joinUnits [] us, rest)

/-! ## Numbers -/

/-- The fraction of a number without its point, and what follows. -/
def fraction (s : Text) : Text × Text :=
  match s with
  | '.' :: r => if (r.takeWhile Char.isDigit).isEmpty then ([], s)
    else (r.takeWhile Char.isDigit, r.dropWhile Char.isDigit)
  | _ => ([], s)

/-- The exponent of a number, if it has one, and what follows. -/
def exponent (s : Text) : Option Int × Text :=
  match s with
  | c :: r =>
    if c = 'e' ∨ c = 'E' then
      let (negative, digits) := match r with
        | '-' :: r => (true, r)
        | '+' :: r => (false, r)
        | r => (false, r)
      let run := digits.takeWhile Char.isDigit
      if run.isEmpty then (none, s)
      else (some (signed negative (Nat.ofDigitChars 10 run 0)), digits.dropWhile Char.isDigit)
    else (none, s)
  | [] => (none, s)

/-- The number after its sign, and what follows. Digits after a leading zero do not belong to
it. -/
def number (maxDigits : Option Nat) (negative : Bool) (s : Text) : Except Fault (Value × Text) :=
  let run := s.takeWhile Char.isDigit
  let whole := if run.head? = some '0' then ['0'] else run
  if whole.isEmpty then .error .malformed
  else
    let afterWhole := s.drop whole.length
    let (fraction, afterFraction) := fraction afterWhole
    let (exponent, rest) := exponent afterFraction
    if fraction.isEmpty && exponent.isNone then
      if maxDigits.any (· < whole.length) then .error (.numeralTooLong whole.length)
      else .ok (.int (signed negative (Nat.ofDigitChars 10 whole 0)), rest)
    else
      let digits := Nat.ofDigitChars 10 (whole ++ fraction) 0
      .ok (.float (.ofDecimal negative digits (exponent.getD 0 - fraction.length)), rest)

/-! ## Values -/

/-- The words that stand for values. -/
def words : List (String × Value) :=
  [("null", .null), ("true", .bool true), ("false", .bool false), ("NaN", .float .nan),
    ("Infinity", .float (.infinite false)), ("-Infinity", .float (.infinite true))]

/-- The word at the head of a text, and what follows. -/
def word? (s : Text) : Option (Value × Text) :=
  words.findSome? fun (w, v) =>
    if w.toList.isPrefixOf s then some (v, s.drop w.length) else none

mutual

/-- The value at the head of a text, and what follows. Each value in it spends one unit of
`fuel`, of which the length of the text is always enough. -/
def value (maxDigits : Option Nat) : Nat → Text → Except Fault (Value × Text)
  | 0, _ => .error .malformed
  | fuel + 1, s =>
    match s with
    | '"' :: rest =>
      match string? rest with
      | some (t, rest) => .ok (.text t, rest)
      | none => .error .malformed
    | '[' :: rest =>
      match skip rest with
      | ']' :: rest => .ok (.list [], rest)
      | rest => items maxDigits fuel [] rest
    | '{' :: rest =>
      match skip rest with
      | '}' :: rest => .ok (.dict [], rest)
      | rest => members maxDigits fuel [] rest
    | s =>
      match word? s with
      | some found => .ok found
      | none =>
        match s with
        | '-' :: rest => number maxDigits true rest
        | s => number maxDigits false s

/-- The items of an array from a value on; `before` is what was read so far, in reverse. -/
def items (maxDigits : Option Nat) : Nat → List Value → Text → Except Fault (Value × Text)
  | 0, _, _ => .error .malformed
  | fuel + 1, before, s => do
    let (v, rest) ← value maxDigits fuel s
    match skip rest with
    | ',' :: rest => items maxDigits fuel (v :: before) (skip rest)
    | ']' :: rest => return (.list (v :: before).reverse, rest)
    | _ => .error .malformed

/-- The members of an object from a key on; `before` is what was read so far, in reverse. -/
def members (maxDigits : Option Nat) :
    Nat → List (Value × Value) → Text → Except Fault (Value × Text)
  | 0, _, _ => .error .malformed
  | fuel + 1, before, s =>
    match s with
    | '"' :: rest =>
      match string? rest with
      | none => .error .malformed
      | some (key, rest) =>
        match skip rest with
        | ':' :: rest => do
          let (v, rest) ← value maxDigits fuel (skip rest)
          let before := (.text key, v) :: before
          match skip rest with
          | ',' :: rest => members maxDigits fuel before (skip rest)
          | '}' :: rest => return (.dict (Value.ofBindings before.reverse), rest)
          | _ => .error .malformed
        | _ => .error .malformed
    | _ => .error .malformed

end

/-- The value of a JSON text. -/
def read (maxDigits : Option Nat) (s : Text) : Except Fault Value := do
  let (v, rest) ← value maxDigits (s.length + 1) (skip s)
  if (skip rest).isEmpty then return v else .error .malformed

end Json

end TagTemplate
