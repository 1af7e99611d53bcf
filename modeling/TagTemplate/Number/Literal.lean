import TagTemplate.Number.Binary64
import TagTemplate.Text.Digit

/-!
# Floating-point literals

`Binary64.ofLiteral?` reads a number as people write it : an optional sign, digits with an
optional point, single underscores between digits, and an optional exponent, or one of the
words for infinity and for not a number in any case, with blanks around it. The digits may be
those of any script (`numeralBody`).
-/

namespace TagTemplate

/-- The blanks that may surround a number : all but the separators of records and units. -/
def isNumeralBlank (c : Char) : Bool :=
  isBlank c && !(0x1C ≤ c.toNat && c.toNat ≤ 0x1F)

/-- A numeral without the blanks around it, and in ASCII digits. -/
def numeralBody (s : Text) : Text :=
  ((s.dropWhile isNumeralBlank).reverse.dropWhile isNumeralBlank).reverse.map asciiDigit

namespace Binary64

/-- Digits without the single underscores between them, if that is all the text holds. -/
def plainDigits? : Text → Option Text
  | [] => some []
  | [c] => if c.isDigit then some [c] else none
  | c :: '_' :: d :: s =>
    if c.isDigit && d.isDigit then (plainDigits? (d :: s)).map (c :: ·) else none
  | c :: s => if c.isDigit then (plainDigits? s).map (c :: ·) else none

/-- The sign of a literal, and the rest. -/
def literalSign : Text → Bool × Text
  | '-' :: s => (true, s)
  | '+' :: s => (false, s)
  | s => (false, s)

/-- The number that digits, a point among them and an exponent denote. -/
def ofParts? (negative : Bool) (mantissa exponent : Text) : Option Binary64 := do
  let whole ← plainDigits? (mantissa.takeWhile (· != '.'))
  let fraction ← plainDigits? ((mantissa.dropWhile (· != '.')).drop 1)
  let (negativeExponent, exponent) := literalSign exponent
  let power ← plainDigits? exponent
  if whole.isEmpty && fraction.isEmpty then none
  else
    let scale := signed negativeExponent (Nat.ofDigitChars 10 power 0)
    some (ofDecimal negative (Nat.ofDigitChars 10 (whole ++ fraction) 0)
      (scale - fraction.length))

/-- The number that a literal denotes. -/
def ofLiteral? (s : Text) : Option Binary64 :=
  let (negative, s) := literalSign (numeralBody s)
  let s := s.map lowerAscii
  if s = "inf".toList ∨ s = "infinity".toList then some (.infinite negative)
  else if s = "nan".toList then some .nan
  else
    match s.dropWhile (· != 'e') with
    | [] => ofParts? negative s ['0']
    | _ :: exponent =>
      if (literalSign exponent).2.isEmpty then none
      else ofParts? negative (s.takeWhile (· != 'e')) exponent

end Binary64

end TagTemplate
