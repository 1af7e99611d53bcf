/-!
# Decimal numerals

An integer is written as an optional minus sign and its decimal digits. Both directions
share one limit : a numeral has at most `digitLimit` digits. `readInt?` reads such a
numeral, `intDigits?` writes one, and each answers `none` beyond the limit.
-/

namespace TagTemplate

/-- The most digits a numeral may have, leading zeros counted and the sign not. -/
def digitLimit : Nat := 4300

/-- A text of one or more decimal digits. -/
def isDigits (s : List Char) : Bool :=
  !s.isEmpty && s.all Char.isDigit

/-- The sign and the rest of a numeral : whether it opens with a minus sign. -/
def splitSign : List Char → Bool × List Char
  | '-' :: s => (true, s)
  | s => (false, s)

/-- The integer with the given sign and magnitude. -/
def signed (negative : Bool) (n : Nat) : Int :=
  if negative then -(n : Int) else n

/-- The integer that sign and digits denote, within the limit. -/
def readInt? (negative : Bool) (digits : List Char) : Option Int :=
  if digits.length ≤ digitLimit then some (signed negative (Nat.ofDigitChars 10 digits 0))
  else none

/-- The numeral of an integer, however long. -/
def intDigits (n : Int) : List Char :=
  if n < 0 then '-' :: Nat.toDigits 10 n.natAbs else Nat.toDigits 10 n.natAbs

/-- The numeral of an integer, within the limit. -/
def intDigits? (n : Int) : Option (List Char) :=
  if n.natAbs < Nat.pow 10 digitLimit then some (intDigits n) else none

end TagTemplate
