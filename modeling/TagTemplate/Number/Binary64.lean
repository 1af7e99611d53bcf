import TagTemplate.Number.Numeral

/-!
# Binary floating point

A `Binary64` is a number `m · 2^q` with `m < 2^53` and `-1074 ≤ q ≤ 971`, with a sign, or
an infinity, or not a number. The finite ones are kept in one form : `2^52 ≤ m`, or
`q = -1074`. Every operation works on exact fractions and rounds once, to the nearest
number and of two nearest to the one with even `m` (`ofRatio`).
-/

namespace TagTemplate

/-- A floating-point number of 53 binary digits. -/
inductive Binary64 where
  /-- `mantissa · 2^exponent`, with a sign of its own so that there are two zeros. -/
  | finite (negative : Bool) (mantissa : Nat) (exponent : Int)
  /-- What is too large to be finite. -/
  | infinite (negative : Bool)
  /-- Not a number. -/
  | nan
deriving Repr, DecidableEq

namespace Binary64

/-- The least exponent. -/
def leastExponent : Int := -1074

/-- The greatest exponent. -/
def greatestExponent : Int := 971

/-- `num / den` to the nearest integer, and of two nearest to the even one. -/
def roundDiv (num den : Nat) : Nat :=
  let q := num / den
  let r := num % den
  if 2 * r < den then q
  else if den < 2 * r then q + 1
  else if q % 2 = 0 then q else q + 1

/-- The exponent at which the mantissa of `num / den` has 53 binary digits, or the least
exponent if that is greater. -/
def exponentFor (num den : Nat) : Int :=
  let k : Int := (num.log2 : Int) - (den.log2 : Int)
  let atLeast := if 0 ≤ k then den * Nat.pow 2 k.toNat ≤ num else den ≤ num * Nat.pow 2 (-k).toNat
  max leastExponent (if atLeast then k - 52 else k - 53)

/-- The number nearest to `num / den` with the given sign. -/
def ofRatio (negative : Bool) (num den : Nat) : Binary64 :=
  if num = 0 then .finite negative 0 leastExponent
  else
    let q := exponentFor num den
    let m := if 0 ≤ q then roundDiv num (den * Nat.pow 2 q.toNat)
      else roundDiv (num * Nat.pow 2 (-q).toNat) den
    let (m, q) := if m = Nat.pow 2 53 then (Nat.pow 2 52, q + 1) else (m, q)
    if greatestExponent < q then .infinite negative else .finite negative m q

/-- The number nearest to `n · 10^scale`. Scales so large or so small that the answer does
not depend on the digits are answered without computing the power. -/
def ofDecimal (negative : Bool) (n : Nat) (scale : Int) : Binary64 :=
  let size : Int := (Nat.toDigits 10 n).length
  if n = 0 then .finite negative 0 leastExponent
  else if 310 ≤ size - 1 + scale then .infinite negative
  else if size + scale ≤ -325 then .finite negative 0 leastExponent
  else if 0 ≤ scale then ofRatio negative (n * Nat.pow 10 scale.toNat) 1
  else ofRatio negative n (Nat.pow 10 (-scale).toNat)

/-- The number that digits, a point and more digits denote. -/
def ofNumeral (negative : Bool) (whole fraction : List Char) : Binary64 :=
  ofDecimal negative (Nat.ofDigitChars 10 (whole ++ fraction) 0) (-(fraction.length : Int))

/-- The number nearest to an integer. -/
def ofInt (n : Int) : Binary64 :=
  ofRatio (decide (n < 0)) n.natAbs 1

/-- Whether the number is less than zero or the negative zero; not a number is neither. -/
def isNegative : Binary64 → Bool
  | finite s _ _ => s
  | infinite s => s
  | nan => false

/-- The magnitude of `m · 2^q` as a fraction. -/
def magnitude (m : Nat) (q : Int) : Nat × Nat :=
  if 0 ≤ q then (m * Nat.pow 2 q.toNat, 1) else (m, Nat.pow 2 (-q).toNat)

/-- The product, rounded once. -/
def mul : Binary64 → Binary64 → Binary64
  | finite s m p, finite t n q =>
    let (num, den) := magnitude (m * n) (p + q)
    ofRatio (s != t) num den
  | nan, _ => nan
  | _, nan => nan
  | infinite s, finite t n _ => if n = 0 then nan else infinite (s != t)
  | finite s m _, infinite t => if m = 0 then nan else infinite (s != t)
  | infinite s, infinite t => infinite (s != t)

/-- The number with the other sign. -/
def negate : Binary64 → Binary64
  | finite s m q => finite (!s) m q
  | infinite s => infinite (!s)
  | nan => nan

/-- The integer `a` such that the number is `a · 2^least`, for a `least` that is not greater
than its exponent. -/
def scaled (negative : Bool) (mantissa : Nat) (exponent least : Int) : Int :=
  signed negative (mantissa * Nat.pow 2 (exponent - least).toNat)

/-- The sum, rounded once. Numbers that cancel out give the positive zero, and only two
negative zeros give the negative one. -/
def add : Binary64 → Binary64 → Binary64
  | finite s m p, finite t n q =>
    let least := min p q
    let sum := scaled s m p least + scaled t n q least
    let (num, den) := magnitude sum.natAbs least
    ofRatio (if sum = 0 then s && t else decide (sum < 0)) num den
  | nan, _ => nan
  | _, nan => nan
  | infinite s, infinite t => if s = t then infinite s else nan
  | infinite s, finite .. => infinite s
  | finite .., infinite t => infinite t

/-- Whether two numbers are equal : the two zeros are, and not a number equals nothing. -/
def equal : Binary64 → Binary64 → Bool
  | finite s m p, finite t n q => (m = 0 && n = 0) || (s = t && m = n && p = q)
  | infinite s, infinite t => s = t
  | _, _ => false

/-- Whether the number is the integer `n`. -/
def equalsInt (x : Binary64) (n : Int) : Bool :=
  match x with
  | finite s m q =>
    let (num, den) := magnitude m q
    decide (signed s num = n * den)
  | _ => false

end Binary64

end TagTemplate
