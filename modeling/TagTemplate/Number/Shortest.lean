import TagTemplate.Number.Binary64

/-!
# The shortest decimal that reads back

A finite number is written with the fewest decimal digits that read back as it, and of
those digits with the nearest (`shortest`). The reals that read back as `m · 2^q` form an
interval around it that reaches half-way to its neighbours and holds its ends exactly if
`m` is even. If a decimal of a given number of digits lies in the interval, so does one of
the two such decimals next to the number, so only these two are tried, for one digit,
two digits and so on.

A `FloatNotation` then lays the digits out, with or without an exponent.
-/

namespace TagTemplate

namespace Binary64

/-- The decimal `digits · 10^scale`. -/
structure Decimal where
  /-- The digits as one number. -/
  digits : Nat
  /-- The power of ten that multiplies it. -/
  scale : Int
deriving Repr, DecidableEq

/-- A number and the ends of the interval that reads back as it, all over one denominator. -/
structure Interval where
  /-- The lower end. -/
  low : Nat
  /-- The number itself. -/
  value : Nat
  /-- The upper end. -/
  high : Nat
  /-- The common denominator. -/
  den : Nat
  /-- Whether the ends themselves read back as the number. -/
  closed : Bool

/-- The interval around `m · 2^q`. The neighbour below is nearer at a power of two. -/
def interval (m : Nat) (q : Int) : Interval :=
  let below := if m = Nat.pow 2 52 ∧ leastExponent < q then 1 else 2
  let (scale, den) := magnitude 1 q
  ⟨(4 * m - below) * scale, 4 * m * scale, (4 * m + 2) * scale, 4 * den, m % 2 == 0⟩

/-- Whether `c · num / den` lies in the interval, given over the interval's denominator. -/
def Interval.holds (i : Interval) (c num den : Nat) : Bool :=
  if i.closed then i.low * den ≤ c * num && c * num ≤ i.high * den
  else i.low * den < c * num && c * num < i.high * den

/-- The decimal with last place `10^scale` that reads back and is nearest, if there is one. -/
def Interval.atScale? (i : Interval) (scale : Int) : Option Decimal :=
  let num := i.den * Nat.pow 10 scale.toNat
  let den := Nat.pow 10 (-scale).toNat
  let below := i.value * den / num
  let above := below + 1
  let toBelow := i.value * den - below * num
  let toAbove := above * num - i.value * den
  match i.holds below num den && below != 0, i.holds above num den with
  | true, true =>
    if toBelow < toAbove ∨ (toBelow = toAbove ∧ below % 2 = 0) then some ⟨below, scale⟩
    else some ⟨above, scale⟩
  | true, false => some ⟨below, scale⟩
  | false, true => some ⟨above, scale⟩
  | false, false => none

/-- The least power of ten, at `bound` or below, that is greater than `num / den`, searched
downwards from `10^bound`. -/
def leastPowerAbove (num den : Nat) : Nat → Int → Int
  | 0, e => e
  | fuel + 1, e =>
    let small : Bool :=
      if 0 ≤ e - 1 then num < den * Nat.pow 10 (e - 1).toNat
      else num * Nat.pow 10 (1 - e).toNat < den
    if small then leastPowerAbove num den fuel (e - 1) else e

/-- The first decimal found with one digit, two digits, and so on. -/
def Interval.search (i : Interval) (top : Int) : Nat → Int → Decimal
  | 0, scale => ⟨i.value / i.den, scale⟩
  | fuel + 1, scale => (i.atScale? scale).getD (i.search top fuel (scale - 1))

/-- The shortest and nearest decimal that reads back as `m · 2^q`, for `m ≠ 0`. -/
def shortest (m : Nat) (q : Int) : Decimal :=
  let i := interval m q
  let guess := ((m.log2 : Int) + q) * 30103 / 100000 + 2
  let top := leastPowerAbove i.value i.den 8 guess
  i.search top 17 (top - 1)

end Binary64

/-- How the digits of a floating-point number are laid out. -/
structure FloatNotation where
  /-- The least exponent written without an exponent mark. -/
  positionalFrom : Int
  /-- The least exponent above it written with an exponent mark. -/
  exponentialFrom : Int
  /-- The least number of exponent digits. -/
  exponentWidth : Nat
  /-- Whether digits before an exponent mark have a fraction even if it is zero. -/
  fractionBeforeMark : Bool
  /-- The infinite number. -/
  infinity : List Char
  /-- Not a number. -/
  notANumber : List Char

namespace FloatNotation

/-- The digits of a decimal without zeros at the end, and the exponent of the first. -/
def scientific (d : Binary64.Decimal) : List Char × Int :=
  let digits := Nat.toDigits 10 d.digits
  let kept := (digits.reverse.dropWhile (· == '0')).reverse
  (kept, d.scale + digits.length - 1)

/-- Digits with a point, for an exponent that is written positionally. -/
def positional (digits : List Char) (exponent : Int) : List Char :=
  if exponent < 0 then '0' :: '.' :: List.replicate (-exponent - 1).toNat '0' ++ digits
  else
    let whole := exponent.toNat + 1
    if digits.length ≤ whole then
      digits ++ List.replicate (whole - digits.length) '0' ++ ['.', '0']
    else digits.take whole ++ '.' :: digits.drop whole

/-- Digits with an exponent mark. -/
def exponential (f : FloatNotation) (digits : List Char) (exponent : Int) : List Char :=
  let fraction := digits.drop 1
  let point := if !fraction.isEmpty then '.' :: fraction
    else if f.fractionBeforeMark then ['.', '0'] else []
  let magnitude := Nat.toDigits 10 exponent.natAbs
  digits.take 1 ++ point ++ 'e' :: (if exponent < 0 then '-' else '+') ::
    List.replicate (f.exponentWidth - magnitude.length) '0' ++ magnitude

/-- The text of a number that is not negative. -/
def unsigned (f : FloatNotation) : Binary64 → List Char
  | .nan => f.notANumber
  | .infinite _ => f.infinity
  | .finite _ m q =>
    if m = 0 then ['0', '.', '0']
    else
      let (digits, exponent) := scientific (Binary64.shortest m q)
      if f.positionalFrom ≤ exponent ∧ exponent < f.exponentialFrom then
        positional digits exponent
      else f.exponential digits exponent

/-- The text of a number. -/
def write (f : FloatNotation) (x : Binary64) : List Char :=
  if x.isNegative then '-' :: f.unsigned x else f.unsigned x

end FloatNotation

end TagTemplate
