import TagTemplate.Text.Printable

/-!
# Quoted text

`quoted` shows a text as a literal : between single quotes, or between double quotes when
the text has a single quote and no double quote. The chosen quote, the backslash, line
feed, carriage return and tab are written with a backslash, any other unprintable
character by its code point in hexadecimal, and every printable character as itself.
`quotedBytes` shows bytes the same way, with every byte outside printable ASCII in
hexadecimal.
-/

namespace TagTemplate

/-- The quote that encloses a text : single, unless the text has a single quote and no
double quote. -/
def quoteFor (s : List Char) : Char :=
  if '\'' ∈ s ∧ '"' ∉ s then '"' else '\''

/-- The hexadecimal digits of `n`, padded with zeros to `width`. -/
def hexPadded (width n : Nat) : List Char :=
  let digits := Nat.toDigits 16 n
  List.replicate (width - digits.length) '0' ++ digits

/-- A code point in hexadecimal, in the shortest of the three widths that holds it. -/
def escapedCodePoint (n : Nat) : List Char :=
  if n < 0x100 then '\\' :: 'x' :: hexPadded 2 n
  else if n < 0x10000 then '\\' :: 'u' :: hexPadded 4 n
  else '\\' :: 'U' :: hexPadded 8 n

/-- One character of a literal enclosed by `quote`. -/
def quotedChar (quote c : Char) : List Char :=
  if c = quote ∨ c = '\\' then ['\\', c]
  else if c = '\n' then ['\\', 'n']
  else if c = '\r' then ['\\', 'r']
  else if c = '\t' then ['\\', 't']
  else if isPrintable c then [c]
  else escapedCodePoint c.toNat

/-- The text as a literal. -/
def quoted (s : List Char) : List Char :=
  let quote := quoteFor s
  quote :: s.flatMap (quotedChar quote) ++ [quote]

/-- One byte of a literal enclosed by `quote`. -/
def quotedByte (quote : Char) (b : UInt8) : List Char :=
  if 0x20 ≤ b ∧ b < 0x7F then quotedChar quote (Char.ofNat b.toNat)
  else if b = 0x9 ∨ b = 0xA ∨ b = 0xD then quotedChar quote (Char.ofNat b.toNat)
  else '\\' :: 'x' :: hexPadded 2 b.toNat

/-- The bytes as a literal. -/
def quotedBytes (bytes : List UInt8) : List Char :=
  let quote := quoteFor (bytes.map fun b => Char.ofNat b.toNat)
  'b' :: quote :: bytes.flatMap (quotedByte quote) ++ [quote]

end TagTemplate
