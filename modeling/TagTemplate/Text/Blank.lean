/-!
# Text and its blanks

Text is the list of its code points, so every length and position counts code points.
`isBlank` is the class of characters that separate a tag's parts and that trimming
removes. `trim` removes the blanks at both ends.
-/

namespace TagTemplate

/-- Text as the list of its code points. -/
abbrev Text := List Char

/-- The blanks : the control characters that separate lines, records and units, the
space, and the spaces and separators of other scripts. -/
def isBlank (c : Char) : Bool :=
  let n := c.toNat
  (0x9 ≤ n && n ≤ 0xD) || (0x1C ≤ n && n ≤ 0x20) || n == 0x85 || n == 0xA0 || n == 0x1680 ||
    (0x2000 ≤ n && n ≤ 0x200A) || n == 0x2028 || n == 0x2029 || n == 0x202F || n == 0x205F ||
    n == 0x3000

/-- The text without the blanks at its end. -/
def trimEnd (s : Text) : Text :=
  (s.reverse.dropWhile isBlank).reverse

/-- The text without the blanks at its two ends. -/
def trim (s : Text) : Text :=
  trimEnd (s.dropWhile isBlank)

/-- The lower case of an ASCII letter; any other character is left as it is. -/
def lowerAscii (c : Char) : Char :=
  if 'A' ≤ c ∧ c ≤ 'Z' then Char.ofNat (c.toNat + 32) else c

/-- The upper case of an ASCII letter; any other character is left as it is. -/
def upperAscii (c : Char) : Char :=
  if 'a' ≤ c ∧ c ≤ 'z' then Char.ofNat (c.toNat - 32) else c

end TagTemplate
