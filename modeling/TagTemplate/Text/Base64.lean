import TagTemplate.Text.Blank

/-!
# Bytes in sixty-four letters

Three bytes are written as four letters of six bits each, and a rest of one or two bytes is
filled up with equals signs. Reading passes over all characters that are neither letters nor
equals signs.
-/

namespace TagTemplate

namespace Base64

/-- The letters, in the order of the numbers they stand for. -/
def letters : Text :=
  "ABCDEFGHIJKLMNOPQRSTUVWXYZabcdefghijklmnopqrstuvwxyz0123456789+/".toList

/-- The letter of a number. -/
def letter (n : Nat) : Char :=
  letters.getD n '='

/-- The number of a letter. -/
def number? (c : Char) : Option Nat :=
  letters.idxOf? c

/-- Bytes as letters. -/
def encode : List UInt8 → Text
  | [] => []
  | [a] => [letter (a.toNat / 4), letter (a.toNat % 4 * 16), '=', '=']
  | [a, b] =>
    [letter (a.toNat / 4), letter (a.toNat % 4 * 16 + b.toNat / 16), letter (b.toNat % 16 * 4), '=']
  | a :: b :: c :: rest =>
    letter (a.toNat / 4) :: letter (a.toNat % 4 * 16 + b.toNat / 16) ::
      letter (b.toNat % 16 * 4 + c.toNat / 64) :: letter (c.toNat % 64) :: encode rest

/-- The bytes that letters stand for. `pending` are the numbers of the letters that have not
made up a group of four, in reverse, and `fill` counts the equals signs after them : two
letters and two of these, or three and one, end the text. -/
def decodeFrom (pending : List Nat) (fill : Nat) : Text → Option (List UInt8)
  | [] => if pending.isEmpty then some [] else none
  | c :: s =>
    if c = '=' then
      match pending with
      | [b, a] => if fill = 0 then decodeFrom [b, a] 1 s else some [byte (a * 4 + b / 16)]
      | [c, b, a] => some [byte (a * 4 + b / 16), byte (b % 16 * 16 + c / 4)]
      | _ => decodeFrom pending fill s
    else
      match number? c with
      | none => decodeFrom pending fill s
      | some d =>
        match pending with
        | [c, b, a] =>
          (decodeFrom [] 0 s).map fun bytes =>
            byte (a * 4 + b / 16) :: byte (b % 16 * 16 + c / 4) :: byte (c % 4 * 64 + d) :: bytes
        | _ => decodeFrom (d :: pending) 0 s
where
  /-- The byte of a number, whose higher bits are dropped. -/
  byte (n : Nat) : UInt8 := UInt8.ofNat n

/-- The bytes that a text stands for. -/
def decode? (s : Text) : Option (List UInt8) :=
  decodeFrom [] 0 s

/-- The number of letters on a line. -/
def lineLength : Nat := 76

/-- Letters in lines, each with a line feed at its end; `room` is what is left of the current
line. -/
def inLines (room : Nat) : Text → Text
  | [] => if room < lineLength then ['\n'] else []
  | c :: s =>
    match room with
    | 0 | 1 => c :: '\n' :: inLines lineLength s
    | room + 1 => c :: inLines room s

/-- Bytes as lines of letters. -/
def encodeLines (bytes : List UInt8) : Text :=
  inLines lineLength (encode bytes)

end Base64

end TagTemplate
