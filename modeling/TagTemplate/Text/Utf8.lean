import TagTemplate.Text.Blank

/-!
# UTF-8

`Utf8.decode` reads bytes as text. It accepts exactly the well-formed sequences : no
surrogates, no overlong forms, nothing beyond the last code point. The first sequence that
is not well formed is reported with its place and with what is wrong (`Utf8.Flaw`).
`Utf8.encode` writes text as bytes.
-/

namespace TagTemplate

namespace Utf8

/-- What is wrong with a sequence. -/
inductive Flaw where
  /-- Its first byte begins no sequence. -/
  | start
  /-- A byte that should continue it does not. -/
  | continuation
  /-- The bytes end inside it. -/
  | ending
deriving Repr, DecidableEq

/-- Where the bytes are not well formed. -/
structure Fault where
  /-- What is wrong. -/
  flaw : Flaw
  /-- The place of the first byte of the sequence. -/
  first : Nat
  /-- The number of its bytes up to what is wrong. -/
  count : Nat
  /-- The first byte. -/
  byte : UInt8
deriving Repr, DecidableEq

/-- A byte that continues a sequence. -/
def isContinuation (b : UInt8) : Bool :=
  0x80 ≤ b && b < 0xC0

/-- The number of bytes that continue a sequence with this first byte; none if no sequence
begins so. -/
def continuations? (b : UInt8) : Option Nat :=
  if b < 0x80 then some 0
  else if 0xC2 ≤ b && b < 0xE0 then some 1
  else if 0xE0 ≤ b && b < 0xF0 then some 2
  else if 0xF0 ≤ b && b < 0xF5 then some 3
  else none

/-- Whether `b` may be the second byte after the first byte `first` : it must leave the code
point in the range of its length and outside the surrogates. -/
def isSecond (first b : UInt8) : Bool :=
  isContinuation b &&
    (first != 0xE0 || 0xA0 ≤ b) && (first != 0xED || b < 0xA0) &&
    (first != 0xF0 || 0x90 ≤ b) && (first != 0xF4 || b < 0x90)

/-- The number of bytes of `rest` that continue the sequence well, at most `wanted`. -/
def goodContinuations (first : UInt8) (wanted : Nat) (rest : List UInt8) : Nat :=
  match wanted, rest with
  | 0, _ => 0
  | _, [] => 0
  | n + 1, b :: rest =>
    if isSecond first b then 1 + ((rest.take n).takeWhile isContinuation).length else 0

/-- The code point of a first byte with the bytes that continue it. -/
def codePoint (first : UInt8) (rest : List UInt8) : Nat :=
  let lead := match rest.length with
    | 0 => first.toNat
    | 1 => first.toNat % 0x20
    | 2 => first.toNat % 0x10
    | _ => first.toNat % 0x08
  rest.foldl (fun n b => n * 0x40 + b.toNat % 0x40) lead

/-- Decodes from the byte at `place` on; `before` is the text so far, in reverse. -/
def decodeFrom (place : Nat) (before : Text) (bytes : List UInt8) : Except Fault Text :=
  match bytes with
  | [] => .ok before.reverse
  | b :: rest =>
    match continuations? b with
    | none => .error ⟨.start, place, 1, b⟩
    | some n =>
      let good := goodContinuations b n rest
      if good = n then
        decodeFrom (place + 1 + n) (Char.ofNat (codePoint b (rest.take n)) :: before) (rest.drop n)
      else if rest.length ≤ good then .error ⟨.ending, place, 1 + good, b⟩
      else .error ⟨.continuation, place, 1 + good, b⟩
termination_by bytes.length
decreasing_by simp only [List.length_drop, List.length_cons]; omega

/-- The text that bytes encode. -/
def decode (bytes : List UInt8) : Except Fault Text :=
  decodeFrom 0 [] bytes

/-- The bytes that encode a text. -/
def encode (s : Text) : List UInt8 :=
  s.flatMap String.utf8EncodeChar

/-- The wording of a flaw. -/
def Flaw.message : Flaw → String
  | .start => "invalid start byte"
  | .continuation => "invalid continuation byte"
  | .ending => "unexpected end of data"

/-- The wording of a fault. -/
def Fault.message (f : Fault) : String :=
  let place :=
    if f.count = 1 then
      let digits := Nat.toDigits 16 f.byte.toNat
      let padded := String.ofList (List.replicate (2 - digits.length) '0' ++ digits)
      s!"byte 0x{padded} in position {f.first}"
    else s!"bytes in position {f.first}-{f.first + f.count - 1}"
  s!"'utf-8' codec can't decode {place}: {f.flaw.message}"

end Utf8

/-- The text with every kind of line end made a line feed : a carriage return becomes one, and
a line feed directly after a carriage return is left out. -/
def unifyLineEnds (s : Text) : Text :=
  ((' ' :: s).zip s).filterMap fun (previous, c) =>
    if previous = '\r' ∧ c = '\n' then none else some (if c = '\r' then '\n' else c)

end TagTemplate
