import TagTemplate.Text.Utf8
import TagTemplate.Yaml.Scalar

/-!
# The written forms of scalars

Scalars are written plain, between quotes, or as a block of lines. All but blocks of lines
are folded : one line break stands for a space, and of several the first is dropped. A
`Cursor` is the place in a text that has been reached; every reader here starts at one and
ends at a later one.
-/

namespace TagTemplate

namespace Yaml

/-! ## Places in a text -/

/-- The characters that end a line. -/
def isBreak (c : Char) : Bool :=
  c == '\n' || c == '\x85' || c == '\u2028' || c == '\u2029'

/-- What a line break is read as. -/
def foldedBreak (c : Char) : Char :=
  if c = '\x85' then '\n' else c

/-- The blanks within a line. -/
def isBlankInLine (c : Char) : Bool :=
  c == ' ' || c == '\t'

/-- The characters that separate tokens. -/
def isGap (c : Char) : Bool :=
  isBlankInLine c || isBreak c

/-- Whether nothing that belongs to a token follows. -/
def endsToken (s : Text) : Bool :=
  s.head?.all isGap

/-- Whether a line begins with the mark of the beginning or the end of a document. -/
def isDocumentMark (s : Text) : Bool :=
  (['-', '-', '-'].isPrefixOf s || ['.', '.', '.'].isPrefixOf s) && endsToken (s.drop 3)

/-- How far a text has been read. -/
structure Position where
  /-- The number of characters before. -/
  index : Nat
  /-- The number of line breaks before. -/
  line : Nat
  /-- The number of characters before on the same line, marks of the byte order aside. -/
  column : Nat
deriving Repr, DecidableEq

/-- The position after a character. -/
def Position.after (p : Position) (c : Char) : Position :=
  if isBreak c then ⟨p.index + 1, p.line + 1, 0⟩
  else ⟨p.index + 1, p.line, if c = '\uFEFF' then p.column else p.column + 1⟩

/-- A place in a text. -/
structure Cursor where
  /-- What follows. -/
  rest : Text
  /-- How far it is from the beginning. -/
  position : Position
deriving Repr

namespace Cursor

/-- The place some characters further. -/
def advance : Nat → Cursor → Cursor
  | n + 1, ⟨c :: s, p⟩ => advance n ⟨s, p.after c⟩
  | _, cursor => cursor

/-- The characters up to the first that a test refuses, and the place of that. -/
def span (accepts : Char → Bool) (cursor : Cursor) : Text × Cursor :=
  let run := cursor.rest.takeWhile accepts
  (run, ⟨cursor.rest.drop run.length, run.foldl Position.after cursor.position⟩)

/-- The place of the first character that a test refuses. -/
def skip (accepts : Char → Bool) (cursor : Cursor) : Cursor :=
  (cursor.span accepts).2

/-- The beginning of the next line, if only spaces and a comment are left of this one. -/
def nextLine? (cursor : Cursor) : Option Cursor :=
  let cursor := cursor.skip (· == ' ')
  let cursor := if cursor.rest.head? = some '#' then cursor.skip (!isBreak ·) else cursor
  if cursor.rest.head?.all isBreak then some (cursor.advance 1) else none

end Cursor

/-! ## Folding -/

/-- What was passed over after the last character of a folded scalar. -/
inductive Gap where
  /-- Blanks on one line, in reverse. -/
  | blanks (before : Text)
  /-- A line break that counts as the character `first`, or as nothing if it is escaped, and
  more of them, in reverse. -/
  | broken (first : Option Char) (more : Text)

namespace Gap

/-- No gap at all. -/
def none : Gap := blanks []

/-- Whether there is a line break in a gap. -/
def isBroken : Gap → Bool
  | blanks _ => false
  | broken .. => true

/-- What a gap stands for, in reverse. -/
def shown : Gap → Text
  | blanks before => before
  | broken Option.none more => more
  | broken (some first) more =>
    if first = '\n' then (if more.isEmpty then [' '] else more) else more ++ [first]

/-- A gap that goes on with a line break. -/
def addBreak (c : Char) : Gap → Gap
  | blanks _ => broken (some (foldedBreak c)) []
  | broken first more => broken first (foldedBreak c :: more)

/-- A gap that goes on with a blank : those around line breaks do not count. -/
def addBlank (c : Char) : Gap → Gap
  | blanks before => blanks (c :: before)
  | gap => gap

end Gap

/-! ## Quoted scalars -/

/-- A piece of a quoted scalar. -/
inductive Piece where
  /-- A character that stands for itself. -/
  | char (c : Char)
  /-- A blank. -/
  | blank (c : Char)
  /-- A line break. -/
  | lineBreak (c : Char)
  /-- A line break that is escaped. -/
  | joint

/-- The piece that a character is which is no escape. -/
def Piece.ofChar (c : Char) : Piece :=
  if isBreak c then .lineBreak c else if isBlankInLine c then .blank c else .char c

/-- The text of pieces; `out` is what is known of it, in reverse, and `gap` was passed over
after that. -/
def unfold (out : Text) (gap : Gap) : List Piece → Text
  | [] => (gap.shown ++ out).reverse
  | .char c :: rest => unfold (c :: (gap.shown ++ out)) .none rest
  | .blank c :: rest => unfold out (gap.addBlank c) rest
  | .lineBreak c :: rest => unfold out (gap.addBreak c) rest
  | .joint :: rest => unfold (gap.shown ++ out) (.broken none []) rest

/-- The pieces of a single-quoted scalar after its first quote. A quote within it is written
twice. -/
def singlePieces? (before : List Piece) (p : Position) : Text → Option (List Piece × Cursor)
  | '\'' :: '\'' :: s =>
    singlePieces? (.char '\'' :: before) ((p.after '\'').after '\'') s
  | '\'' :: s => some (before.reverse, ⟨s, p.after '\''⟩)
  | c :: s =>
    if isBreak c && isDocumentMark s then none
    else singlePieces? (.ofChar c :: before) (p.after c) s
  | [] => none

/-- What the escapes of one letter stand for. -/
def escapes : List (Char × Char) :=
  [('0', Char.ofNat 0), ('a', '\x07'), ('b', '\x08'), ('t', '\t'), ('\t', '\t'), ('n', '\n'),
    ('v', '\x0b'), ('f', '\x0c'), ('r', '\r'), ('e', '\x1b'), (' ', ' '), ('"', '"'),
    ('/', '/'), ('\\', '\\'), ('N', '\x85'), ('_', '\xa0'), ('L', '\u2028'), ('P', '\u2029')]

/-- The character of an escape by its code in hexadecimal. -/
def codeChar (digits : Text) : Except Fault Char :=
  match digits.mapM Json.hexDigit? with
  | none => .error .malformed
  | some ns =>
    let code := ns.foldl (fun n d => 16 * n + d) 0
    if 0x110000 ≤ code then .error (.noCharacter code) else .ok (Char.ofNat code)

/-- The pieces of a double-quoted scalar after its first quote. -/
def doublePieces (before : List Piece) (p : Position) :
    Text → Except Fault (List Piece × Cursor)
  | '"' :: s => .ok (before.reverse, ⟨s, p.after '"'⟩)
  | '\\' :: 'x' :: a :: b :: s => do
    let c ← codeChar [a, b]
    doublePieces (.char c :: before) (['\\', 'x', a, b].foldl Position.after p) s
  | '\\' :: 'u' :: a :: b :: c :: d :: s => do
    let e ← codeChar [a, b, c, d]
    doublePieces (.char e :: before) (['\\', 'u', a, b, c, d].foldl Position.after p) s
  | '\\' :: 'U' :: a :: b :: c :: d :: e :: f :: g :: h :: s => do
    let i ← codeChar [a, b, c, d, e, f, g, h]
    doublePieces (.char i :: before)
      (['\\', 'U', a, b, c, d, e, f, g, h].foldl Position.after p) s
  | '\\' :: c :: s =>
    if isBreak c then
      if isDocumentMark s then .error .malformed
      else doublePieces (.joint :: before) ((p.after '\\').after c) s
    else
      match escapes.lookup c with
      | some e => doublePieces (.char e :: before) ((p.after '\\').after c) s
      | none => .error .malformed
  | c :: s =>
    if isBreak c && isDocumentMark s then .error .malformed
    else doublePieces (.ofChar c :: before) (p.after c) s
  | [] => .error .malformed

/-- The text of a quoted scalar that begins at a quote. -/
def quotedScalar (cursor : Cursor) : Except Fault (Text × Cursor) :=
  match cursor.rest with
  | '\'' :: s =>
    match singlePieces? [] (cursor.position.after '\'') s with
    | some (pieces, after) => .ok (unfold [] .none pieces, after)
    | none => .error .malformed
  | '"' :: s =>
    (doublePieces [] (cursor.position.after '"') s).map fun (pieces, after) =>
      (unfold [] .none pieces, after)
  | _ => .error .malformed

/-! ## Plain scalars -/

/-- The characters that structure flow collections. -/
def isFlowMark (c : Char) : Bool :=
  c ∈ [',', '[', ']', '\x7b', '\x7d']

/-- The characters that no plain scalar begins with. -/
def isIndicator (c : Char) : Bool :=
  isFlowMark c || c ∈ ['#', '&', '*', '!', '|', '>', '\'', '"', '%', '@', '\x60']

/-- Whether a plain scalar begins here. A hyphen, a question mark and a colon can begin one if
something stands directly after it, the last two only outside flow collections. -/
def beginsPlain (inFlow : Bool) : Text → Bool
  | [] => false
  | c :: s =>
    if c == '-' then !endsToken s
    else if c == '?' || c == ':' then !inFlow && !endsToken s
    else !isGap c && !isIndicator c

/-- Whether a plain scalar or a part of it ends before a text. -/
def endsPlain (inFlow : Bool) : Text → Bool
  | [] => true
  | c :: s =>
    isGap c || (c == ':' && (endsToken s || (inFlow && s.head?.any isFlowMark))) ||
      (inFlow && (c == '?' || isFlowMark c))

/-- A plain scalar. -/
structure Plain where
  /-- Its text. -/
  text : Text
  /-- Whether line breaks follow that were passed over. -/
  endsLine : Bool
  /-- The place after it. -/
  after : Cursor

/-- The rest of a plain scalar, whose further lines are indented at least `indent`. The text
is `out` so far, in reverse, and `gap` was passed over after that. -/
def plainScalar (inFlow : Bool) (indent : Nat) (out : Text) (gap : Gap) (p : Position) :
    Text → Plain
  | [] => ⟨out.reverse, gap.isBroken, ⟨[], p⟩⟩
  | c :: s =>
    if isBreak c then
      if isDocumentMark s then ⟨out.reverse, true, ⟨s, p.after c⟩⟩
      else plainScalar inFlow indent out (gap.addBreak c) (p.after c) s
    else if c = ' ' then plainScalar inFlow indent out (gap.addBlank c) (p.after c) s
    else if endsPlain inFlow (c :: s) || (c == '#' && !gap.shown.isEmpty) ||
        (gap.isBroken && !inFlow && p.column < indent) then
      ⟨out.reverse, gap.isBroken, ⟨c :: s, p⟩⟩
    else plainScalar inFlow indent (c :: (gap.shown ++ out)) .none (p.after c) s

/-! ## Blocks of lines -/

/-- What becomes of the line breaks at the end of a block. -/
inductive Chomping where
  /-- All are dropped. -/
  | strip
  /-- The first is kept. -/
  | clip
  /-- All are kept. -/
  | keep
deriving Repr, DecidableEq

/-- The line breaks that are written with a sign. -/
def Chomping.ofSign? : Char → Option Chomping
  | '-' => some strip
  | '+' => some keep
  | _ => none

/-- The header of a block. -/
structure BlockHeader where
  /-- What becomes of the line breaks at its end. -/
  chomping : Chomping
  /-- How far it is indented, if that is written. -/
  increment : Option Nat

/-- The header of a block after its first character : a sign and a digit in any order, or one
of them, or none. -/
def blockHeader? (cursor : Cursor) : Option (BlockHeader × Cursor) := do
  let sign? (cursor : Cursor) : Option Chomping := cursor.rest.head?.bind Chomping.ofSign?
  let digit? (cursor : Cursor) : Option Nat :=
    (cursor.rest.head?.filter Char.isDigit).map fun c => c.toNat - 48
  let (header, after) : BlockHeader × Cursor := match sign? cursor, digit? cursor with
    | some chomping, _ =>
      match digit? (cursor.advance 1) with
      | some n => (⟨chomping, some n⟩, cursor.advance 2)
      | none => (⟨chomping, none⟩, cursor.advance 1)
    | none, some n =>
      match sign? (cursor.advance 1) with
      | some chomping => (⟨chomping, some n⟩, cursor.advance 2)
      | none => (⟨.clip, some n⟩, cursor.advance 1)
    | none, none => (⟨.clip, none⟩, cursor)
  guard (header.increment ≠ some 0)
  guard (after.rest.head?.all fun c => c == ' ' || isBreak c)
  return (header, ← after.nextLine?)

/-- How far the first lines of a block are indented, empty ones included, up to the first that
is not empty; `column` is the number of spaces on the current line so far. -/
def leadingIndent (column : Nat) : Text → Nat
  | [] => column
  | c :: s =>
    if c = ' ' then leadingIndent (column + 1) s
    else if isBreak c then max column (leadingIndent 0 s)
    else column

/-- Where in a block something is. -/
inductive BlockPlace where
  /-- On a line, which begins with something other than a blank if it is `flush`. -/
  | inside (flush : Bool)
  /-- After a line that was `flush` or not and ended with a line break, if there was one, and
  after more line breaks, which stand in reverse. -/
  | between (flush : Bool) (ending : Option Char) (breaks : Text)

/-- What stands between two lines of a block, in reverse : a single line break is a space if
the block is folded and both lines are flush. -/
def blockSeparator (folds flush nextFlush : Bool) (ending : Option Char) (breaks : Text) : Text :=
  if folds && flush && nextFlush && ending = some '\n' then
    (if breaks.isEmpty then [' '] else breaks)
  else breaks ++ ending.toList

/-- The text of a block at `indent` without the line breaks at its end, in reverse, the place
in the block at its end, and the place after it. -/
def blockBody (folds : Bool) (indent : Nat) (out : Text) (place : BlockPlace) (p : Position) :
    Text → Text × BlockPlace × Cursor
  | [] => (out, place, ⟨[], p⟩)
  | c :: s =>
    match place with
    | .inside flush =>
      if isBreak c then
        blockBody folds indent out (.between flush (some (foldedBreak c)) []) (p.after c) s
      else blockBody folds indent (c :: out) (.inside flush) (p.after c) s
    | .between flush ending breaks =>
      if c = ' ' ∧ p.column < indent then blockBody folds indent out place (p.after c) s
      else if isBreak c then
        blockBody folds indent out (.between flush ending (foldedBreak c :: breaks)) (p.after c) s
      else if p.column = indent then
        let nextFlush := !isBlankInLine c
        let separator := blockSeparator folds flush nextFlush ending breaks
        blockBody folds indent (c :: (separator ++ out)) (.inside nextFlush) (p.after c) s
      else (out, place, ⟨c :: s, p⟩)

/-- The line breaks that a block ends with, in reverse. -/
def BlockPlace.ending (chomping : Chomping) : BlockPlace → Text
  | inside _ => []
  | between _ ending breaks =>
    match chomping with
    | .strip => []
    | .clip => ending.toList
    | .keep => breaks ++ ending.toList

/-- The text of a block inside a node whose lines are indented at least `least`; the place is
after the character that opens it. -/
def blockScalar? (folds : Bool) (least : Nat) (cursor : Cursor) : Option (Text × Cursor) := do
  let (header, start) ← blockHeader? cursor
  let least := max least 1
  let indent := match header.increment with
    | some n => least + n - 1
    | none => max least (leadingIndent 0 start.rest)
  let (out, place, after) :=
    blockBody folds indent [] (.between true none []) start.position start.rest
  return ((place.ending header.chomping ++ out).reverse, after)

/-! ## Names and tags -/

/-- The characters of the names of anchors and of the handles of tags. -/
def isNameLetter (c : Char) : Bool :=
  c.isAlphanum || c == '-' || c == '_'

/-- The name of an anchor after the character that opens it. -/
def anchorName? (cursor : Cursor) : Option (Text × Cursor) :=
  let (name, after) := cursor.span isNameLetter
  let isEnd (c : Char) : Bool := isGap c || c ∈ ['?', ':', ',', ']', '\x7d', '%', '@', '\x60']
  if name.isEmpty || !after.rest.head?.all isEnd then none else some (name, after)

/-- The characters of a tag that stand for themselves. -/
def isTagLetter (c : Char) : Bool :=
  c.isAlphanum || c ∈ "-;/?:@&=+$,_.!~*'()[]".toList

/-- The characters that bytes encode, in reverse; the bytes stand in reverse too. -/
def decodedReverse? (bytes : List UInt8) : Option Text :=
  (Utf8.decode bytes.reverse).toOption.map List.reverse

/-- A tag or a part of one. A percent sign and two hexadecimal digits are a byte of a
character. -/
def tagText? (out : Text) (bytes : List UInt8) (p : Position) : Text → Option (Text × Cursor)
  | '%' :: a :: b :: s => do
    let a' ← Json.hexDigit? a
    let b' ← Json.hexDigit? b
    tagText? out (UInt8.ofNat (16 * a' + b') :: bytes) (['%', a, b].foldl Position.after p) s
  | c :: s =>
    if isTagLetter c then do
      let decoded ← decodedReverse? bytes
      tagText? (c :: (decoded ++ out)) [] (p.after c) s
    else if c = '%' then none
    else (decodedReverse? bytes).map fun decoded => ((decoded ++ out).reverse, ⟨c :: s, p⟩)
  | [] => (decodedReverse? bytes).map fun decoded => ((decoded ++ out).reverse, ⟨[], p⟩)

/-- A part of a tag that is not empty. -/
def tagPart? (cursor : Cursor) : Option (Text × Cursor) := do
  guard (cursor.rest.head?.any fun c => isTagLetter c || c == '%')
  tagText? [] [] cursor.position cursor.rest

/-- The handle of a tag : an exclamation mark, or a name between two. -/
def tagHandle? (cursor : Cursor) : Option (Text × Cursor) := do
  guard (cursor.rest.head? = some '!')
  let after := cursor.advance 1
  if after.rest.head? = some ' ' then return (['!'], after)
  let (name, after) := after.span isNameLetter
  guard (after.rest.head? = some '!')
  return ('!' :: name ++ ['!'], after.advance 1)

/-- A tag : its handle, if it is not written in full, and the rest of it. -/
def tagProperty? (cursor : Cursor) : Option ((Option Text × Text) × Cursor) := do
  let inner := cursor.advance 1
  let ((handle, suffix), after) ←
    if inner.rest.head? = some '<' then do
      let (suffix, after) ← tagPart? (inner.advance 1)
      guard (after.rest.head? = some '>')
      pure (((none : Option Text), suffix), after.advance 1)
    else if endsToken inner.rest then pure ((none, ['!']), inner)
    else if '!' ∈ inner.rest.takeWhile fun c => c != ' ' && !isBreak c then do
      let (handle, after) ← tagHandle? cursor
      let (suffix, after) ← tagPart? after
      pure ((some handle, suffix), after)
    else do
      let (suffix, after) ← tagPart? inner
      pure ((some ['!'], suffix), after)
  guard (after.rest.head?.all fun c => c == ' ' || isBreak c)
  return ((handle, suffix), after)

end Yaml

end TagTemplate
