import TagTemplate.Yaml.Anchor
import TagTemplate.Yaml.Lexeme

/-!
# Writing YAML

`Yaml.write?` writes a value as a block document. Mappings and sequences have an entry a line,
empty ones are written as flow collections, and a sequence is not indented inside a mapping.
A text is plain if it reads back as that text, else between single quotes, and between
double quotes if it holds characters that must be escaped (`Yaml.styleOf`). Texts are broken
at spaces once a line is longer than `bestWidth`. An object that occurs again is written once,
with an anchor, and its other occurrences are aliases of that.
-/

namespace TagTemplate

namespace Yaml

/-- The length beyond which lines are broken. -/
def bestWidth : Nat := 80

/-- How a scalar is written. -/
inductive Style where
  /-- As it is. -/
  | plain
  /-- Between single quotes. -/
  | single
  /-- Between double quotes, with escapes. -/
  | double
deriving Repr, DecidableEq

/-! ## What a scalar allows -/

/-- The characters that separate tokens, for a reader that knows more of them. -/
def isSeparator (c : Char) : Bool :=
  isGap c || c == '\r' || c == Char.ofNat 0

/-- Whether a character is written as it is outside double quotes. -/
def isOrdinary (c : Char) : Bool :=
  let n := c.toNat
  n == 0xA || (0x20 ≤ n && n ≤ 0x7E) || n == 0x85 ||
    (0xA0 ≤ n && n ≤ 0xFFFD && n != 0xFEFF) || (0x10000 ≤ n && n < 0x10FFFF)

/-- Whether a text begins like another part of a block document. -/
def beginsOther (s : Text) : Bool :=
  let followed := (s.drop 1).head?.all isSeparator
  ['-', '-', '-'].isPrefixOf s || ['.', '.', '.'].isPrefixOf s ||
    match s.head? with
    | none => false
    | some c =>
      isIndicator c || (c ∈ ['?', ':', '-'] && followed)

/-- Whether a text holds, after its first character, something that ends a plain scalar. -/
def endsInside : Text → Bool
  | c :: d :: s =>
    (d == ':' && s.head?.all isSeparator) || (d == '#' && isSeparator c) || endsInside (d :: s)
  | _ => false

/-- Whether one character of a kind directly follows one of another. -/
def hasPair (p q : Char → Bool) : Text → Bool
  | c :: d :: s => (p c && q d) || hasPair p q (d :: s)
  | _ => false

/-- Whether a text may stand between single quotes. -/
def allowsSingle (s : Text) : Bool :=
  s.all isOrdinary && !hasPair isBreak (· == ' ') s && !hasPair (· == ' ') isBreak s

/-- Whether a text may stand as it is in a block. -/
def allowsPlain (s : Text) : Bool :=
  allowsSingle s && !s.any isBreak && s.head? != some ' ' && s.getLast? != some ' ' &&
    !beginsOther s && !endsInside s

/-- How a text is written; `isKey` tells whether it is the key of an entry on one line. -/
def styleOf (isKey : Bool) (s : Text) : Style :=
  let multiline := s.any isBreak
  if Tag.ofPlain s = .text && allowsPlain s && !(isKey && (s.isEmpty || multiline)) then .plain
  else if allowsSingle s && !(isKey && multiline) then .single
  else .double

/-! ## Pages -/

/-- What is written so far. -/
structure Page where
  /-- The text, in reverse. -/
  text : Text := []
  /-- The number of characters on the current line. -/
  column : Nat := 0
  /-- Whether nothing stands before the end that would have to be set off by a space. -/
  endsBlank : Bool := true
  /-- Whether the current line has nothing but spaces and the marks of items and keys. -/
  isFresh : Bool := true
  /-- The marks of the objects that occur more than once. -/
  named : List Nat := []
  /-- The marks of those of them that are written. -/
  written : List Nat := []

namespace Page

/-- The page with more of a scalar. -/
def add (p : Page) (s : Text) : Page :=
  { p with
    text := s.reverse ++ p.text
    column := p.column + s.length
    endsBlank := false
    isFresh := false }

/-- The page with a mark, which is set off by a space if it `isApart`; a mark that
`keepsFresh` leaves room for another block on its line. -/
def addMark (p : Page) (mark : Text) (isApart keepsFresh : Bool) : Page :=
  let mark := if p.endsBlank || !isApart then mark else ' ' :: mark
  { p with
    text := mark.reverse ++ p.text
    column := p.column + mark.length
    endsBlank := false
    isFresh := p.isFresh && keepsFresh }

/-- The page with a line break. -/
def addBreak (p : Page) (c : Char) : Page :=
  { p with text := c :: p.text, column := 0, endsBlank := true, isFresh := true }

/-- The page with spaces up to a column. -/
def addSpaces (p : Page) (column : Nat) : Page :=
  if p.column < column then
    { p with
      text := List.replicate (column - p.column) ' ' ++ p.text
      column
      endsBlank := true }
  else p

/-- The page at a column of a line that is fresh. -/
def moveTo (p : Page) (column : Nat) : Page :=
  let fits := p.isFresh && (p.column < column || (p.column == column && p.endsBlank))
  (if fits then p else p.addBreak '\n').addSpaces column

/-- The page at a column of a new line. -/
def newLine (p : Page) (column : Nat) : Page :=
  (p.addBreak '\n').addSpaces column

end Page

/-! ## Scalars in their styles -/

/-- A text as runs of spaces, runs of line breaks and runs of other characters. -/
def runs : Text → List Text
  | [] => []
  | c :: s =>
    match runs s with
    | (d :: r) :: rest =>
      if (c == ' ') == (d == ' ') && isBreak c == isBreak d then (c :: d :: r) :: rest
      else [c] :: (d :: r) :: rest
    | rest => [c] :: rest

/-- A run of line breaks : the first is written twice, since one alone reads as a space. -/
def addBreaks (indent : Nat) (p : Page) (s : Text) : Page :=
  let p := if s.head? = some '\n' then p.addBreak '\n' else p
  (s.foldl Page.addBreak p).addSpaces indent

/-- A plain or single-quoted scalar run by run; `quote` is what a run of characters becomes.
A single space is a line break once the line is full, if `atEnds` or other runs surround
it. -/
def addRuns (splits : Bool) (indent : Nat) (atEnds : Bool) (quote : Text → Text)
    (isFirst : Bool) : Page → List Text → Page
  | p, [] => p
  | p, run :: rest =>
    let p :=
      if run = [' '] && splits && bestWidth < p.column && (atEnds || (!isFirst && !rest.isEmpty))
      then p.newLine indent
      else if run.head?.any isBreak then addBreaks indent p run
      else p.add (quote run)
    addRuns splits indent atEnds quote false p rest

/-- The characters between single quotes : a quote is written twice. -/
def doubled (s : Text) : Text :=
  s.flatMap fun c => if c = '\'' then ['\'', '\''] else [c]

/-- The letters of escapes between double quotes. -/
def escapeLetters : List (Char × Char) :=
  [(Char.ofNat 0, '0'), ('\x07', 'a'), ('\x08', 'b'), ('\t', 't'), ('\n', 'n'), ('\x0b', 'v'),
    ('\x0c', 'f'), ('\r', 'r'), ('\x1b', 'e'), ('"', '"'), ('\\', '\\'), ('\x85', 'N'),
    ('\xa0', '_'), ('\u2028', 'L'), ('\u2029', 'P')]

/-- Hexadecimal digits in upper case, padded. -/
def hexUpper (width n : Nat) : Text :=
  (hexPadded width n).map upperAscii

/-- Whether a character stands for itself between double quotes. -/
def isUnescaped (c : Char) : Bool :=
  let n := c.toNat
  n != 0x22 && n != 0x5C && !isBreak c && n != 0xFEFF &&
    ((0x20 ≤ n && n ≤ 0x7E) || (0xA0 ≤ n && n ≤ 0xFFFD))

/-- One character between double quotes. -/
def escaped (c : Char) : Text :=
  if isUnescaped c then [c]
  else
    let n := c.toNat
    match escapeLetters.lookup c with
    | some l => ['\\', l]
    | none =>
      if n ≤ 0xFF then '\\' :: 'x' :: hexUpper 2 n
      else if n ≤ 0xFFFF then '\\' :: 'u' :: hexUpper 4 n
      else '\\' :: 'U' :: hexUpper 8 n

/-- Ends a full line with a backslash; a space at the head of the next needs one too. -/
def breakEscaped (indent : Nat) (s : Text) (p : Page) : Page :=
  let p := (p.add ['\\']).newLine indent
  if s.head? = some ' ' then p.add ['\\'] else p

/-- The characters between double quotes. A full line is broken before a space and before and
after an escape, but not at the two ends of the text. `afterEscape` tells whether the
character before was an escape. -/
def addEscaped (splits : Bool) (indent : Nat) (isFirst afterEscape : Bool) : Page → Text → Page
  | p, [] => p
  | p, c :: s =>
    let inner := splits && !isFirst && !s.isEmpty
    if isUnescaped c then
      let isFull := inner && (c == ' ' || afterEscape) && bestWidth < p.column
      let p := if isFull then breakEscaped indent (c :: s) p else p
      addEscaped splits indent false false (p.add [c]) s
    else
      let p := p.add (escaped c)
      let isFull := inner && bestWidth + 1 < p.column
      addEscaped splits indent false true (if isFull then breakEscaped indent s p else p) s

/-- A text in a style. -/
def addStyled (splits : Bool) (indent : Nat) (style : Style) (s : Text) (p : Page) : Page :=
  match style with
  | .plain => addRuns splits indent true id true (p.addMark [] true false) (runs s)
  | .single =>
    let p := addRuns splits indent false doubled true (p.addMark ['\''] true false) (runs s)
    p.addMark ['\''] false false
  | .double =>
    (addEscaped splits indent true false (p.addMark ['"'] true false) s).addMark ['"'] false false

/-- A block of lines, each of which is kept as it is. -/
def addLines (indent : Nat) (lines : List Text) (p : Page) : Page :=
  lines.foldl (fun p line => ((p.moveTo indent).add line).addBreak '\n')
    ((p.addMark ['|'] true false).addBreak '\n')

/-! ## Nodes -/

/-- Adds an object with `add`, after an anchor if it occurs again, or an alias if it is written
already. -/
def addObject (mark : Nat) (add : Page → Page) (p : Page) : Page :=
  match Anchors.nameOf? p.named mark with
  | none => add p
  | some name =>
    if mark ∈ p.written then p.addMark ('*' :: name) true false
    else add { p.addMark ('&' :: name) true false with written := mark :: p.written }

/-- Floating-point numbers have a fraction before the mark of an exponent. -/
def floatNotation : FloatNotation :=
  { shownFloat with fractionBeforeMark := true, infinity := ".inf".toList,
                    notANumber := ".nan".toList }

/-- A value that is written in one word, with the length of its tag. -/
def word? : Value → Option (Text × Nat)
  | .null => some ("null".toList, 6)
  | .bool b => some ((if b then "true" else "false").toList, 6)
  | .int n => some (intDigits n, 5)
  | .float x => some (floatNotation.write x, 7)
  | .timestamp _ t => some (t.text, 11)
  | .list [] | .tuple [] => some (['[', ']'], 5)
  | .dict [] | .view [] => some (['\x7b', '\x7d'], 5)
  | _ => none

/-- The lengths of a key and its tag have to be less than this to be on one line with a
colon. -/
def keyLengthLimit : Nat := 128

/-- Whether a value can be a key with nothing but a colon after it. -/
def isSimpleKey : Value → Bool
  | .text s => !s.isEmpty && !s.any isBreak && s.length + 5 < keyLengthLimit
  | v => (word? v).any fun w => w.1.length + w.2 < keyLengthLimit

/-- Adds a value without parts, or with a tag and no more; `indent` is that of its further
lines. -/
def addLeaf (isKey : Bool) (indent : Nat) (v : Value) (p : Page) : Page :=
  match v with
  | .text s => addStyled (!isKey) indent (styleOf isKey s) s p
  | .timestamp mark t => addObject mark (addStyled (!isKey) indent .plain t.text) p
  | .bytes [] => (p.addMark "!!binary".toList true false).addMark ['"', '"'] true false
  | .bytes b =>
    let lines := (Base64.encodeLines b).splitOn '\n'
    addLines indent lines.dropLast (p.addMark "!!binary".toList true false)
  | .set mark _ =>
    addObject mark
      (fun p => (p.addMark "!!set".toList true false).addMark ['\x7b', '\x7d'] true false) p
  | v => p.addMark ((word? v).elim [] Prod.fst) true false

/-- The column of a block inside something at `outer`, or at the root. -/
def innerColumn (outer : Option Nat) : Nat :=
  outer.elim 0 (· + 2)

/-- Adds a key with nothing but a colon after it, at a column. -/
def addSimpleKey (column : Nat) (k : Value) (p : Page) : Page :=
  (addLeaf true (column + 2) k (p.moveTo column)).addMark [':'] false false

/-- Begins a key of any kind at a column. -/
def openKey (column : Nat) (p : Page) : Page :=
  (p.moveTo column).addMark ['?'] true true

/-- Ends a key that was begun at a column. -/
def closeKey (column : Nat) (p : Page) : Page :=
  (p.moveTo column).addMark [':'] true true

mutual

/-- Adds a node inside something at the column `outer`; `inMapping` tells whether that is an
entry of a mapping, whose sequences begin at its own column unless they are on its line. -/
def addNode (outer : Option Nat) (inMapping : Bool) : Value → Page → Page
  | .list (v :: items), p =>
    addItems (if inMapping && !p.isFresh then outer.getD 0 else innerColumn outer) (v :: items) p
  | .tuple (v :: items), p =>
    addItems (if inMapping && !p.isFresh then outer.getD 0 else innerColumn outer) (v :: items) p
  | .dict (e :: entries), p => addEntries (innerColumn outer) (e :: entries) p
  | .view (e :: entries), p => addEntries (innerColumn outer) (e :: entries) p
  | .set mark (v :: members), p =>
    addObject mark (fun p =>
      addMembers (innerColumn outer) (v :: members) (p.addMark "!!set".toList true false)) p
  | v, p => addLeaf false (outer.elim 2 (· + 2)) v p

/-- Adds the items of a sequence at a column. -/
def addItems (column : Nat) : List Value → Page → Page
  | [], p => p
  | v :: rest, p =>
    let p := (p.moveTo column).addMark ['-'] true true
    addItems column rest (addNode (some column) false v p)

/-- Adds the entries of a mapping at a column. -/
def addEntries (column : Nat) : List (Value × Value) → Page → Page
  | [], p => p
  | (k, v) :: rest, p =>
    let p := if isSimpleKey k then addSimpleKey column k p
      else closeKey column (addNode (some column) true k (openKey column p))
    addEntries column rest (addNode (some column) true v p)

/-- Adds the members of a set at a column, as keys without values. -/
def addMembers (column : Nat) : List Value → Page → Page
  | [], p => p
  | v :: rest, p =>
    let p := if isSimpleKey v then addSimpleKey column v p
      else closeKey column (addNode (some column) true v (openKey column p))
    addMembers column rest (addLeaf false (column + 2) .null p)

end

/-- Whether a document has to be marked as ended, because its only scalar is plain and could go
on. -/
def isOpenEnded : Value → Bool
  | .null | .bool _ | .int _ | .float _ | .timestamp _ _ => true
  | .text s => styleOf false s == .plain
  | _ => false

/-- The page of a value. -/
def page (v : Value) : Page :=
  (addNode none false v { named := (v.anchors {}).named }).moveTo 0

/-- A value as a YAML document, unless it holds an integer that is too long. -/
def write? (v : Value) : Option Text :=
  v.literal?.map fun _ =>
    (page v).text.reverse ++ (if isOpenEnded v then "...\n".toList else [])

end Yaml

end TagTemplate
