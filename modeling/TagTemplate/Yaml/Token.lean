import TagTemplate.Yaml.Lexeme

/-!
# Tokens of YAML

`Token.scan` cuts a text into tokens. Outside flow collections the indentation of a line
opens and closes blocks, and the colon after a node on the same line makes that node the key
of an entry : only then is it known that a key, and perhaps a mapping, began before it. So a
`Scan` remembers for every open collection where its next key could begin (`KeyStart`), and
puts the missing tokens in there when it meets the colon.
-/

namespace TagTemplate

namespace Yaml

/-- A token. -/
inductive Token where
  /-- The version of the language, by its first number. -/
  | version (major : Nat)
  /-- The beginning of tags with a handle. -/
  | tagHandle (handle beginning : Text)
  /-- Another directive. -/
  | directive
  /-- The mark of the beginning of a document. -/
  | documentStart
  /-- The mark of the end of a document. -/
  | documentEnd
  /-- The beginning of a block of items. -/
  | blockSequenceStart
  /-- The beginning of a block of entries. -/
  | blockMappingStart
  /-- The end of a block. -/
  | blockEnd
  /-- An opening bracket. -/
  | flowSequenceStart
  /-- A closing bracket. -/
  | flowSequenceEnd
  /-- An opening brace. -/
  | flowMappingStart
  /-- A closing brace. -/
  | flowMappingEnd
  /-- The beginning of an item of a block. -/
  | blockEntry
  /-- The comma between two parts of a flow collection. -/
  | flowEntry
  /-- The beginning of a key. -/
  | key
  /-- The beginning of a value. -/
  | value
  /-- Another occurrence of a node that has an anchor. -/
  | alias (name : Text)
  /-- The anchor of a node. -/
  | anchor (name : Text)
  /-- The tag of a node : its handle, if it is not written in full, and the rest of it. -/
  | tag (handle : Option Text) (suffix : Text)
  /-- A scalar, and whether it is plain. -/
  | scalar (isPlain : Bool) (text : Text)
deriving Repr, DecidableEq

/-- A place where the key of an entry may begin. -/
structure KeyStart where
  /-- The number of tokens before it. -/
  tokensBefore : Nat
  /-- Where it is. -/
  place : Position
  /-- Whether nothing but a key can be there. -/
  isRequired : Bool
deriving Repr

/-- How far a key may be from its colon. -/
def keyReach : Nat := 1024

/-- How far a text is scanned. -/
structure Scan where
  /-- The place that has been reached. -/
  here : Cursor
  /-- The tokens before it, in reverse. -/
  tokens : List Token := []
  /-- The number of these tokens. -/
  count : Nat := 0
  /-- The columns of the open blocks, the innermost first. -/
  indents : List Nat := []
  /-- Whether a key may begin here. -/
  allowsKey : Bool := true
  /-- Where a key may have begun in each of the open collections, the innermost first; the last
  is for all blocks together. -/
  keys : List (Option KeyStart) := [none]

namespace Scan

/-- Whether a flow collection is open. -/
def inFlow (s : Scan) : Bool :=
  1 < s.keys.length

/-- The scan with one more token. -/
def add (s : Scan) (t : Token) : Scan :=
  { s with tokens := t :: s.tokens, count := s.count + 1 }

/-- The scan some characters further. -/
def advance (s : Scan) (n : Nat) : Scan :=
  { s with here := s.here.advance n }

/-- The scan with a token of some characters. -/
def take (s : Scan) (n : Nat) (t : Token) : Scan :=
  (s.advance n).add t

/-! ## Indentation -/

/-- Closes the blocks that are indented further than a column. -/
def closeBlocks (column : Nat) (s : Scan) : Scan :=
  if s.inFlow then s
  else
    let open' := s.indents.dropWhile (column < ·)
    let closed := s.indents.length - open'.length
    { s with
      indents := open'
      tokens := List.replicate closed .blockEnd ++ s.tokens
      count := s.count + closed }

/-- Closes all blocks. -/
def closeAllBlocks (s : Scan) : Scan :=
  { s with
    indents := []
    tokens := s.indents.map (fun _ => .blockEnd) ++ s.tokens
    count := s.count + s.indents.length }

/-- Whether a block at a column is inside the innermost block. -/
def isDeeper (s : Scan) (column : Nat) : Bool :=
  s.indents.head?.all (· < column)

/-- Opens a block here unless the innermost one begins at the same column. -/
def openBlock (t : Token) (s : Scan) : Scan :=
  let column := s.here.position.column
  if s.isDeeper column then { s.add t with indents := column :: s.indents } else s

/-! ## Keys -/

/-- The scan without the key that may have begun in the innermost collection. -/
def dropKey (s : Scan) : Except Fault Scan :=
  match s.keys with
  | some k :: rest =>
    if k.isRequired then .error .malformed else .ok { s with keys := none :: rest }
  | _ => .ok s

/-- The scan that remembers that a key may begin here. -/
def markKey (s : Scan) : Except Fault Scan :=
  if s.allowsKey then do
    let s ← s.dropKey
    let place := s.here.position
    let isRequired := !s.inFlow && s.indents.head? = some place.column
    return { s with keys := some ⟨s.count, place, isRequired⟩ :: s.keys.drop 1 }
  else .ok s

/-- Whether a key that began at a place can still end here : it is on one line and not too
long. -/
def isInReach (here : Position) (k : KeyStart) : Bool :=
  k.place.line == here.line && here.index - k.place.index ≤ keyReach

/-- The scan without the keys that are out of reach. -/
def dropFarKeys (s : Scan) : Except Fault Scan :=
  let here := s.here.position
  let isFar (k : KeyStart) : Bool := !isInReach here k
  if s.keys.any fun k => k.any fun k => isFar k && k.isRequired then .error .malformed
  else .ok { s with keys := s.keys.map fun k => k.filter (isInReach here) }

/-- The tokens with some put in where there were `before` of them. -/
def insert (s : Scan) (before : Nat) (ts : List Token) : Scan :=
  let after := s.count - before
  { s with
    tokens := s.tokens.take after ++ ts.reverse ++ s.tokens.drop after
    count := s.count + ts.length }

/-! ## Tokens of one character -/

/-- Opens a flow collection, which may be a key. -/
def openFlow (t : Token) (s : Scan) : Except Fault Scan := do
  let s ← s.markKey
  return { s.take 1 t with keys := none :: s.keys, allowsKey := true }

/-- Closes a flow collection. -/
def closeFlow (t : Token) (s : Scan) : Except Fault Scan :=
  match s.keys with
  | _ :: outer :: rest =>
    .ok { s.take 1 t with keys := outer :: rest, allowsKey := false }
  | _ => .error .malformed

/-- Takes a comma. -/
def comma (s : Scan) : Except Fault Scan := do
  return { (← s.dropKey).take 1 .flowEntry with allowsKey := true }

/-- Takes the hyphen of an item. -/
def hyphen (s : Scan) : Except Fault Scan := do
  if s.inFlow then return { (← s.dropKey).take 1 .blockEntry with allowsKey := true }
  if !s.allowsKey then throw .malformed
  return (← (s.openBlock .blockSequenceStart).dropKey).take 1 .blockEntry

/-- Takes the question mark of a key. -/
def questionMark (s : Scan) : Except Fault Scan := do
  if s.inFlow then return { (← s.dropKey).take 1 .key with allowsKey := false }
  if !s.allowsKey then throw .malformed
  return (← (s.openBlock .blockMappingStart).dropKey).take 1 .key

/-- Takes the colon of a value whose key began at a place on the same line. -/
def colonAfter (k : KeyStart) (s : Scan) : Scan :=
  let s := { s with keys := none :: s.keys.drop 1, allowsKey := false }
  let opens := !s.inFlow && s.isDeeper k.place.column
  let s := if opens then
      { s.insert k.tokensBefore [.blockMappingStart, .key] with
        indents := k.place.column :: s.indents }
    else s.insert k.tokensBefore [.key]
  s.take 1 .value

/-- Takes the colon of a value. -/
def colon (s : Scan) : Except Fault Scan := do
  match s.keys with
  | some k :: _ => return s.colonAfter k
  | _ =>
    if s.inFlow then return { s.take 1 .value with allowsKey := false }
    if !s.allowsKey then throw .malformed
    return (s.openBlock .blockMappingStart).take 1 .value

/-! ## Longer tokens -/

/-- Takes a token that may be a key, or the beginning of one. -/
def takeNode (s : Scan) (read : Cursor → Except Fault (Token × Cursor)) : Except Fault Scan := do
  let s ← s.markKey
  let (t, after) ← read s.here
  return { s.add t with here := after, allowsKey := false }

/-- Takes an anchor or an alias. -/
def name (token : Text → Token) (s : Scan) : Except Fault Scan :=
  s.takeNode fun cursor =>
    match anchorName? (cursor.advance 1) with
    | some (name, after) => .ok (token name, after)
    | none => .error .malformed

/-- Takes a tag. -/
def tag (s : Scan) : Except Fault Scan :=
  s.takeNode fun cursor =>
    match tagProperty? cursor with
    | some ((handle, suffix), after) => .ok (.tag handle suffix, after)
    | none => .error .malformed

/-- Takes a quoted scalar. -/
def quoted (s : Scan) : Except Fault Scan :=
  s.takeNode fun cursor =>
    (quotedScalar cursor).map fun (text, after) => (.scalar false text, after)

/-- The column that the lines of a scalar have to reach. -/
def scalarIndent (s : Scan) : Nat :=
  (s.indents.head?.map (· + 1)).getD 0

/-- Takes a plain scalar. A key may begin after its last line. -/
def plain (s : Scan) : Except Fault Scan := do
  let s ← s.markKey
  let p := plainScalar s.inFlow s.scalarIndent [] .none s.here.position s.here.rest
  return { s.add (.scalar true p.text) with here := p.after, allowsKey := p.endsLine }

/-- Takes a block of lines. -/
def block (folds : Bool) (s : Scan) : Except Fault Scan := do
  let s ← s.dropKey
  match blockScalar? folds s.scalarIndent (s.here.advance 1) with
  | some (text, after) =>
    return { s.add (.scalar false text) with here := after, allowsKey := true }
  | none => throw .malformed

/-- Takes the mark of the beginning or the end of a document. -/
def documentMark (t : Token) (s : Scan) : Except Fault Scan := do
  return { (← s.closeAllBlocks.dropKey).take 3 t with allowsKey := false }

/-- The number at a place. -/
def number? (cursor : Cursor) : Option (Nat × Cursor) :=
  let (digits, after) := cursor.span Char.isDigit
  if digits.isEmpty then none else some (natOf digits, after)

/-- Whether a space, a line break or nothing follows. -/
def endsWord (cursor : Cursor) : Bool :=
  cursor.rest.head?.all fun c => c == ' ' || isBreak c

/-- A directive after its percent sign, and the place after its words. -/
def directiveToken? (cursor : Cursor) : Option (Token × Cursor) := do
  let (name, after) := cursor.span isNameLetter
  guard (!name.isEmpty && endsWord after)
  if name = "YAML".toList then do
    let (major, after) ← number? (after.skip (· == ' '))
    guard (after.rest.head? = some '.')
    let (_, after) ← number? (after.advance 1)
    guard (endsWord after)
    return (.version major, after)
  else if name = "TAG".toList then do
    let (handle, after) ← tagHandle? (after.skip (· == ' '))
    guard (after.rest.head? = some ' ')
    let (beginning, after) ← tagPart? (after.skip (· == ' '))
    guard (endsWord after)
    return (.tagHandle handle beginning, after)
  else return (.directive, after.skip (!isBreak ·))

/-- Takes a directive with the rest of its line. -/
def directive (s : Scan) : Except Fault Scan := do
  let s ← s.closeAllBlocks.dropKey
  match directiveToken? (s.here.advance 1) with
  | some (t, after) =>
    match after.nextLine? with
    | some after => return { s.add t with here := after, allowsKey := false }
    | none => throw .malformed
  | none => throw .malformed

/-! ## All tokens -/

/-- The place of the next token, and whether a key may begin there : outside flow collections
it may after a line break. -/
def skipGap (inFlow allowsKey inComment : Bool) (p : Position) : Text → Bool × Cursor
  | [] => (allowsKey, ⟨[], p⟩)
  | c :: s =>
    if isBreak c then skipGap inFlow (allowsKey || !inFlow) false (p.after c) s
    else if inComment || c == ' ' then skipGap inFlow allowsKey inComment (p.after c) s
    else if c = '#' then skipGap inFlow allowsKey true (p.after c) s
    else (allowsKey, ⟨c :: s, p⟩)

/-- The scan at the next token, with the blocks closed that end before it. -/
def settle (s : Scan) : Except Fault Scan := do
  let (allowsKey, here) :=
    skipGap s.inFlow s.allowsKey false s.here.position s.here.rest
  let s ← { s with here, allowsKey }.dropFarKeys
  return s.closeBlocks here.position.column

/-- Takes the token that begins with the character `c` before `rest`. -/
def takeToken (s : Scan) (c : Char) (rest : Text) : Except Fault Scan :=
  let atStart := s.here.position.column = 0
  if atStart ∧ c = '%' then s.directive
  else if atStart ∧ c = '-' ∧ isDocumentMark (c :: rest) then s.documentMark .documentStart
  else if atStart ∧ c = '.' ∧ isDocumentMark (c :: rest) then s.documentMark .documentEnd
  else if c = '[' then s.openFlow .flowSequenceStart
  else if c = '\x7b' then s.openFlow .flowMappingStart
  else if c = ']' then s.closeFlow .flowSequenceEnd
  else if c = '\x7d' then s.closeFlow .flowMappingEnd
  else if c = ',' then s.comma
  else if c = '-' ∧ endsToken rest then s.hyphen
  else if c = '?' ∧ (s.inFlow ∨ endsToken rest) then s.questionMark
  else if c = ':' ∧ (s.inFlow ∨ endsToken rest) then s.colon
  else if c = '*' then s.name .alias
  else if c = '&' then s.name .anchor
  else if c = '!' then s.tag
  else if c = '|' ∧ !s.inFlow then s.block false
  else if c = '>' ∧ !s.inFlow then s.block true
  else if c = '\'' ∨ c = '"' then s.quoted
  else if beginsPlain s.inFlow (c :: rest) then s.plain
  else .error .malformed

/-- The end of a scan. -/
def finish (s : Scan) : Except Fault (List Token) := do
  return (← s.closeAllBlocks.dropKey).tokens.reverse

/-- The tokens of a text that is scanned so far. Each token spends one unit of `fuel`, of which
one more than there are characters is always enough. -/
def run : Nat → Scan → Except Fault (List Token)
  | 0, _ => .error .malformed
  | fuel + 1, s => do
    let s ← s.settle
    match s.here.rest with
    | [] => s.finish
    | c :: rest => run fuel (← s.takeToken c rest)

end Scan

/-- The tokens of a text. -/
def Token.scan (s : Text) : Except Fault (List Token) :=
  Scan.run (s.length + 1) { here := ⟨s, ⟨0, 0, 0⟩⟩ }

end Yaml

end TagTemplate
