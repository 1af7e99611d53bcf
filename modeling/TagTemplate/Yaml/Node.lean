import TagTemplate.Yaml.Token

/-!
# Nodes of YAML

A node is a scalar, a sequence or a mapping, with the tag that says what it stands for.
`Node.ofTokens?` is the one node of a text's tokens. An alias is replaced by the node whose
anchor it names; so a node that contains itself is none. What is left of an alias is the mark of
the node, which no other node of the text has.
-/

namespace TagTemplate

namespace Yaml

/-- A node. -/
inductive Node where
  /-- A text. -/
  | scalar (mark : Nat) (tag : Tag) (text : Text)
  /-- A list of nodes. -/
  | sequence (tag : Tag) (items : List Node)
  /-- A list of keys and values. -/
  | mapping (mark : Nat) (tag : Tag) (entries : List (Node × Node))

namespace Node

/-- The node of a place where nothing is written. -/
def absent : Node :=
  .scalar 0 .null []

/-- The tag of a node. -/
def tag : Node → Tag
  | scalar _ tag _ => tag
  | sequence tag _ => tag
  | mapping _ tag _ => tag

/-- The mark of a node; those that stand for no object have none. -/
def mark : Node → Nat
  | scalar mark _ _ => mark
  | sequence _ _ => 0
  | mapping mark _ _ => mark

/-- What is left to read, and the anchors so far with their nodes. -/
structure Pending where
  /-- The tokens. -/
  tokens : List Token
  /-- The anchors. -/
  anchors : List (Text × Node) := []
  /-- The last mark that was given to a node. -/
  lastMark : Nat := 0

/-- Reading a part of the tokens. -/
abbrev Reading := StateT Pending Option

/-- The next token. -/
def next? : Reading (Option Token) := do
  return (← get).tokens.head?

/-- Passes over a token. -/
def pass : Reading Unit :=
  modify fun p => { p with tokens := p.tokens.drop 1 }

/-- Passes over the next token if it is `t`, and tells whether it was. -/
def accept (t : Token) : Reading Bool := do
  if (← next?) = some t then
    pass
    return true
  return false

/-- A mark that no node has yet. -/
def newMark : Reading Nat :=
  modifyGet fun p => (p.lastMark + 1, { p with lastMark := p.lastMark + 1 })

/-- Whether one of some tokens or the end comes next. -/
def isNextAmong (ts : List Token) : Reading Bool := do
  return (← next?).all fun t => t ∈ ts

/-- The handles of tags : a single exclamation mark stands for itself, and two for the tags in
common use. -/
def commonHandles : List (Text × Text) :=
  [(['!'], ['!']), (['!', '!'], commonTags)]

/-- The tag of a node in full, if it has one. -/
def fullTag (handles : List (Text × Text)) (handle : Option Text) (suffix : Text) :
    Reading Text :=
  match handle with
  | none => return suffix
  | some handle =>
    match (handles ++ commonHandles).lookup handle with
    | some beginning => return beginning ++ suffix
    | none => failure

/-- The anchor and the tag before a node, in any order. -/
def properties (handles : List (Text × Text)) : Reading (Option Text × Option Text) := do
  match ← next? with
  | some (.anchor name) =>
    pass
    match ← next? with
    | some (.tag handle suffix) =>
      pass
      return (some name, some (← fullTag handles handle suffix))
    | _ => return (some name, none)
  | some (.tag handle suffix) =>
    pass
    let tag ← fullTag handles handle suffix
    match ← next? with
    | some (.anchor name) =>
      pass
      return (some name, some tag)
    | _ => return (none, some tag)
  | _ => return (none, none)

/-- Whether a node's tag follows from the way the node is written. -/
def isImplicit (tag : Option Text) : Bool :=
  tag.all (· = ['!'])

/-- The tag of a collection. -/
def collectionTag (tag : Option Text) (usual : Tag) : Tag :=
  if isImplicit tag then usual else (tag.map Tag.ofText).getD usual

/-- The tag of a scalar : plain ones without a tag, and all with the tag `!`, get it from the
way they are written. -/
def scalarTag (tag : Option Text) (isPlain : Bool) (text : Text) : Tag :=
  match tag with
  | none => if isPlain then .ofPlain text else .text
  | some tag => if tag = ['!'] then .ofPlain text else .ofText tag

/-- The node of an alias. -/
def named (name : Text) : Reading Node := do
  match (← get).anchors.lookup name with
  | some node => return node
  | none => failure

/-- Gives a node its anchor, which no other node may have. -/
def anchored (anchor : Option Text) (node : Node) : Reading Node := do
  match anchor with
  | none => return node
  | some name =>
    if ((← get).anchors.lookup name).isSome then failure
    modify fun p => { p with anchors := (name, node) :: p.anchors }
    return node

/-- Where a node may stand, and so what it may be. -/
structure Place where
  /-- Whether it may be a block. -/
  allowsBlock : Bool
  /-- Whether it may be a sequence that is not indented. -/
  allowsUnindented : Bool

/-- A place inside a flow collection. -/
def Place.flow : Place := ⟨false, false⟩

/-- A place inside a block of items, or the root of a document. -/
def Place.block : Place := ⟨true, false⟩

/-- A place inside a block of entries. -/
def Place.entry : Place := ⟨true, true⟩

mutual

/-- The node at a place. Each step spends one unit of `fuel`, of which four for every token and
four more are always enough. -/
def read (handles : List (Text × Text)) : Nat → Place → Reading Node
  | 0, _ => failure
  | fuel + 1, place => do
    match ← next? with
    | some (.alias name) =>
      pass
      named name
    | _ =>
      let (anchor, tag) ← properties handles
      let node ← content handles fuel place tag (anchor.isSome || tag.isSome)
      anchored anchor node

/-- The node at a place after its anchor and tag. Without either of them it cannot be
absent. -/
def content (handles : List (Text × Text)) :
    Nat → Place → Option Text → Bool → Reading Node
  | 0, _, _, _ => failure
  | fuel + 1, place, tag, hasProperties => do
    let mark ← newMark
    let sequenceOf (items : List Node) : Node := .sequence (collectionTag tag .sequence) items
    let mappingOf (entries : List (Node × Node)) : Node :=
      .mapping mark (collectionTag tag .mapping) entries
    match ← next? with
    | some (.scalar isPlain text) =>
      pass
      return .scalar mark (scalarTag tag isPlain text) text
    | some .flowSequenceStart =>
      pass
      return sequenceOf (← flowItems handles fuel true [])
    | some .flowMappingStart =>
      pass
      return mappingOf (← flowEntries handles fuel true [])
    | t =>
      if place.allowsUnindented && t = some .blockEntry then
        return sequenceOf (← unindentedItems handles fuel [])
      else if place.allowsBlock && t = some .blockSequenceStart then
        pass
        return sequenceOf (← blockItems handles fuel [])
      else if place.allowsBlock && t = some .blockMappingStart then
        pass
        return mappingOf (← blockEntries handles fuel [])
      else if hasProperties then
        return .scalar mark (if isImplicit tag then .null else (tag.map Tag.ofText).getD .null) []
      else failure

/-- The node at a place, or the absent one if a token comes next that ends it. -/
def readOrAbsent (handles : List (Text × Text)) :
    Nat → Place → List Token → Reading Node
  | 0, _, _ => failure
  | fuel + 1, place, ends => do
    if ← isNextAmong ends then return absent
    read handles fuel place

/-- The items of a block; `before` are those that were read, in reverse. -/
def blockItems (handles : List (Text × Text)) : Nat → List Node → Reading (List Node)
  | 0, _ => failure
  | fuel + 1, before => do
    if ← accept .blockEntry then
      let node ← readOrAbsent handles fuel .block [.blockEntry, .blockEnd]
      blockItems handles fuel (node :: before)
    else if ← accept .blockEnd then return before.reverse
    else failure

/-- The items of a sequence that is not indented; `before` are those that were read, in
reverse. -/
def unindentedItems (handles : List (Text × Text)) : Nat → List Node → Reading (List Node)
  | 0, _ => failure
  | fuel + 1, before => do
    if ← accept .blockEntry then
      let node ← readOrAbsent handles fuel .block [.blockEntry, .key, .value, .blockEnd]
      unindentedItems handles fuel (node :: before)
    else return before.reverse

/-- The entries of a block; `before` are those that were read, in reverse. -/
def blockEntries (handles : List (Text × Text)) :
    Nat → List (Node × Node) → Reading (List (Node × Node))
  | 0, _ => failure
  | fuel + 1, before => do
    if ← accept .key then
      let key ← readOrAbsent handles fuel .entry [.key, .value, .blockEnd]
      let value ← valueAfter handles fuel .entry [.key, .value, .blockEnd]
      blockEntries handles fuel ((key, value) :: before)
    else if ← accept .blockEnd then return before.reverse
    else failure

/-- The value after a key, or the absent one if there is no mark of a value. -/
def valueAfter (handles : List (Text × Text)) :
    Nat → Place → List Token → Reading Node
  | 0, _, _ => failure
  | fuel + 1, place, ends => do
    if ← accept .value then readOrAbsent handles fuel place ends
    else return absent

/-- The items of a flow sequence; `isFirst` tells that no comma is needed before the next one,
and `before` are those that were read, in reverse. A key among them begins a mapping of one
entry. -/
def flowItems (handles : List (Text × Text)) : Nat → Bool → List Node → Reading (List Node)
  | 0, _, _ => failure
  | fuel + 1, isFirst, before => do
    if ← accept .flowSequenceEnd then return before.reverse
    if !isFirst then
      if !(← accept .flowEntry) then failure
    if ← accept .flowSequenceEnd then return before.reverse
    if ← accept .key then
      let key ← readOrAbsent handles fuel .flow [.value, .flowEntry, .flowSequenceEnd]
      let value ← valueAfter handles fuel .flow [.flowEntry, .flowSequenceEnd]
      flowItems handles fuel false (.mapping 0 .mapping [(key, value)] :: before)
    else
      let node ← read handles fuel .flow
      flowItems handles fuel false (node :: before)

/-- The entries of a flow mapping; `isFirst` tells that no comma is needed before the next
one, and `before` are those that were read, in reverse. -/
def flowEntries (handles : List (Text × Text)) :
    Nat → Bool → List (Node × Node) → Reading (List (Node × Node))
  | 0, _, _ => failure
  | fuel + 1, isFirst, before => do
    if ← accept .flowMappingEnd then return before.reverse
    if !isFirst then
      if !(← accept .flowEntry) then failure
    if ← accept .flowMappingEnd then return before.reverse
    if ← accept .key then
      let key ← readOrAbsent handles fuel .flow [.value, .flowEntry, .flowMappingEnd]
      let value ← valueAfter handles fuel .flow [.flowEntry, .flowMappingEnd]
      flowEntries handles fuel false ((key, value) :: before)
    else
      let node ← read handles fuel .flow
      flowEntries handles fuel false ((node, absent) :: before)

end

/-- The handles that directives before a document give; there is one version at most, and each
handle is given once. -/
def directives (hasVersion : Bool) (handles : List (Text × Text)) :
    List Token → Option (List (Text × Text) × List Token)
  | .version major :: rest =>
    if hasVersion || major != 1 then none else directives true handles rest
  | .tagHandle handle beginning :: rest =>
    if (handles.lookup handle).isSome then none
    else directives hasVersion ((handle, beginning) :: handles) rest
  | .directive :: rest => directives hasVersion handles rest
  | rest => some (handles, rest)

/-- The node of a document that starts without a mark or right after it, if nothing but marks
of its end follows. -/
def ofDocument? (handles : List (Text × Text)) (isMarked : Bool) (tokens : List Token) :
    Option Node := do
  let fuel := 4 * tokens.length + 4
  let root : Reading Node := do
    let isAbsent ← isNextAmong [.directive, .documentStart, .documentEnd]
    if isMarked && isAbsent then return absent
    read handles fuel .block
  let (node, pending) ← root.run { tokens }
  guard (pending.tokens.all (· = .documentEnd))
  return node

/-- The node of the only document of a text; there is none if the text has no document. -/
def ofTokens? (tokens : List Token) : Option (Option Node) :=
  match tokens with
  | [] => some none
  | .documentStart :: _ | .version _ :: _ | .tagHandle _ _ :: _ | .directive :: _ => do
    let (handles, rest) ← directives false [] tokens
    guard (rest.head? = some .documentStart)
    return some (← ofDocument? handles true (rest.drop 1))
  | _ => return some (← ofDocument? [] false tokens)

end Node

end Yaml

end TagTemplate
