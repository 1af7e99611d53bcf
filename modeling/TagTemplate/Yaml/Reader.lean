import TagTemplate.Yaml.Node

/-!
# Reading YAML

`Yaml.read` gives a text its value. A mapping takes its entries in order, a key that occurs
again keeps its first place and takes the last value, and what is merged into a mapping goes
before its own entries. Of several faults, the one nearest to the root is found, and of
those the first.
-/

namespace TagTemplate

namespace Yaml

/-- The characters that may occur in a text. -/
def isAllowed (c : Char) : Bool :=
  let n := c.toNat
  n == 0x9 || n == 0xA || (0x20 ≤ n && n ≤ 0x7E) || n == 0x85 ||
    (0xA0 ≤ n && n != 0xFFFE && n != 0xFFFF)

/-! ## Faults by their depth -/

/-- A result, or a fault with its depth. -/
abbrev Deep (α : Type) := Except (Nat × Fault) α

namespace Deep

variable {α β γ : Type}

/-- A fault at a depth. -/
def fault (depth : Nat) (f : Fault) : Deep α :=
  .error (depth, f)

/-- A result whose fault is at a depth. -/
def atDepth (depth : Nat) (r : Except Fault α) : Deep α :=
  r.mapError fun f => (depth, f)

/-- Two results together, or the fault of less depth, and of two of one depth the first. -/
def both (f : α → β → γ) : Deep α → Deep β → Deep γ
  | .ok a, .ok b => .ok (f a b)
  | .ok _, .error e => .error e
  | .error d, .ok _ => .error d
  | .error d, .error e => .error (if e.1 < d.1 then e else d)

end Deep

/-! ## Entries -/

/-- An entry that a mapping is made of, with the mark of its key. -/
structure Binding where
  /-- The key. -/
  key : Value
  /-- The mark of the object that the key is. -/
  mark : Nat
  /-- The value. -/
  value : Value

namespace Binding

/-- Whether the keys of two entries are the same. What is not a number is the same as no other
object. -/
def hasSameKey (b c : Binding) : Bool :=
  match b.key, c.key with
  | .float .nan, .float .nan => b.mark == c.mark
  | k, l => k.same l

/-- The entries with one more : a key that is there keeps its place and its own form, a new one
goes to the end. -/
def put (b : Binding) : List Binding → List Binding
  | [] => [b]
  | c :: rest => if c.hasSameKey b then { c with value := b.value } :: rest else c :: put b rest

/-- The entries of the mapping that the bindings make, one after another. -/
def entries (bs : List Binding) : List (Value × Value) :=
  (bs.foldl (fun found b => b.put found) []).map fun b => (b.key, b.value)

end Binding

/-! ## The values of nodes -/

namespace Node

mutual

/-- The text of a node that stands for a scalar : a mapping stands for the value of its
default key. -/
def scalarText? : Node → Option Text
  | .scalar _ _ text => some text
  | .sequence _ _ => none
  | .mapping _ _ entries => defaultText? entries

/-- The text of the value of the first default key. -/
def defaultText? : List (Node × Node) → Option Text
  | [] => none
  | (k, v) :: rest => if k.tag = .default then scalarText? v else defaultText? rest

end

/-- The value of a node that stands for a scalar. A timestamp has to be one by itself. -/
def scalarAt (depth : Nat) (tag : Tag) (node : Node) : Deep Value :=
  match node.scalarText?, node with
  | none, _ => .fault depth .malformed
  | some text, .scalar mark _ _ => Deep.atDepth depth (scalarValue mark tag text)
  | some text, _ =>
    if tag = .timestamp then .fault depth .partsNotText
    else Deep.atDepth depth (scalarValue 0 tag text)

/-- The value of a key. Collections are no keys, and the default key is a text in a mapping. -/
def keyAt (depth : Nat) (node : Node) : Deep Value :=
  if node.tag.isCollection then .fault depth .malformed
  else if node.tag = .default then scalarAt depth .text node
  else scalarAt depth node.tag node

/-- The mark of the object that a key is : one object stands for all words for not a number. -/
def keyMark (node : Node) : Nat :=
  if node.scalarText?.any isNotANumberWord then 0 else node.mark

mutual

/-- Whether only mappings, or sequences of mappings, are merged into a mapping and into those
that are merged into it. -/
def mergesMappings : List (Node × Node) → Bool
  | [] => true
  | (k, v) :: rest => (k.tag != .merge || isMergeable v) && mergesMappings rest

/-- Whether a node can be merged into a mapping. -/
def isMergeable : Node → Bool
  | .scalar _ _ _ => false
  | .sequence _ items => areMergeable items
  | .mapping _ _ entries => mergesMappings entries

/-- Whether all nodes of a sequence are mappings that can be merged into one. -/
def areMergeable : List Node → Bool
  | [] => true
  | .mapping _ _ entries :: rest => mergesMappings entries && areMergeable rest
  | _ => false

end

mutual

/-- The value of a node. The parts of a collection are one level deeper, and so is the fault of a
node that is no collection of its kind. -/
def valueAt (depth : Nat) : Node → Deep Value
  | .scalar mark tag text =>
    if tag.isCollection then .fault (depth + 1) .malformed
    else Deep.atDepth depth (scalarValue mark tag text)
  | .sequence tag items =>
    match tag with
    | .sequence => (itemsAt (depth + 1) items).map .list
    | .pairs => (pairsAt (depth + 1) items).map .list
    | .mapping | .set => .fault (depth + 1) .malformed
    | _ => .fault depth .malformed
  | .mapping mark tag entries =>
    match tag with
    | .mapping => (bindingsAt (depth + 1) entries).map fun bs => .dict (Binding.entries bs)
    | .set =>
      (bindingsAt (depth + 1) entries).map fun bs =>
        .set mark ((Binding.entries bs).map Prod.fst)
    | .sequence | .pairs => .fault (depth + 1) .malformed
    | _ => scalarAt depth tag (.mapping mark tag entries)

/-- The values of the items of a sequence. -/
def itemsAt (depth : Nat) : List Node → Deep (List Value)
  | [] => .ok []
  | node :: rest => Deep.both List.cons (valueAt depth node) (itemsAt depth rest)

/-- The pairs that the items of a sequence are, each a mapping of one entry. -/
def pairsAt (depth : Nat) : List Node → Deep (List Value)
  | [] => .ok []
  | .mapping _ _ [(k, v)] :: rest =>
    let pair := Deep.both (fun k v => Value.tuple [k, v]) (valueAt depth k) (valueAt depth v)
    Deep.both List.cons pair (pairsAt depth rest)
  | _ => .fault depth .malformed

/-- The entries that a mapping takes : those that are merged into it, and then its own. That
something cannot be merged is found before any of them. -/
def bindingsAt (depth : Nat) (entries : List (Node × Node)) : Deep (List Binding) :=
  if mergesMappings entries then
    let (merged, own) := splitAt depth entries
    Deep.both List.append merged own
  else .fault depth .malformed

/-- The entries that are merged into a mapping, and its own. -/
def splitAt (depth : Nat) : List (Node × Node) → Deep (List Binding) × Deep (List Binding)
  | [] => (.ok [], .ok [])
  | (k, v) :: rest =>
    let (merged, own) := splitAt depth rest
    if k.tag = .merge then (Deep.both List.append (mergedAt depth v) merged, own)
    else
      let binding := Deep.both (fun key value => ⟨key, k.keyMark, value⟩) (keyAt depth k)
        (valueAt depth v)
      (merged, Deep.both List.cons binding own)

/-- The entries of a node that is merged into a mapping : a mapping, or a sequence of
mappings, of which the first counts most. -/
def mergedAt (depth : Nat) : Node → Deep (List Binding)
  | .scalar _ _ _ => .fault depth .malformed
  | .sequence _ items => mergedItemsAt depth items
  | .mapping _ _ entries => bindingsAt depth entries

/-- The entries of mappings that are merged into one, the last mapping first. -/
def mergedItemsAt (depth : Nat) : List Node → Deep (List Binding)
  | [] => .ok []
  | .mapping _ _ entries :: rest =>
    Deep.both List.append (mergedItemsAt depth rest) (bindingsAt depth entries)
  | _ => .fault depth .malformed

end

/-- The value of a root node. -/
def value (node : Node) : Except Fault Value :=
  (valueAt 0 node).mapError Prod.snd

end Node

/-- The value of a YAML text, whose lines end with line feeds. A text without a document has
the absent value. -/
def read (s : Text) : Except Fault Value := do
  let s := if s.head? = some '\uFEFF' then s.drop 1 else s
  if !s.all isAllowed then throw .malformed
  match Node.ofTokens? (← Token.scan s) with
  | none => throw .malformed
  | some none => return .null
  | some (some node) => node.value

end Yaml

end TagTemplate
