import TagTemplate.Tree
import TagTemplate.Proofs.Replacement

/-!
# The texts of a tree

A walk looks at a tree as at the texts in it, each under the label of the entry that holds it
(`Value.leaves`), and as at what is around them. `Value.replaced` puts other texts in the places of
the old ones : an entry with no text left is dropped, and everything that is not a text stays,
containers also if nothing is left in them.

A walk passes over a text that fails the quick test. That makes no difference : no tag is read in
such a text, and its evaluation hands it back without asking for a call (`evaluate_of_plain`).
-/

namespace TagTemplate

/-! ## Texts and what is around them -/

/-- A text of a tree, under the label of the entry that holds it. -/
structure Leaf where
  label : Text
  text : Text
deriving Repr, DecidableEq

namespace Value

/-- Whether a tree is a mapping, a list or a tuple. -/
def isContainer : Value → Bool
  | .list _ | .tuple _ | .dict _ | .view _ => true
  | _ => false

mutual

/-- The texts of an entry, in order. -/
def leaves (label : Text) : Value → List Leaf
  | .text s => [⟨label, s⟩]
  | .list items => itemLeaves 0 items
  | .tuple items => itemLeaves 0 items
  | .dict entries => entryLeaves entries
  | .view entries => entryLeaves entries
  | _ => []

/-- The texts of items from a place on. -/
def itemLeaves (index : Nat) : List Value → List Leaf
  | [] => []
  | v :: rest => leaves (itemLabel index) v ++ itemLeaves (index + 1) rest

/-- The texts of a mapping's entries. -/
def entryLeaves : List (Value × Value) → List Leaf
  | [] => []
  | (k, v) :: rest => leaves (k.shown?.getD []) v ++ entryLeaves rest

end

/-- How many texts a tree has. -/
def leafCount (v : Value) : Nat :=
  (v.leaves []).length

mutual

/-- Whether every key of the tree's mappings can be shown. -/
def keysShown : Value → Bool
  | .list items => itemKeysShown items
  | .tuple items => itemKeysShown items
  | .dict entries => entryKeysShown entries
  | .view entries => entryKeysShown entries
  | _ => true

/-- Whether every key in the items can be shown. -/
def itemKeysShown : List Value → Bool
  | [] => true
  | v :: rest => keysShown v && itemKeysShown rest

/-- Whether every key of the entries and in them can be shown. -/
def entryKeysShown : List (Value × Value) → Bool
  | [] => true
  | (k, v) :: rest => k.shown?.isSome && keysShown v && entryKeysShown rest

end

mutual

/-- The entry with `texts` in the places of its texts, one for each in order; nothing if it is a
text and has none. -/
def replaced : Value → List (Option Text) → Option Value
  | .text _, texts => (texts.headD none).map .text
  | .list items, texts => some (.list (replacedItems items texts))
  | .tuple items, texts => some (.tuple (replacedItems items texts))
  | .dict entries, texts => some (.dict (replacedEntries entries texts))
  | .view entries, texts => some (.dict (replacedEntries entries texts))
  | v, _ => some v

/-- The items that are kept, with the texts in place. -/
def replacedItems : List Value → List (Option Text) → List Value
  | [], _ => []
  | v :: rest, texts =>
    (replaced v texts).toList ++ replacedItems rest (texts.drop v.leafCount)

/-- The entries that are kept, with the texts in place. -/
def replacedEntries : List (Value × Value) → List (Option Text) → List (Value × Value)
  | [], _ => []
  | (k, v) :: rest, texts =>
    ((replaced v texts).map fun w => (k, w)).toList ++
      replacedEntries rest (texts.drop v.leafCount)

end

theorem itemKeysShown_cons {v : Value} {rest : List Value}
    (h : itemKeysShown (v :: rest) = true) : v.keysShown = true ∧ itemKeysShown rest = true := by
  rwa [itemKeysShown, Bool.and_eq_true] at h

theorem entryKeysShown_cons {k v : Value} {rest : List (Value × Value)}
    (h : entryKeysShown ((k, v) :: rest) = true) :
    ∃ label, k.shown? = some label ∧ v.keysShown = true ∧ entryKeysShown rest = true := by
  rw [entryKeysShown, Bool.and_eq_true, Bool.and_eq_true] at h
  obtain ⟨label, hlabel⟩ := Option.isSome_iff_exists.mp h.1.1
  exact ⟨label, hlabel, h.1.2, h.2⟩

theorem isSome_keyLabels? {entries : List (Value × Value)} (h : entryKeysShown entries = true) :
    (keyLabels? entries).isSome = true := by
  induction entries with
  | nil => rfl
  | cons entry rest ih =>
    obtain ⟨k, v⟩ := entry
    obtain ⟨label, hlabel, -, hrest⟩ := entryKeysShown_cons h
    obtain ⟨labels, hlabels⟩ := Option.isSome_iff_exists.mp (ih hrest)
    rw [keyLabels?] at hlabels
    simp [keyLabels?, List.mapM_cons, hlabel, hlabels]

/-- How many texts a tree has does not depend on its label. -/
theorem length_leaves (label : Text) (v : Value) : (v.leaves label).length = v.leafCount := by
  cases v <;> rfl

end Value

/-! ## Texts that are passed over -/

/-- Where an opening is written, the quick test finds its beginning. -/
theorem hasOpening_of_opensAt {s : Text} (h : OpensAt s) : hasOpening s = true := by
  obtain ⟨o, w, ⟨escaped, hblanks, hname, -, -⟩, u, rfl⟩ := h
  obtain ⟨hne, hchars⟩ := isName_iff.mp hname
  obtain ⟨c, name, rfl⟩ := List.exists_cons_of_ne_nil hne
  have hc := hchars c (List.mem_cons_self ..)
  cases escaped <;>
    simp [escapeMark, hasOpening, opensName, List.dropWhile_append_of_pos hblanks, hc,
      isBlank_of_isNameChar hc]

/-- A text without the beginning of an opening has no tags. -/
theorem ofText_of_plain {s : Text} (h : hasOpening s = false) : Reading.ofText s = ⟨[], s⟩ := by
  induction s with
  | nil => exact Reading.ofText_nil
  | cons c s ih =>
    have hnone : ¬OpensAt (c :: s) := fun ho => by rw [hasOpening_of_opensAt ho] at h; cases h
    rw [hasOpening, Bool.or_eq_false_iff] at h
    rw [Reading.ofText_cons hnone, ih h.2]
    rfl

theorem matchesOfText_of_plain {s : Text} (h : hasOpening s = false) :
    Reading.matchesOfText s = .ok ⟨[], s⟩ := by
  rw [matchesOfText_eq_ok] <;> simp [ofText_of_plain h, Reading.matches, placedFrom]

/-- The evaluation of such a text asks for nothing and leaves it as it is. -/
theorem evaluate_of_plain {B : Type} (look : Text → Option (Spec B)) {s : Text}
    (h : hasOpening s = false) : evaluate look s = .done ⟨s, []⟩ := by
  rw [evaluate_of_ok look (matchesOfText_of_plain h)]
  rfl

end TagTemplate
