import TagTemplate.Value.Shown

/-!
# Anchors of YAML

An object that a tree holds in several places is written once, under a name that the other places
repeat. `Value.anchors` finds these objects : each is named when it is met for the second time,
so the names are numbered in that order. The parts of an object are looked at only once.
-/

namespace TagTemplate

/-- The objects met so far, by their marks. -/
structure Anchors where
  /-- All of them. -/
  met : List Nat := []
  /-- Those that were met again, in the order in which they were. -/
  named : List Nat := []

/-- The anchors after an object is met. -/
def Anchors.meet (a : Anchors) (mark : Nat) : Anchors :=
  if mark ∉ a.met then { a with met := mark :: a.met }
  else if mark ∉ a.named then { a with named := a.named ++ [mark] }
  else a

namespace Value

mutual

/-- The anchors after all objects of a tree are met. -/
def anchors (a : Anchors) : Value → Anchors
  | .timestamp mark _ => a.meet mark
  | .set mark members => if mark ∈ a.met then a.meet mark else itemAnchors (a.meet mark) members
  | .list items => itemAnchors a items
  | .tuple items => itemAnchors a items
  | .dict entries => entryAnchors a entries
  | .view entries => entryAnchors a entries
  | _ => a

/-- The anchors after all objects of some trees are met. -/
def itemAnchors (a : Anchors) : List Value → Anchors
  | [] => a
  | v :: rest => itemAnchors (anchors a v) rest

/-- The anchors after all objects of a mapping's keys and values are met. -/
def entryAnchors (a : Anchors) : List (Value × Value) → Anchors
  | [] => a
  | (k, v) :: rest => entryAnchors (anchors (anchors a k) v) rest

end

end Value

/-- The name of the anchor of an object, if it has one. -/
def Anchors.nameOf? (named : List Nat) (mark : Nat) : Option Text :=
  if mark ∈ named then some ('i' :: 'd' :: paddedDigits 3 (named.idxOf mark + 1)) else none

end TagTemplate
