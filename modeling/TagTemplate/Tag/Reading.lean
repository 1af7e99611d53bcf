import TagTemplate.Tag.Attribute

/-!
# Reading tags

A tag opens with `[@`, optional blanks, a name, optionally blanks and attribute text without
brackets, and `]`. If the closer of that name follows anywhere, the tag reaches to the first
such closer and has the text between as its content; otherwise it is the opening alone. A
backslash directly before the opening belongs to the tag and escapes it.

`Reading.ofText` splits a text into its tags, from left to right and without overlap, and
the gaps before, between and after them. `Reading.matchesOfText` also reads the attributes,
which fails if an integer among them has too many digits.
-/

namespace TagTemplate

/-! ## One tag -/

/-- The opening of a tag. -/
structure Opening where
  /-- Whether a backslash stands before it. -/
  escaped : Bool
  /-- The tag's name. -/
  name : Text
  /-- The text of its attributes, trimmed. -/
  attributeText : Text
deriving Repr, DecidableEq

/-- A tag as it is written. -/
structure Tag extends Opening where
  /-- The text between the opening and the closer; none for an opening alone. -/
  content : Text
  /-- The whole tag, with the backslash of an escaped one. -/
  written : Text
deriving Repr, DecidableEq

/-- The brackets, which no attribute text holds. -/
def isBracket (c : Char) : Bool :=
  c == '[' || c == ']'

/-- The rest of an opening after `[@`, and what follows it. -/
def openingAfterMark? (escaped : Bool) (s : Text) : Option (Opening × Text) :=
  let s := s.dropWhile isBlank
  let name := s.takeWhile isNameChar
  let s := s.dropWhile isNameChar
  let inner := s.takeWhile fun c => !isBracket c
  match s.dropWhile fun c => !isBracket c with
  | ']' :: rest =>
    if !name.isEmpty && inner.head?.all isBlank then some (⟨escaped, name, trim inner⟩, rest)
    else none
  | _ => none

/-- The opening at the head of a text, and what follows it. -/
def opening? : Text → Option (Opening × Text)
  | '\\' :: '[' :: '@' :: s => openingAfterMark? true s
  | '[' :: '@' :: s => openingAfterMark? false s
  | _ => none

/-- The closer of a name. -/
def closer (name : Text) : Text :=
  '[' :: '/' :: '@' :: name ++ [']']

/-- Splits a text around the first occurrence of `mark`; `before` is what was passed over,
in reverse. -/
def splitAround? (mark : Text) (before : Text) : Text → Option (Text × Text)
  | [] => if mark.isEmpty then some (before.reverse, []) else none
  | c :: s =>
    if mark.isPrefixOf (c :: s) then some (before.reverse, (c :: s).drop mark.length)
    else splitAround? mark (c :: before) s

/-- The content that follows an opening and what is left after the closer. -/
def body (name rest : Text) : Text × Text :=
  (splitAround? (closer name) [] rest).getD ([], rest)

/-- The tag at the head of a text, and what follows it. -/
def tag? (s : Text) : Option (Tag × Text) :=
  (opening? s).map fun (opening, rest) =>
    let (content, rest) := body opening.name rest
    (⟨opening, content, s.take (s.length - rest.length)⟩, rest)

/-! ## What follows is shorter -/

theorem length_of_openingAfterMark? {escaped : Bool} {s rest : Text} {o : Opening}
    (h : openingAfterMark? escaped s = some (o, rest)) : rest.length < s.length := by
  simp only [openingAfterMark?] at h
  have h1 := (List.dropWhile_sublist (l := s) isBlank).length_le
  have h2 := (List.dropWhile_sublist (l := s.dropWhile isBlank) isNameChar).length_le
  have h3 := (List.dropWhile_sublist (l := (s.dropWhile isBlank).dropWhile isNameChar)
    fun c => !isBracket c).length_le
  split at h
  · next r hr =>
    rw [hr] at h3
    split at h
    · cases h; simp at h3; omega
    · cases h
  · cases h

theorem length_of_opening? {s rest : Text} {o : Opening} (h : opening? s = some (o, rest)) :
    rest.length + 2 < s.length := by
  unfold opening? at h
  split at h
  · have := length_of_openingAfterMark? h; simp; omega
  · have := length_of_openingAfterMark? h; simp; omega
  · cases h

theorem length_of_splitAround? {mark before s content rest : Text}
    (h : splitAround? mark before s = some (content, rest)) :
    content.length + rest.length ≤ before.length + s.length := by
  induction s generalizing before with
  | nil =>
    simp only [splitAround?] at h
    split at h
    · cases h; simp
    · cases h
  | cons c s ih =>
    simp only [splitAround?] at h
    split at h
    · cases h; simp
    · have := ih h; simp at this ⊢; omega

theorem length_body_le (name rest : Text) :
    (body name rest).1.length + (body name rest).2.length ≤ rest.length := by
  unfold body
  cases h : splitAround? (closer name) [] rest with
  | none => simp
  | some r =>
    obtain ⟨content, left⟩ := r
    simpa using length_of_splitAround? h

/-- A tag's content is shorter than the text it was read from. -/
theorem length_of_tag? {s rest : Text} {t : Tag} (h : tag? s = some (t, rest)) :
    t.content.length < s.length ∧ rest.length < s.length := by
  simp only [tag?, Option.map_eq_some_iff] at h
  obtain ⟨⟨o, r⟩, ho, ht⟩ := h
  have h1 := length_of_opening? ho
  have h2 := length_body_le o.name r
  cases ht
  dsimp only
  omega

/-! ## All tags -/

/-- A text split at its tags : each with the gap before it, and the gap after the last. -/
structure Reading (α : Type) where
  /-- The tags, each after the gap that precedes it. -/
  pieces : List (Text × α)
  /-- What follows the last tag. -/
  tail : Text
deriving Repr

/-- Splits a text at its tags; `gap` is what was passed over since the last one, in
reverse. -/
def Reading.scan (gap s : Text) : Reading Tag :=
  match s with
  | [] => ⟨[], gap.reverse⟩
  | c :: cs =>
    match _h : tag? (c :: cs) with
    | some (tag, rest) =>
      let reading := Reading.scan [] rest
      ⟨(gap.reverse, tag) :: reading.pieces, reading.tail⟩
    | none => Reading.scan (c :: gap) cs
termination_by s.length
decreasing_by
  · have := (length_of_tag? _h).2
    simpa using this
  · simp

/-- The reading of a text. -/
def Reading.ofText (s : Text) : Reading Tag :=
  Reading.scan [] s

/-- Every content in a reading is shorter than the text that was read. -/
theorem Reading.length_content_of_mem_scan {gap s : Text} {p : Text × Tag}
    (h : p ∈ (Reading.scan gap s).pieces) : p.2.content.length < s.length := by
  induction hn : s.length using Nat.strongRecOn generalizing gap s with
  | _ n ih =>
    subst hn
    cases s with
    | nil => simp [Reading.scan] at h
    | cons c cs =>
      rw [Reading.scan] at h
      split at h
      · next tag rest ht =>
        have hl := length_of_tag? ht
        rcases List.mem_cons.mp h with rfl | h
        · exact hl.1
        · exact Nat.lt_trans (ih _ hl.2 h rfl) hl.2
      · have := ih cs.length (by simp) h rfl
        simp; omega

/-! ## Matches -/

/-- A tag that was found in a text : where it is, and its attributes. -/
structure Match where
  /-- The tag's name. -/
  name : Text
  /-- The text between opening and closer. -/
  content : Text
  /-- The attributes of the opening. -/
  attributes : Attributes
  /-- The whole tag as written. -/
  written : Text
  /-- Whether a backslash escapes it. -/
  escaped : Bool
  /-- The position of its first character. -/
  start : Nat

/-- The position just past a match. -/
def Match.stop (m : Match) : Nat :=
  m.start + m.written.length

/-- The match that a tag at a position makes. -/
def Tag.matchAt (t : Tag) (start : Nat) : Except Fault Match := do
  let attributes ← Attributes.read t.attributeText
  return ⟨t.name, t.content, attributes, t.written, t.escaped, start⟩

/-- The matches of the tags that follow the position `start`. -/
def matchesFrom (start : Nat) : List (Text × Tag) → Except Fault (List (Text × Match))
  | [] => .ok []
  | (gap, tag) :: rest => do
    let found ← tag.matchAt (start + gap.length)
    let others ← matchesFrom found.stop rest
    return (gap, found) :: others

/-- The reading of a text with the attributes read. -/
def Reading.matchesOfText (s : Text) : Except Fault (Reading Match) := do
  let reading := Reading.ofText s
  let pieces ← matchesFrom 0 reading.pieces
  return ⟨pieces, reading.tail⟩

/-- The matches of a reading, without the gaps. -/
def Reading.matches {α : Type} (r : Reading α) : List α :=
  r.pieces.map Prod.snd

theorem length_content_of_mem_matchesFrom {n : Nat} :
    ∀ {tags : List (Text × Tag)} {start : Nat} {found : List (Text × Match)},
      matchesFrom start tags = .ok found → (∀ p ∈ tags, p.2.content.length < n) →
        ∀ p ∈ found, p.2.content.length < n
  | [], _, _, h, _, p, hp => by cases h; simp at hp
  | (gap, tag) :: rest, start, found, h, hn, p, hp => by
    simp only [matchesFrom, Tag.matchAt, bind, Except.bind, pure, Except.pure] at h
    cases ha : Attributes.read tag.attributeText with
    | error f => simp [ha] at h
    | ok as =>
      simp only [ha] at h
      split at h
      · cases h
      · next others ho =>
        cases h
        rcases List.mem_cons.mp hp with rfl | hp
        · exact hn _ (List.mem_cons_self ..)
        · exact length_content_of_mem_matchesFrom ho
            (fun q hq => hn q (List.mem_cons_of_mem _ hq)) p hp

/-- A match's content is shorter than the text it was found in. -/
theorem Reading.length_content_of_mem {s : Text} {r : Reading Match}
    (h : Reading.matchesOfText s = .ok r) {p : Text × Match} (hp : p ∈ r.pieces) :
    p.2.content.length < s.length := by
  simp only [Reading.matchesOfText, bind, Except.bind, pure, Except.pure] at h
  split at h
  · cases h
  · next pieces hf =>
    cases h
    exact length_content_of_mem_matchesFrom hf
      (fun _ hq => Reading.length_content_of_mem_scan hq) p hp

/-! ## The quick test -/

/-- Whether blanks and a name character follow an opening mark. -/
def opensName : Text → Bool
  | '@' :: s => (s.dropWhile isBlank).head?.any isNameChar
  | _ => false

/-- Whether the beginning of an opening occurs anywhere in a text. A text without one has no
tags; a text with one may have none either. -/
def hasOpening : Text → Bool
  | [] => false
  | c :: s => (c == '[' && opensName s) || hasOpening s

end TagTemplate
