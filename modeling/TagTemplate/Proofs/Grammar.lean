import Mathlib.Data.List.TakeWhile
import TagTemplate.Tag.Reading

/-!
# The grammar of tags

What the text of a tag looks like, said without the reader. `Opening.Spells` holds between an
opening and each text that writes it, and `Tag.Heads` between a tag, a text that begins with it
and what follows. The reader and the grammar agree : `opening?` and `tag?` find what the grammar
admits, and nothing else (`opening?_eq_some_iff`, `tag?_eq_some_iff`, `tag?_eq_none_iff`).

The choice among closers is part of the grammar : a tag reaches to the first closer of its
name (`FirstAt`, `splitAround?_eq_some`), and is an opening alone only if no closer of its name
follows anywhere (`splitAround?_eq_none_iff`).
-/

namespace TagTemplate

/-! ## Runs of characters -/

section Runs

variable {p : Char → Bool} {a b : Text}

theorem takeWhile_append_of_stop (ha : ∀ c ∈ a, p c = true) (hb : ∀ c ∈ b.head?, p c = false) :
    (a ++ b).takeWhile p = a := by
  rw [List.takeWhile_append_of_pos ha]
  cases b with
  | nil => simp
  | cons c b => simp [hb c rfl]

theorem dropWhile_append_of_stop (ha : ∀ c ∈ a, p c = true) (hb : ∀ c ∈ b.head?, p c = false) :
    (a ++ b).dropWhile p = b := by
  rw [List.dropWhile_append_of_pos ha]
  cases b with
  | nil => rfl
  | cons c b => simp [hb c rfl]

end Runs

theorem isName_iff {s : Text} : isName s = true ↔ s ≠ [] ∧ ∀ c ∈ s, isNameChar c = true := by
  simp [isName]

theorem isNameChar_of_mem {s : Text} (h : isName s = true) {c : Char} (hc : c ∈ s) :
    isNameChar c = true :=
  (isName_iff.mp h).2 c hc

theorem isBracket_of_isNameChar {c : Char} (h : isNameChar c = true) : isBracket c = false := by
  by_contra hb
  simp only [isBracket, Bool.not_eq_false, Bool.or_eq_true, beq_iff_eq] at hb
  rcases hb with rfl | rfl <;> exact absurd h (by decide)

theorem trim_cons_of_isBlank {c : Char} (h : isBlank c = true) (s : Text) :
    trim (c :: s) = trim s := by
  rw [trim, List.dropWhile_cons_of_pos h, trim]

/-- Trimming leaves a text as it is that neither begins nor ends with a blank. -/
theorem trim_of_ends {s : Text} (hhead : ∀ c ∈ s.head?, isBlank c = false)
    (hlast : ∀ c ∈ s.getLast?, isBlank c = false) : trim s = s := by
  have hkeep : ∀ u : Text, (∀ c ∈ u.head?, isBlank c = false) → u.dropWhile isBlank = u :=
    fun u hu => @dropWhile_append_of_stop isBlank [] u (by simp) hu
  rw [trim, hkeep s hhead, trimEnd, hkeep _ (by simpa using hlast), List.reverse_reverse]

theorem trim_of_isName {s : Text} (h : isName s = true) : trim s = s :=
  trim_of_ends (fun _ hc => isBlank_of_isNameChar (isNameChar_of_mem h (List.mem_of_mem_head? hc)))
    fun _ hc => isBlank_of_isNameChar (isNameChar_of_mem h (List.mem_of_getLast? hc))

/-! ## Openings -/

/-- What stands before an opening to escape it. -/
def escapeMark (escaped : Bool) : Text :=
  if escaped then ['\\'] else []

/-- `o.Spells w` : the text `w` writes the opening `o`. Blanks may stand before the name; what
stands between the name and the end holds no bracket, and begins with a blank if it is
anything. -/
inductive Opening.Spells : Opening → Text → Prop
  | intro (escaped : Bool) {blanks name inner : Text} (hblanks : ∀ c ∈ blanks, isBlank c = true)
    (hname : isName name = true) (hinner : ∀ c ∈ inner, isBracket c = false)
    (hsep : ∀ c ∈ inner.head?, isBlank c = true) :
    Spells ⟨escaped, name, trim inner⟩
      (escapeMark escaped ++ '[' :: '@' :: (blanks ++ (name ++ (inner ++ [']']))))

/-- An opening is written at the head of a text. -/
def OpensAt (s : Text) : Prop :=
  ∃ o w, Opening.Spells o w ∧ w <+: s

/-- An opening begins with a bracket, or with a backslash and a bracket. -/
theorem OpensAt.eq_cons {s : Text} (h : OpensAt s) :
    ∃ u, s = '[' :: u ∨ s = '\\' :: '[' :: u := by
  obtain ⟨o, w, ⟨escaped, -, -, -, -⟩, u, rfl⟩ := h
  cases escaped with
  | false => exact ⟨_, Or.inl rfl⟩
  | true => exact ⟨_, Or.inr rfl⟩

theorem openingAfterMark?_append (escaped : Bool) {blanks name inner : Text} (rest : Text)
    (hblanks : ∀ c ∈ blanks, isBlank c = true) (hname : isName name = true)
    (hinner : ∀ c ∈ inner, isBracket c = false) (hsep : ∀ c ∈ inner.head?, isBlank c = true) :
    openingAfterMark? escaped (blanks ++ (name ++ (inner ++ ']' :: rest))) =
      some (⟨escaped, name, trim inner⟩, rest) := by
  obtain ⟨hne, hchars⟩ := isName_iff.mp hname
  have hstart : ∀ c ∈ (name ++ (inner ++ ']' :: rest)).head?, isBlank c = false := by
    intro c hc
    obtain ⟨d, ds, rfl⟩ := List.exists_cons_of_ne_nil hne
    obtain rfl := Option.some.inj hc
    exact isBlank_of_isNameChar (hchars _ (List.mem_cons_self ..))
  have hstop : ∀ c ∈ (inner ++ ']' :: rest).head?, isNameChar c = false := by
    intro c hc
    by_contra hn
    have hb := isBlank_of_isNameChar (by simpa using hn)
    cases inner with
    | nil => obtain rfl := Option.some.inj hc; exact hn (by decide)
    | cons d inner =>
      obtain rfl := Option.some.inj hc
      rw [hsep d rfl] at hb
      cases hb
  have hinner' : ∀ c ∈ inner, (!isBracket c) = true := by simpa using hinner
  have hclose : ∀ c ∈ (']' :: rest).head?, (!isBracket c) = false := by
    intro c hc
    obtain rfl := Option.some.inj hc
    decide
  simp only [openingAfterMark?, dropWhile_append_of_stop hblanks hstart,
    dropWhile_append_of_stop hchars hstop, takeWhile_append_of_stop hchars hstop,
    dropWhile_append_of_stop hinner' hclose, takeWhile_append_of_stop hinner' hclose]
  have hname' : name.isEmpty = false := by simpa using hne
  have hsep' : inner.head?.all isBlank = true := by
    cases h : inner.head? with
    | none => rfl
    | some c => exact hsep c h
  simp [hname', hsep']

theorem spelled_of_openingAfterMark? {escaped : Bool} {s rest : Text} {o : Opening}
    (h : openingAfterMark? escaped s = some (o, rest)) :
    ∃ blanks name inner, s = blanks ++ (name ++ (inner ++ ']' :: rest)) ∧
      (∀ c ∈ blanks, isBlank c = true) ∧ isName name = true ∧
      (∀ c ∈ inner, isBracket c = false) ∧ (∀ c ∈ inner.head?, isBlank c = true) ∧
      o = ⟨escaped, name, trim inner⟩ := by
  simp only [openingAfterMark?] at h
  split at h
  case h_2 => cases h
  next r hr =>
    split at h
    case isFalse => cases h
    next hc =>
      simp only [Bool.and_eq_true, Bool.not_eq_true'] at hc
      obtain ⟨rfl, rfl⟩ := Prod.mk.inj (Option.some.inj h)
      refine ⟨s.takeWhile isBlank, (s.dropWhile isBlank).takeWhile isNameChar,
        ((s.dropWhile isBlank).dropWhile isNameChar).takeWhile fun c => !isBracket c,
        ?_, fun c hc => List.mem_takeWhile_imp hc, ?_, ?_, ?_, rfl⟩
      · rw [← hr, List.takeWhile_append_dropWhile, List.takeWhile_append_dropWhile,
          List.takeWhile_append_dropWhile]
      · rw [isName_iff]
        exact ⟨by simpa using hc.1, fun c hc => List.mem_takeWhile_imp hc⟩
      · intro c hc
        simpa using List.mem_takeWhile_imp hc
      · intro c hc'
        have hall := hc.2
        rw [Option.mem_def.mp hc'] at hall
        simpa using hall

/-- The reader finds an opening exactly if one is written at the head of the text. -/
theorem opening?_eq_some_iff {s rest : Text} {o : Opening} :
    opening? s = some (o, rest) ↔ ∃ w, o.Spells w ∧ s = w ++ rest := by
  constructor
  · intro h
    unfold opening? at h
    split at h
    case h_3 => cases h
    all_goals
      obtain ⟨blanks, name, inner, rfl, hb, hn, hi, hs, rfl⟩ := spelled_of_openingAfterMark? h
      exact ⟨_, .intro _ hb hn hi hs, by simp [escapeMark]⟩
  · rintro ⟨w, ⟨escaped, hb, hn, hi, hs⟩, rfl⟩
    cases escaped <;>
      simpa [opening?, escapeMark] using openingAfterMark?_append _ rest hb hn hi hs

theorem opening?_eq_none_iff {s : Text} : opening? s = none ↔ ¬OpensAt s := by
  rw [Option.eq_none_iff_forall_ne_some]
  constructor
  · rintro h ⟨o, w, hw, rest, rfl⟩
    exact h (o, rest) (opening?_eq_some_iff.mpr ⟨w, hw, rfl⟩)
  · rintro h ⟨o, rest⟩ ho
    obtain ⟨w, hw, rfl⟩ := opening?_eq_some_iff.mp ho
    exact h ⟨o, w, hw, rest, rfl⟩

/-! ## The first closer -/

/-- `mark` occurs in `s` for the first time after `before`, and is followed by `after`. -/
structure FirstAt (mark s before after : Text) : Prop where
  split : s = before ++ (mark ++ after)
  first : ∀ a b, s = a ++ (mark ++ b) → before.length ≤ a.length

theorem FirstAt.of_isPrefix {mark s after : Text} (h : s = mark ++ after) :
    FirstAt mark s [] after :=
  ⟨by simpa using h, fun _ _ _ => Nat.zero_le _⟩

theorem FirstAt.cons {mark s before after : Text} {c : Char} (h : FirstAt mark s before after)
    (hc : ¬mark <+: c :: s) : FirstAt mark (c :: s) (c :: before) after := by
  refine ⟨by rw [h.split]; rfl, fun a b hab => ?_⟩
  cases a with
  | nil => exact absurd ⟨b, hab.symm⟩ hc
  | cons d a =>
    have := h.first a b (List.cons.inj hab).2
    simpa using this

theorem splitAround?_eq_some {mark before s content rest : Text}
    (h : splitAround? mark before s = some (content, rest)) :
    ∃ passed, content = before.reverse ++ passed ∧ FirstAt mark s passed rest := by
  induction s generalizing before with
  | nil =>
    simp only [splitAround?] at h
    split at h
    case isFalse => cases h
    next hm =>
      obtain ⟨rfl, rfl⟩ := Prod.mk.inj (Option.some.inj h)
      exact ⟨[], by simp, .of_isPrefix (by simpa using hm)⟩
  | cons c s ih =>
    simp only [splitAround?] at h
    split at h
    next hm =>
      obtain ⟨after, hafter⟩ := List.isPrefixOf_iff_prefix.mp hm
      obtain ⟨rfl, rfl⟩ := Prod.mk.inj (Option.some.inj h)
      exact ⟨[], by simp, .of_isPrefix (by rw [← hafter]; simp)⟩
    next hm =>
      obtain ⟨passed, rfl, hfirst⟩ := ih h
      exact ⟨c :: passed, by simp, hfirst.cons (by simpa using hm)⟩

theorem splitAround?_eq_none_iff {mark before s : Text} :
    splitAround? mark before s = none ↔ ¬mark <:+: s := by
  induction s generalizing before with
  | nil => cases mark <;> simp [splitAround?]
  | cons c s ih =>
    rw [List.infix_cons_iff, splitAround?]
    split
    next hm => simp [List.isPrefixOf_iff_prefix.mp hm]
    next hm =>
      have : ¬mark <+: c :: s := by simpa using hm
      simp [ih, this]

theorem FirstAt.unique {mark s before after before' after' : Text}
    (h : FirstAt mark s before after) (h' : FirstAt mark s before' after') :
    before = before' ∧ after = after' := by
  have hlen : before.length = before'.length :=
    le_antisymm (h.first _ _ h'.split) (h'.first _ _ h.split)
  obtain ⟨rfl, hrest⟩ := List.append_inj (h.split.symm.trans h'.split) hlen
  exact ⟨rfl, List.append_cancel_left hrest⟩

/-- The content of a tag ends at the first closer of its name. -/
theorem body_of_firstAt {name rest content after : Text}
    (h : FirstAt (closer name) rest content after) : body name rest = (content, after) := by
  cases hs : splitAround? (closer name) [] rest with
  | none =>
    exact absurd ⟨content, after, by rw [h.split]; simp⟩ (splitAround?_eq_none_iff.mp hs)
  | some r =>
    obtain ⟨passed, hpassed, hfirst⟩ := splitAround?_eq_some hs
    obtain ⟨rfl, rfl⟩ := h.unique hfirst
    rw [body, hs]
    simp only [Option.getD_some]
    exact Prod.ext (by simpa using hpassed) rfl

theorem body_of_no_closer {name rest : Text} (h : ¬closer name <:+: rest) :
    body name rest = ([], rest) := by
  rw [body, splitAround?_eq_none_iff.mpr h, Option.getD_none]

theorem body_cases (name rest : Text) :
    FirstAt (closer name) rest (body name rest).1 (body name rest).2 ∨
      ¬closer name <:+: rest ∧ body name rest = ([], rest) := by
  cases hs : splitAround? (closer name) [] rest with
  | none =>
    have h := splitAround?_eq_none_iff.mp hs
    exact Or.inr ⟨h, body_of_no_closer h⟩
  | some r =>
    obtain ⟨passed, -, hfirst⟩ := splitAround?_eq_some hs
    rw [body_of_firstAt hfirst]
    exact Or.inl hfirst

/-! ## Tags -/

/-- `t.Heads s rest` : the text `s` begins with the tag `t`, and `rest` follows. Either the tag
reaches to the first closer of its name, or it is an opening alone and no closer of its name
occurs in what follows. -/
inductive Tag.Heads : Tag → Text → Text → Prop
  | paired {o : Opening} {w content rest : Text} (ho : o.Spells w)
    (hfirst : FirstAt (closer o.name) (content ++ (closer o.name ++ rest)) content rest) :
    Heads ⟨o, content, w ++ (content ++ closer o.name)⟩
      (w ++ (content ++ (closer o.name ++ rest))) rest
  | single {o : Opening} {w rest : Text} (ho : o.Spells w) (hnone : ¬closer o.name <:+: rest) :
    Heads ⟨o, [], w⟩ (w ++ rest) rest

theorem tag?_of_heads {t : Tag} {s rest : Text} (h : t.Heads s rest) :
    tag? s = some (t, rest) := by
  cases h with
  | @paired o w content rest ho hfirst =>
    rw [tag?, opening?_eq_some_iff.mpr ⟨w, ho, rfl⟩]
    simp only [Option.map_some, body_of_firstAt hfirst]
    have hwritten : (w ++ (content ++ (closer o.name ++ rest))) =
        (w ++ (content ++ closer o.name)) ++ rest := by simp
    rw [hwritten, List.length_append, Nat.add_sub_cancel, List.take_left']
    rfl
  | @single o w rest ho hnone =>
    rw [tag?, opening?_eq_some_iff.mpr ⟨w, ho, rfl⟩]
    simp [body_of_no_closer hnone]

theorem heads_of_tag? {t : Tag} {s rest : Text} (h : tag? s = some (t, rest)) :
    t.Heads s rest := by
  obtain ⟨⟨o, r⟩, ho, -⟩ := Option.map_eq_some_iff.mp h
  obtain ⟨w, hw, rfl⟩ := opening?_eq_some_iff.mp ho
  -- The tag is the one that the grammar gives, so the reader finds that one.
  rcases body_cases o.name r with hfirst | ⟨hnone, -⟩
  · generalize body o.name r = b at hfirst
    obtain ⟨content, after⟩ := b
    obtain rfl := hfirst.split
    have hheads := Tag.Heads.paired hw hfirst
    obtain ⟨rfl, rfl⟩ := Prod.mk.inj (Option.some.inj ((tag?_of_heads hheads).symm.trans h))
    exact hheads
  · have hheads := Tag.Heads.single hw hnone
    obtain ⟨rfl, rfl⟩ := Prod.mk.inj (Option.some.inj ((tag?_of_heads hheads).symm.trans h))
    exact hheads

/-- The reader finds a tag exactly if the text begins with it. -/
theorem tag?_eq_some_iff {t : Tag} {s rest : Text} :
    tag? s = some (t, rest) ↔ t.Heads s rest :=
  ⟨heads_of_tag?, tag?_of_heads⟩

/-- The reader finds no tag exactly if the text does not begin with an opening. -/
theorem tag?_eq_none_iff {s : Text} : tag? s = none ↔ ¬OpensAt s := by
  rw [tag?, Option.map_eq_none_iff, opening?_eq_none_iff]

end TagTemplate
