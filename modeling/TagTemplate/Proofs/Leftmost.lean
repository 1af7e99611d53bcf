import TagTemplate.Proofs.Grammar
import TagTemplate.Proofs.Numerals

/-!
# The leftmost reading

A text is read by taking the first tag that the grammar admits, going on behind it, and so on.
`Reading.Leftmost` says that of a text and a reading, and `Reading.ofText` gives the one reading
of which it holds (`leftmost_iff`). Inductions on the tags of a text go through `Leftmost`.

`ReadsFrom` says the same of the matches alone, by positions : each match is a tag of the
text at its place, they follow one another without overlap, and every place where an opening is
written lies inside one of them. The matches of a text are the only ones of which it holds
(`readsFrom_placedFrom`, `ReadsFrom.unique`). Reading fails only where an attribute of a tag is
an integer literal beyond the limit (`matchesOfText_eq_ok`).
-/

namespace TagTemplate

/-! ## What a tag takes up -/

theorem Opening.Spells.length_pos {o : Opening} {w : Text} (h : o.Spells w) : 0 < w.length := by
  cases h
  simp only [List.length_append, List.length_cons]
  omega

theorem Opening.Spells.isName_name {o : Opening} {w : Text} (h : o.Spells w) :
    isName o.name = true := by
  cases h
  assumption

/-- An opening without a backslash begins with the mark. -/
theorem Opening.Spells.mark_isPrefix {o : Opening} {w : Text} (h : o.Spells w)
    (hescaped : o.escaped = false) : ['[', '@'] <+: w := by
  cases h
  obtain rfl : _ = false := hescaped
  exact ⟨_, rfl⟩

namespace Tag.Heads

variable {t : Tag} {s rest : Text}

theorem eq_append (h : t.Heads s rest) : s = t.written ++ rest := by
  cases h <;> simp

theorem opensAt (h : t.Heads s rest) : OpensAt s := by
  cases h with
  | paired ho => exact ⟨_, _, ho, List.prefix_append ..⟩
  | single ho => exact ⟨_, _, ho, List.prefix_append ..⟩

theorem length_written_pos (h : t.Heads s rest) : 0 < t.written.length := by
  cases h with
  | paired ho => have := ho.length_pos; simp only [List.length_append]; omega
  | single ho => exact ho.length_pos

theorem isName_name (h : t.Heads s rest) : isName t.name = true := by
  cases h with
  | paired ho => exact ho.isName_name
  | single ho => exact ho.isName_name

theorem mark_isPrefix (h : t.Heads s rest) (hescaped : t.escaped = false) :
    ['[', '@'] <+: t.written := by
  cases h with
  | paired ho => exact (ho.mark_isPrefix hescaped).trans (List.prefix_append ..)
  | single ho => exact ho.mark_isPrefix hescaped

/-- A text begins with at most one tag. -/
theorem unique {t' : Tag} {rest' : Text} (h : t.Heads s rest) (h' : t'.Heads s rest') :
    t = t' ∧ rest = rest' :=
  Prod.mk.inj (Option.some.inj ((tag?_of_heads h).symm.trans (tag?_of_heads h')))

end Tag.Heads

/-! ## Readings -/

namespace Reading

/-- The reading with more text before its first tag. -/
def after {α : Type} (gap : Text) (r : Reading α) : Reading α :=
  match r.pieces with
  | [] => ⟨[], gap ++ r.tail⟩
  | (g, x) :: rest => ⟨(gap ++ g, x) :: rest, r.tail⟩

@[simp] theorem after_nil {α : Type} (r : Reading α) : r.after [] = r := by
  obtain ⟨_ | ⟨p, ps⟩, tail⟩ := r <;> rfl

theorem after_after {α : Type} (a b : Text) (r : Reading α) :
    (r.after b).after a = r.after (a ++ b) := by
  obtain ⟨_ | ⟨p, ps⟩, tail⟩ := r <;> simp [after]

theorem matches_after {α : Type} (gap : Text) (r : Reading α) :
    (r.after gap).matches = r.matches := by
  obtain ⟨_ | ⟨p, ps⟩, tail⟩ := r <;> rfl

theorem scan_of_none {gap cs : Text} {c : Char} (h : tag? (c :: cs) = none) :
    scan gap (c :: cs) = scan (c :: gap) cs := by
  rw [scan]
  split
  next h' => rw [h] at h'; cases h'
  next => rfl

theorem scan_of_some {gap cs rest : Text} {c : Char} {t : Tag}
    (h : tag? (c :: cs) = some (t, rest)) :
    scan gap (c :: cs) = ⟨(gap.reverse, t) :: (ofText rest).pieces, (ofText rest).tail⟩ := by
  rw [scan]
  split
  next h' =>
    obtain ⟨rfl, rfl⟩ := Prod.mk.inj (Option.some.inj (h.symm.trans h'))
    rfl
  next h' => rw [h] at h'; cases h'

/-- What was passed over is the beginning of the first gap. -/
theorem scan_eq_after (gap s : Text) : scan gap s = (ofText s).after gap.reverse := by
  induction s generalizing gap with
  | nil => simp [ofText, scan, after]
  | cons c cs ih =>
    cases h : tag? (c :: cs) with
    | none =>
      rw [ofText, scan_of_none h, scan_of_none h, ih, ih [c], after_after]
      simp
    | some r =>
      obtain ⟨t, rest⟩ := r
      rw [ofText, scan_of_some h, scan_of_some h]
      simp [after]

theorem ofText_nil : ofText [] = ⟨[], []⟩ := by
  simp [ofText, scan]

theorem ofText_cons {c : Char} {cs : Text} (h : ¬OpensAt (c :: cs)) :
    ofText (c :: cs) = (ofText cs).after [c] := by
  rw [ofText, scan_of_none (tag?_eq_none_iff.mpr h), scan_eq_after]
  rfl

theorem ofText_of_heads {t : Tag} {s rest : Text} (h : t.Heads s rest) :
    ofText s = ⟨([], t) :: (ofText rest).pieces, (ofText rest).tail⟩ := by
  have ht := tag?_of_heads h
  cases s with
  | nil =>
    have := h.length_written_pos
    have := congrArg List.length h.eq_append
    simp at this
    omega
  | cons c cs => rw [ofText, scan_of_some ht]; rfl

/-- Text in which no tag begins is passed over. -/
theorem ofText_append {gap s : Text} (h : ∀ k < gap.length, ¬OpensAt ((gap ++ s).drop k)) :
    ofText (gap ++ s) = (ofText s).after gap := by
  induction gap with
  | nil => simp
  | cons c gap ih =>
    have hrest : ofText (gap ++ s) = (ofText s).after gap :=
      ih fun k hk => by simpa using h (k + 1) (by simpa using hk)
    have hhead : ¬OpensAt (c :: (gap ++ s)) := h 0 (by simp)
    rw [List.cons_append, ofText_cons hhead, hrest, after_after]
    rfl

/-- Text without brackets is passed over, whatever follows it, if it does not end in a backslash. -/
theorem ofText_append_of_plain {gap : Text} (s : Text) (hplain : '[' ∉ gap)
    (hlast : gap.getLast? ≠ some '\\') : ofText (gap ++ s) = (ofText s).after gap := by
  refine ofText_append fun k hk ho => ?_
  rw [List.drop_append_of_le_length (Nat.le_of_lt hk)] at ho
  have hmem : ∀ c ∈ gap.drop k, c ≠ '[' := fun c hc h => hplain (h ▸ List.mem_of_mem_drop hc)
  have hend : (gap.drop k).getLast? = gap.getLast? := by
    rw [List.getLast?_drop, if_neg (Nat.not_le.mpr hk)]
  obtain ⟨c, cs, hcs⟩ := List.exists_cons_of_length_pos (l := gap.drop k) (by simp; omega)
  rw [hcs] at ho hmem hend
  obtain ⟨u, hu | hu⟩ := ho.eq_cons
  · exact hmem c (List.mem_cons_self ..) (List.cons.inj hu).1
  · obtain ⟨rfl, hrest⟩ := List.cons.inj hu
    -- The backslash is the last character of the gap, or a character of the gap follows it.
    cases cs with
    | nil => exact hlast hend.symm
    | cons d cs => exact hmem d (by simp) (List.cons.inj hrest).1

/-- `r` is the leftmost reading of `s` : no opening is written before its first tag begins, and
what follows that tag is read in the same way. -/
inductive Leftmost : Text → Reading Tag → Prop
  | done {s : Text} (hnone : ∀ k, ¬OpensAt (s.drop k)) : Leftmost s ⟨[], s⟩
  | tag {gap s rest : Text} {t : Tag} {r : Reading Tag}
    (hgap : ∀ k < gap.length, ¬OpensAt ((gap ++ s).drop k)) (ht : t.Heads s rest)
    (hr : Leftmost rest r) : Leftmost (gap ++ s) ⟨(gap, t) :: r.pieces, r.tail⟩

theorem not_opensAt_nil : ¬OpensAt [] := by
  rintro ⟨o, w, hw, hp⟩
  have hpos := hw.length_pos
  rw [List.prefix_nil.mp hp] at hpos
  exact absurd hpos (by simp)

theorem Leftmost.cons {c : Char} {cs : Text} {r : Reading Tag} (hc : ¬OpensAt (c :: cs))
    (h : Leftmost cs r) : Leftmost (c :: cs) (r.after [c]) := by
  cases h with
  | done hnone =>
    refine .done fun k => ?_
    cases k with
    | zero => exact hc
    | succ k => exact hnone k
  | @tag gap s rest t r hgap ht hr =>
    refine @Leftmost.tag (c :: gap) s rest t r (fun k hk => ?_) ht hr
    cases k with
    | zero => exact hc
    | succ k => exact hgap k (by simpa using hk)

theorem leftmost_ofText (s : Text) : Leftmost s (ofText s) := by
  induction hn : s.length using Nat.strongRecOn generalizing s with
  | _ n ih =>
    subst hn
    cases s with
    | nil => rw [ofText_nil]; exact .done (by simpa using not_opensAt_nil)
    | cons c cs =>
      cases ht : tag? (c :: cs) with
      | none =>
        have hc := tag?_eq_none_iff.mp ht
        rw [ofText_cons hc]
        exact .cons hc (ih cs.length (by simp) cs rfl)
      | some r =>
        obtain ⟨t, rest⟩ := r
        have hh := heads_of_tag? ht
        rw [ofText_of_heads hh]
        exact @Leftmost.tag [] _ rest t _ (by simp) hh (ih _ (length_of_tag? ht).2 rest rfl)

theorem Leftmost.eq_ofText {s : Text} {r : Reading Tag} (h : Leftmost s r) : r = ofText s := by
  induction h with
  | @done s hnone =>
    have := @ofText_append s [] (by simpa using fun k _ => hnone k)
    rw [List.append_nil, ofText_nil] at this
    simp [this, after]
  | tag hgap ht hr ih =>
    rw [ofText_append hgap, ofText_of_heads ht, ← ih]
    simp [after]

/-- A text has one leftmost reading, and reading it gives that one. -/
theorem leftmost_iff {s : Text} {r : Reading Tag} : Leftmost s r ↔ r = ofText s :=
  ⟨Leftmost.eq_ofText, fun h => h ▸ leftmost_ofText s⟩

/-- Every tag of a text is written in it. -/
theorem exists_heads_of_mem {s : Text} {t : Tag} (ht : t ∈ (ofText s).matches) :
    ∃ a u rest, s = a ++ u ∧ t.Heads u rest := by
  suffices key : ∀ {r}, Leftmost s r → t ∈ r.matches →
      ∃ a u rest, s = a ++ u ∧ t.Heads u rest from key (leftmost_ofText s) ht
  clear ht
  intro r h
  induction h with
  | done => intro ht; simp [Reading.matches] at ht
  | @tag gap s rest t' r hgap hh hr ih =>
    intro ht
    rcases List.mem_cons.mp ht with rfl | ht
    · exact ⟨gap, s, rest, rfl, hh⟩
    · obtain ⟨a, u, rest', rfl, hh'⟩ := ih ht
      exact ⟨gap ++ (t'.written ++ a), u, rest', by rw [hh.eq_append]; simp, hh'⟩

end Reading

/-- A text that is a tag and nothing else is read as that tag. -/
theorem Tag.Heads.leftmost {t : Tag} {s : Text} (h : t.Heads s []) :
    Reading.Leftmost s ⟨[([], t)], []⟩ := by
  have hnone : Reading.Leftmost [] ⟨[], []⟩ := .done (by simpa using Reading.not_opensAt_nil)
  exact @Reading.Leftmost.tag [] s [] t _ (by simp) h hnone

/-- A text that is an opening and nothing else is a tag without a content. -/
theorem Opening.Spells.leftmost {o : Opening} {w : Text} (h : o.Spells w) :
    Reading.Leftmost w ⟨[([], ⟨o, [], w⟩)], []⟩ := by
  have hheads : Tag.Heads ⟨o, [], w⟩ (w ++ []) [] := .single h (by simp [closer])
  rw [List.append_nil] at hheads
  exact hheads.leftmost

/-! ## Matches at their places -/

/-- The match that a tag makes at a position, if its attributes fit. -/
def Tag.placedAt (t : Tag) (start : Nat) : Match :=
  ⟨t.name, t.content, .ofPairs (attributePairs (dropEscapes t.attributeText)), t.written,
    t.escaped, start⟩

/-- The matches that tags make which follow the position `start`. -/
def placedFrom (start : Nat) : List (Text × Tag) → List (Text × Match)
  | [] => []
  | (gap, t) :: rest =>
    (gap, t.placedAt (start + gap.length)) ::
      placedFrom (start + gap.length + t.written.length) rest

/-- What is placed from a position on is one of the tags, at that position or behind it. -/
theorem exists_of_mem_placedFrom {p : Text × Match} :
    ∀ {tags : List (Text × Tag)} {start : Nat}, p ∈ placedFrom start tags →
      ∃ t ∈ tags.map Prod.snd, ∃ n, start ≤ n ∧ p.2 = t.placedAt n
  | [], _, hp => by simp [placedFrom] at hp
  | (gap, t) :: rest, start, hp => by
    rcases List.mem_cons.mp hp with rfl | hp
    · exact ⟨t, by simp, _, Nat.le_add_right .., rfl⟩
    · obtain ⟨u, hu, n, hn, hp⟩ := exists_of_mem_placedFrom hp
      exact ⟨u, List.mem_cons_of_mem _ hu, n, by omega, hp⟩

/-- Placing tags keeps their contents. -/
theorem content_of_mem_placedFrom {p : Text × Match} {tags : List (Text × Tag)} {start : Nat}
    (hp : p ∈ placedFrom start tags) : ∃ t ∈ tags.map Prod.snd, p.2.content = t.content := by
  obtain ⟨t, ht, n, -, hp⟩ := exists_of_mem_placedFrom hp
  exact ⟨t, ht, congrArg Match.content hp⟩

theorem Tag.matchAt_eq_ok {t : Tag} {start : Nat} (h : attributesFit t.attributeText = true) :
    t.matchAt start = .ok (t.placedAt start) := by
  rw [Tag.matchAt, read_eq_ok h]
  rfl

theorem matchesFrom_eq_ok {tags : List (Text × Tag)} {start : Nat}
    (h : ∀ p ∈ tags, attributesFit p.2.attributeText = true) :
    matchesFrom start tags = .ok (placedFrom start tags) := by
  induction tags generalizing start with
  | nil => rfl
  | cons p tags ih =>
    obtain ⟨gap, t⟩ := p
    have hrest : matchesFrom (t.placedAt (start + gap.length)).stop tags = .ok _ :=
      ih fun q hq => h q (List.mem_cons_of_mem _ hq)
    rw [matchesFrom, Tag.matchAt_eq_ok (h _ (List.mem_cons_self ..))]
    simp only [bind, Except.bind, hrest]
    rfl

theorem attributesFit_of_matchesFrom {tags : List (Text × Tag)} {start : Nat}
    {found : List (Text × Match)} (h : matchesFrom start tags = .ok found) :
    ∀ p ∈ tags, attributesFit p.2.attributeText = true := by
  induction tags generalizing start found with
  | nil => simp
  | cons p tags ih =>
    obtain ⟨gap, t⟩ := p
    cases ha : Attributes.read t.attributeText with
    | error f => simp [matchesFrom, Tag.matchAt, ha, bind, Except.bind] at h
    | ok as =>
      have hfit := attributesFit_of_read ha
      rw [matchesFrom, Tag.matchAt_eq_ok hfit] at h
      simp only [bind, Except.bind] at h
      split at h
      next => cases h
      next others ho =>
        intro q hq
        rcases List.mem_cons.mp hq with rfl | hq
        · exact hfit
        · exact ih ho q hq

/-- A text is read with its attributes if they fit at every tag. -/
theorem matchesOfText_eq_ok {s : Text}
    (h : ∀ t ∈ (Reading.ofText s).matches, attributesFit t.attributeText = true) :
    Reading.matchesOfText s =
      .ok ⟨placedFrom 0 (Reading.ofText s).pieces, (Reading.ofText s).tail⟩ := by
  have hfit : ∀ p ∈ (Reading.ofText s).pieces, attributesFit p.2.attributeText = true :=
    fun p hp => h p.2 (List.mem_map_of_mem hp)
  simp only [Reading.matchesOfText, matchesFrom_eq_ok hfit]
  rfl

/-- Otherwise it is not read. -/
theorem matchesOfText_cases (s : Text) :
    Reading.matchesOfText s =
        .ok ⟨placedFrom 0 (Reading.ofText s).pieces, (Reading.ofText s).tail⟩ ∨
      ∃ f, Reading.matchesOfText s = .error f := by
  cases h : matchesFrom 0 (Reading.ofText s).pieces with
  | error f => exact Or.inr ⟨f, by simp only [Reading.matchesOfText, h]; rfl⟩
  | ok found =>
    refine Or.inl (matchesOfText_eq_ok fun t ht => ?_)
    obtain ⟨p, hp, rfl⟩ := List.mem_map.mp ht
    exact attributesFit_of_matchesFrom h p hp

/-- Reading a text fails with no other fault than that a literal is too long. -/
theorem exists_of_matchesOfText_eq_error {s : Text} {f : Fault}
    (h : Reading.matchesOfText s = .error f) : ∃ digits, f = .numeralTooLong digits := by
  suffices key : ∀ (tags : List (Text × Tag)) (start : Nat),
      matchesFrom start tags = .error f → ∃ digits, f = .numeralTooLong digits by
    cases hm : matchesFrom 0 (Reading.ofText s).pieces with
    | error g =>
      simp only [Reading.matchesOfText, hm] at h
      obtain rfl : g = f := Except.error.inj h
      exact key _ _ hm
    | ok found => simp only [Reading.matchesOfText, hm] at h; cases h
  intro tags
  induction tags with
  | nil => intro start h; cases h
  | cons p tags ih =>
    obtain ⟨gap, t⟩ := p
    intro start h
    cases ha : Attributes.read t.attributeText with
    | error g =>
      simp only [matchesFrom, Tag.matchAt, ha, bind, Except.bind] at h
      obtain rfl := Except.error.inj h
      exact exists_of_read_eq_error ha
    | ok as =>
      rw [matchesFrom, Tag.matchAt_eq_ok (attributesFit_of_read ha)] at h
      simp only [bind, Except.bind] at h
      split at h
      next g hg =>
        obtain rfl := Except.error.inj h
        exact ih _ hg
      next => cases h

/-! ## Matches by position -/

/-- `t.Makes m` : the match has what the tag says, and the attributes that it gives. -/
structure Tag.Makes (t : Tag) (m : Match) : Prop where
  name : m.name = t.name
  content : m.content = t.content
  written : m.written = t.written
  escaped : m.escaped = t.escaped
  attributes : Attributes.read t.attributeText = .ok m.attributes

/-- The match is a tag of the text, at its place and with its attributes. -/
def Match.ReadIn (m : Match) (s : Text) : Prop :=
  ∃ t : Tag, t.Heads (s.drop m.start) (s.drop m.stop) ∧ t.Makes m

/-- `ms` reads the text `s` from the position `n` on. -/
structure ReadsFrom (n : Nat) (s : Text) (ms : List Match) : Prop where
  /-- Every match is a tag of the text. -/
  tags : ∀ m ∈ ms, n ≤ m.start ∧ m.ReadIn s
  /-- The matches follow one another without overlap. -/
  ordered : ms.Pairwise fun a b => a.stop ≤ b.start
  /-- An opening is written only inside a match. -/
  covers : ∀ k, n ≤ k → OpensAt (s.drop k) → ∃ m ∈ ms, m.start ≤ k ∧ k < m.stop

namespace Match.ReadIn

variable {m m' : Match} {s : Text}

theorem opensAt (h : m.ReadIn s) : OpensAt (s.drop m.start) := by
  obtain ⟨t, ht, -⟩ := h
  exact ht.opensAt

theorem start_lt_stop (h : m.ReadIn s) : m.start < m.stop := by
  obtain ⟨t, ht, hm⟩ := h
  have := ht.length_written_pos
  rw [Match.stop, hm.written]
  omega

theorem drop_start (h : m.ReadIn s) : s.drop m.start = m.written ++ s.drop m.stop := by
  obtain ⟨t, ht, hm⟩ := h
  rw [hm.written]
  exact ht.eq_append

theorem extract_eq (h : m.ReadIn s) : s.extract m.start m.stop = m.written := by
  rw [List.extract_eq_take_drop, h.drop_start]
  exact List.take_left' (by simp [Match.stop])

theorem stop_le_length (h : m.ReadIn s) : m.stop ≤ s.length := by
  have := h.start_lt_stop
  have := congrArg List.length h.drop_start
  simp only [List.length_drop, List.length_append, Match.stop] at *
  omega

/-- At most one match starts at a position. -/
theorem unique (h : m.ReadIn s) (h' : m'.ReadIn s) (hstart : m.start = m'.start) : m = m' := by
  obtain ⟨t, ht, hm⟩ := h
  obtain ⟨t', ht', hm'⟩ := h'
  rw [← hstart] at ht'
  obtain ⟨rfl, -⟩ := ht.unique ht'
  have hattributes := Except.ok.inj (hm.attributes.symm.trans hm'.attributes)
  obtain ⟨name, content, attributes, written, escaped, start⟩ := m
  obtain ⟨name', content', attributes', written', escaped', start'⟩ := m'
  obtain ⟨rfl, rfl, rfl, rfl, -⟩ := hm
  obtain ⟨rfl, rfl, rfl, rfl, -⟩ := hm'
  obtain rfl : attributes = attributes' := hattributes
  obtain rfl : start = start' := hstart
  rfl

end Match.ReadIn

namespace ReadsFrom

variable {n : Nat} {s : Text} {m : Match} {ms ms' : List Match}

theorem tail (h : ReadsFrom n s (m :: ms)) : ReadsFrom m.stop s ms := by
  obtain ⟨htags, hord, hcov⟩ := h
  obtain ⟨hlater, hord⟩ := List.pairwise_cons.mp hord
  have hm := htags m (List.mem_cons_self ..)
  have := hm.2.start_lt_stop
  refine ⟨fun a ha => ⟨hlater a ha, (htags a (List.mem_cons_of_mem _ ha)).2⟩, hord,
    fun k hk ho => ?_⟩
  obtain ⟨a, ha, hstart, hstop⟩ := hcov k (by omega) ho
  rcases List.mem_cons.mp ha with rfl | ha
  · omega
  · exact ⟨a, ha, hstart, hstop⟩

/-- The first match starts where the first opening is written. -/
theorem start_le (h : ReadsFrom n s (m :: ms)) {k : Nat} (hk : n ≤ k) (ho : OpensAt (s.drop k)) :
    m.start ≤ k := by
  obtain ⟨a, ha, hstart, -⟩ := h.covers k hk ho
  rcases List.mem_cons.mp ha with rfl | ha
  · exact hstart
  · have := (h.tags m (List.mem_cons_self ..)).2.start_lt_stop
    have := (h.tail.tags a ha).1
    omega

/-- Only one list of matches reads a text. -/
theorem unique (h : ReadsFrom n s ms) (h' : ReadsFrom n s ms') : ms = ms' := by
  induction ms generalizing n ms' with
  | nil =>
    cases ms' with
    | nil => rfl
    | cons m' ms' =>
      obtain ⟨hle, hm'⟩ := h'.tags m' (List.mem_cons_self ..)
      obtain ⟨a, ha, -⟩ := h.covers m'.start hle hm'.opensAt
      simp at ha
  | cons m ms ih =>
    obtain ⟨hle, hm⟩ := h.tags m (List.mem_cons_self ..)
    cases ms' with
    | nil =>
      obtain ⟨a, ha, -⟩ := h'.covers m.start hle hm.opensAt
      simp at ha
    | cons m' ms' =>
      obtain ⟨hle', hm'⟩ := h'.tags m' (List.mem_cons_self ..)
      have hstart := le_antisymm (h.start_le hle' hm'.opensAt) (h'.start_le hle hm.opensAt)
      obtain rfl := hm.unique hm' hstart
      rw [ih h.tail h'.tail]

end ReadsFrom

theorem ReadsFrom.cons {n : Nat} {s : Text} {m : Match} {ms : List Match} (hn : n ≤ m.start)
    (hgap : ∀ k, n ≤ k → k < m.start → ¬OpensAt (s.drop k)) (hm : m.ReadIn s)
    (h : ReadsFrom m.stop s ms) : ReadsFrom n s (m :: ms) := by
  have hpos := hm.start_lt_stop
  refine ⟨fun a ha => ?_, List.pairwise_cons.mpr ⟨fun a ha => (h.tags a ha).1, h.ordered⟩,
    fun k hk ho => ?_⟩
  · rcases List.mem_cons.mp ha with rfl | ha
    · exact ⟨hn, hm⟩
    · have := h.tags a ha
      exact ⟨by omega, this.2⟩
  · rcases Nat.lt_or_ge k m.start with hlt | hstart
    · exact absurd ho (hgap k hk hlt)
    · rcases Nat.lt_or_ge k m.stop with hlt | hstop
      · exact ⟨m, List.mem_cons_self .., hstart, hlt⟩
      · obtain ⟨a, ha, hka⟩ := h.covers k hstop ho
        exact ⟨a, List.mem_cons_of_mem _ ha, hka⟩

theorem readIn_placedAt {t : Tag} {s rest : Text} (u : Text) (ht : t.Heads s rest)
    (hfit : attributesFit t.attributeText = true) :
    (t.placedAt u.length).ReadIn (u ++ s) := by
  refine ⟨t, ?_, rfl, rfl, rfl, rfl, read_eq_ok hfit⟩
  have hstop : (u ++ s).drop (t.placedAt u.length).stop = rest := by
    rw [ht.eq_append, ← List.append_assoc]
    exact List.drop_left' (by simp [Match.stop, Tag.placedAt])
  rw [hstop]
  simpa [Tag.placedAt] using ht

/-- The matches of a leftmost reading read the text, whatever text `u` stands before it. -/
theorem readsFrom_placedFrom {s : Text} {r : Reading Tag} (h : Reading.Leftmost s r)
    (hfit : ∀ p ∈ r.pieces, attributesFit p.2.attributeText = true) (u : Text) :
    ReadsFrom u.length (u ++ s) ((placedFrom u.length r.pieces).map Prod.snd) := by
  induction h generalizing u with
  | @done s hnone =>
    refine ⟨by simp [placedFrom], by simp [placedFrom], fun k hk ho => ?_⟩
    rw [List.drop_append, List.drop_eq_nil_of_le hk, List.nil_append] at ho
    exact absurd ho (hnone _)
  | @tag gap s rest t r hgap ht hr ih =>
    have hm : (t.placedAt (u.length + gap.length)).ReadIn (u ++ (gap ++ s)) := by
      simpa using readIn_placedAt (u ++ gap) ht (hfit _ (List.mem_cons_self ..))
    have hrest : ReadsFrom (u.length + gap.length + t.written.length) (u ++ (gap ++ s))
        ((placedFrom (u.length + gap.length + t.written.length) r.pieces).map Prod.snd) := by
      have := ih (fun p hp => hfit p (List.mem_cons_of_mem _ hp)) (u ++ (gap ++ t.written))
      rw [ht.eq_append]
      simpa [Nat.add_assoc] using this
    refine .cons (Nat.le_add_right ..) (fun k hk hlt ho => ?_) hm hrest
    rw [List.drop_append, List.drop_eq_nil_of_le hk, List.nil_append] at ho
    have hlt' : k < u.length + gap.length := hlt
    exact hgap (k - u.length) (by omega) ho

/-! ## Back to the text -/

/-- The text from the position `n` on, put together from the spans of matches and the written
forms between them. -/
def respliced (s : Text) (n : Nat) : List Match → Text
  | [] => s.drop n
  | m :: ms => s.extract n m.start ++ m.written ++ respliced s m.stop ms

theorem ReadsFrom.respliced_eq {n : Nat} {s : Text} {ms : List Match} (h : ReadsFrom n s ms) :
    respliced s n ms = s.drop n := by
  induction ms generalizing n with
  | nil => rfl
  | cons m ms ih =>
    obtain ⟨hn, hm⟩ := h.tags m (List.mem_cons_self ..)
    have hdrop : s.drop n = s.extract n m.start ++ s.drop m.start := by
      have := List.take_append_drop (m.start - n) (s.drop n)
      rw [List.drop_drop, Nat.add_sub_cancel' hn] at this
      rw [List.extract_eq_take_drop, this]
    rw [respliced, ih h.tail, hdrop, hm.drop_start, List.append_assoc]

/-- The matches of a text are its leftmost reading without overlap. Each is a tag of the text at
its place; their spans follow one another, so that the text is the written forms put back between
the gaps; each place where an opening is written lies inside a span; and no other list of matches
has these properties. -/
theorem matchesOfText_leftmost (s : Text)
    (hfit : ∀ t ∈ (Reading.ofText s).matches, attributesFit t.attributeText = true) :
    ∃ r, Reading.matchesOfText s = .ok r ∧
      (∀ m ∈ r.matches, s.extract m.start m.stop = m.written ∧
        ∃ t : Tag, t.Heads (s.drop m.start) (s.drop m.stop) ∧ t.Makes m) ∧
      (∀ m ∈ r.matches, m.start < m.stop ∧ m.stop ≤ s.length) ∧
      (r.matches.Pairwise fun a b => a.stop ≤ b.start) ∧
      respliced s 0 r.matches = s ∧
      (∀ k, OpensAt (s.drop k) → ∃ m ∈ r.matches, m.start ≤ k ∧ k < m.stop) ∧
      ∀ ms, ReadsFrom 0 s ms → ms = r.matches := by
  have hreads : ReadsFrom 0 s ((placedFrom 0 (Reading.ofText s).pieces).map Prod.snd) := by
    simpa using readsFrom_placedFrom (Reading.leftmost_ofText s)
      (fun p hp => hfit p.2 (List.mem_map_of_mem hp)) []
  have hin : ∀ m ∈ (placedFrom 0 (Reading.ofText s).pieces).map Prod.snd, m.ReadIn s :=
    fun m hm => (hreads.tags m hm).2
  exact ⟨_, matchesOfText_eq_ok hfit, fun m hm => ⟨(hin m hm).extract_eq, hin m hm⟩,
    fun m hm => ⟨(hin m hm).start_lt_stop, (hin m hm).stop_le_length⟩, hreads.ordered,
    hreads.respliced_eq, fun k ho => hreads.covers k (Nat.zero_le _) ho,
    fun ms h => h.unique hreads⟩

/-- An escaped tag, an opening that is never ended, and two tags of one name without a closer. -/
theorem matchesOfText_leftmost_of_unfinished :
    (∀ t ∈ (Reading.ofText "x\\[@a k=1]y[/@a] [@b [@b n='0'] [@b]".toList).matches,
        attributesFit t.attributeText = true) ∧
      ∃ r, Reading.matchesOfText "x\\[@a k=1]y[/@a] [@b [@b n='0'] [@b]".toList = .ok r ∧
        ∀ ms, ReadsFrom 0 "x\\[@a k=1]y[/@a] [@b [@b n='0'] [@b]".toList ms → ms = r.matches := by
  have hfit : ∀ t ∈ (Reading.ofText "x\\[@a k=1]y[/@a] [@b [@b n='0'] [@b]".toList).matches,
      attributesFit t.attributeText = true := by decide +kernel
  obtain ⟨r, hr, -, -, -, -, -, hunique⟩ := matchesOfText_leftmost _ hfit
  exact ⟨hfit, r, hr, hunique⟩

end TagTemplate
