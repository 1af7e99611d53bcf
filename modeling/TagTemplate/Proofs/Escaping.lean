import Mathlib.Data.List.Forall2
import Mathlib.Data.List.Pairwise
import TagTemplate.Proofs.Overlong
import TagTemplate.Proofs.Requests

/-!
# Escaping all tags of a text

A backslash put in before each tag of a text (`shieldedFrom`) escapes them all and does nothing
else. Read again, the text has the same tags in the same order, except that the backslash belongs to
a tag that had none and to the gap before a tag that was escaped already (`Leftmost.shielded`).
That is by induction on the tags. Two facts carry it : what is put in stands between the gap and the
bracket of an opening, and no opening that begins in a gap goes on over another bracket
(`not_opensAt_shield`); and a closer has no backslash in it, so none is made where there was none
(`infix_of_infix_shielded`).

Since all tags are escaped, such a text evaluates without calls, and to the text that it was made
from.
-/

namespace TagTemplate

/-! ## What openings and closers are made of -/

theorem backslash_not_mem_closer {name : Text} (h : isName name = true) : '\\' ∉ closer name := by
  have hname : '\\' ∉ name := fun hm => absurd (isNameChar_of_mem h hm) (by decide)
  simp [closer, hname]

/-- An opening has one opening bracket, that of the mark which it begins with, behind the backslash
if it has one. -/
theorem Opening.Spells.eq_append {o : Opening} {w : Text} (h : o.Spells w) :
    ∃ u, w = escapeMark o.escaped ++ '[' :: '@' :: u ∧ '[' ∉ '@' :: u := by
  cases h with
  | @intro escaped blanks name inner hblanks hname hinner hsep =>
    refine ⟨blanks ++ (name ++ (inner ++ [']'])), rfl, ?_⟩
    have hb : '[' ∉ blanks := fun hm => absurd (hblanks _ hm) (by decide)
    have hn : '[' ∉ name := fun hm => absurd (isNameChar_of_mem hname hm) (by decide)
    have hi : '[' ∉ inner := fun hm => absurd (hinner _ hm) (by decide)
    simp [hb, hn, hi]

theorem Opening.Spells.getLast?_eq {o : Opening} {w : Text} (h : o.Spells w) :
    w.getLast? = some ']' := by
  cases h
  simp [List.getLast?_append, List.getLast?_cons]

/-- A backslash before an opening without one escapes it. -/
theorem Opening.Spells.escape {o : Opening} {w : Text} (h : o.Spells w)
    (hescaped : o.escaped = false) : Opening.Spells { o with escaped := true } ('\\' :: w) := by
  cases h with
  | @intro escaped blanks name inner hblanks hname hinner hsep =>
    obtain rfl : escaped = false := hescaped
    exact .intro true hblanks hname hinner hsep

/-- So does a tag. -/
theorem Tag.Heads.written_eq {t : Tag} {s rest : Text} (h : t.Heads s rest) :
    ∃ u, t.written = escapeMark t.escaped ++ '[' :: '@' :: u := by
  cases h with
  | paired ho =>
    obtain ⟨u, hu, -⟩ := ho.eq_append
    exact ⟨_, by rw [hu, List.append_assoc]; rfl⟩
  | single ho =>
    obtain ⟨u, hu, -⟩ := ho.eq_append
    exact ⟨_, hu⟩

theorem Tag.Heads.getLast?_written {t : Tag} {s rest : Text} (h : t.Heads s rest) :
    t.written.getLast? = some ']' := by
  cases h with
  | paired => simp [closer, List.getLast?_append, List.getLast?_cons]
  | single ho => exact ho.getLast?_eq

/-- Where the closer is first does not depend on what follows it. -/
theorem FirstAt.congr_after {mark before after : Text}
    (h : FirstAt mark (before ++ (mark ++ after)) before after) (after' : Text) :
    FirstAt mark (before ++ (mark ++ after')) before after' := by
  refine ⟨rfl, fun a b hab => ?_⟩
  by_contra hlt
  -- An earlier one would end where the first one ends or before, and so be there in both texts.
  have hprefix : a ++ mark <+: before ++ mark := by
    have hthere : a ++ mark <+: before ++ (mark ++ after') := ⟨b, by rw [hab, List.append_assoc]⟩
    refine List.prefix_of_prefix_length_le hthere ⟨after', by simp⟩ ?_
    simp only [List.length_append]
    omega
  obtain ⟨u, hu⟩ := hprefix
  exact hlt (h.first a (u ++ after) (by rw [← List.append_assoc, ← hu]; simp))

/-! ## Putting backslashes in -/

/-- A tag with a backslash before it. -/
def Tag.shielded (t : Tag) : Tag :=
  if t.escaped then t else { t with escaped := true, written := '\\' :: t.written }

/-- The gap before a tag that has a backslash before it. The backslash belongs to the gap if the tag
has one of its own. -/
def Tag.gapBefore (t : Tag) (gap : Text) : Text :=
  if t.escaped then gap ++ ['\\'] else gap

namespace Reading

/-- The text that was read. -/
def joined (r : Reading Tag) : Text :=
  (r.pieces.flatMap fun p => p.1 ++ p.2.written) ++ r.tail

/-- The text that was read, with a backslash before each tag. -/
def shieldedText (r : Reading Tag) : Text :=
  (r.pieces.flatMap fun p => p.1 ++ '\\' :: p.2.written) ++ r.tail

/-- The reading with a backslash before each tag. -/
def shielded (r : Reading Tag) : Reading Tag :=
  ⟨r.pieces.map fun p => (p.2.gapBefore p.1, p.2.shielded), r.tail⟩

theorem Leftmost.joined_eq {s : Text} {r : Reading Tag} (h : Leftmost s r) : r.joined = s := by
  induction h with
  | done => rfl
  | tag hgap ht hr ih =>
    rw [ht.eq_append, ← ih]
    simp [joined]

end Reading

theorem infix_of_infix_append_cons {w a b : Text} {c : Char} (hc : c ∉ w)
    (h : w <:+: a ++ c :: b) : w <:+: a ∨ w <:+: b := by
  obtain ⟨u, v, huv⟩ := h
  rw [List.append_assoc] at huv
  obtain ⟨x, rfl, hx⟩ | ⟨x, rfl, hx⟩ := List.append_eq_append_iff.mp huv
  · -- The text before `w` ends in `a`, and `w` cannot go over the character behind that.
    obtain ⟨y, rfl, hy⟩ | ⟨y, rfl, hy⟩ := List.append_eq_append_iff.mp hx
    · exact Or.inl ⟨u, y, by simp⟩
    · cases y with
      | nil => exact Or.inl ⟨u, [], by simp⟩
      | cons d y =>
        obtain rfl := (List.cons.inj hy).1
        exact absurd (by simp) hc
  · cases x with
    | nil =>
      cases w with
      | nil => exact Or.inl List.nil_infix
      | cons d w =>
        obtain rfl := (List.cons.inj hx).1
        exact absurd (by simp) hc
    | cons d x => exact Or.inr ⟨x, v, by simpa using (List.cons.inj hx).2.symm⟩

/-- What has no backslash in it and is in the text with backslashes was in the text before. -/
theorem infix_of_infix_shielded {w : Text} (hw : '\\' ∉ w) {r : Reading Tag} {u : Text}
    (h : w <:+: u ++ r.shieldedText) : w <:+: u ++ r.joined := by
  obtain ⟨pieces, tail⟩ := r
  induction pieces generalizing u with
  | nil => exact h
  | cons p pieces ih =>
    have h : w <:+: (u ++ p.1) ++ '\\' :: (p.2.written ++ Reading.shieldedText ⟨pieces, tail⟩) := by
      simpa [Reading.shieldedText] using h
    have hjoined : u ++ Reading.joined ⟨p :: pieces, tail⟩ =
        (u ++ p.1) ++ (p.2.written ++ Reading.joined ⟨pieces, tail⟩) := by
      simp [Reading.joined]
    rw [hjoined]
    rcases infix_of_infix_append_cons hw h with h | h
    · exact h.trans (List.prefix_append ..).isInfix
    · exact (ih h).trans (List.suffix_append ..).isInfix

/-- What begins with the backslash before a tag and ends with a bracket has the bracket in it that
the tag opens with. -/
theorem bracket_mem_tail {v x : Text} {escaped : Bool}
    (hv : v <+: '\\' :: (escapeMark escaped ++ '[' :: x)) (hlast : v.getLast? = some ']') :
    '[' ∈ v.tail := by
  have hmark : '\\' :: escapeMark escaped ++ ['['] <+: '\\' :: (escapeMark escaped ++ '[' :: x) :=
    ⟨x, by simp⟩
  rcases List.prefix_or_prefix_of_prefix hv hmark with h | ⟨y, rfl⟩
  · have := h.mem (List.mem_of_getLast? hlast)
    cases escaped <;> simp [escapeMark] at this
  · simp

/-- An opening that begins before the backslash would have to go on over a bracket. -/
theorem not_opensAt_shield {g s x : Text} (hg : g ≠ []) (h : ¬OpensAt (g ++ s)) (escaped : Bool) :
    ¬OpensAt (g ++ '\\' :: (escapeMark escaped ++ '[' :: x)) := by
  rintro ⟨o, w, hw, hp⟩
  rcases List.prefix_or_prefix_of_prefix hp (List.prefix_append g _) with hwg | ⟨v, rfl⟩
  · exact h ⟨o, w, hw, hwg.trans (List.prefix_append ..)⟩
  · rw [List.prefix_append_right_inj] at hp
    cases v with
    | nil => exact h ⟨o, _, hw, s, by simp⟩
    | cons c v =>
      have hlast := hw.getLast?_eq
      rw [List.getLast?_append, List.getLast?_cons, Option.some_or, ← List.getLast?_cons] at hlast
      have hmem := bracket_mem_tail hp hlast
      -- That bracket is neither the first character of the opening nor the second.
      obtain ⟨u, hu, hbracket⟩ := hw.eq_append
      have hdrop : '[' ∈ (g ++ c :: v).drop 2 := by
        obtain ⟨d, g, rfl⟩ := List.exists_cons_of_ne_nil hg
        cases g with
        | nil => exact hmem
        | cons e g => exact List.mem_append_right g (List.mem_cons_of_mem c hmem)
      rw [hu] at hdrop
      cases he : o.escaped with
      | false =>
        rw [he] at hdrop
        exact hbracket (List.mem_of_mem_drop hdrop)
      | true =>
        rw [he] at hdrop
        exact hbracket hdrop

namespace Tag.Heads

variable {t : Tag} {s rest : Text}

/-- What follows a tag may be replaced, unless that brings a closer of its name. -/
theorem congr_rest (h : t.Heads s rest) {rest' : Text}
    (hrest : closer t.name <:+: rest' → closer t.name <:+: rest) :
    t.Heads (t.written ++ rest') rest' := by
  cases h with
  | paired ho hfirst =>
    simpa using Tag.Heads.paired ho (hfirst.congr_after rest')
  | single ho hnone => exact .single ho fun hclose => hnone (hrest hclose)

/-- A tag with a backslash before it is that tag escaped. -/
theorem escape (h : t.Heads s rest) (hescaped : t.escaped = false) :
    Tag.Heads { t with escaped := true, written := '\\' :: t.written } ('\\' :: s) rest := by
  cases h with
  | paired ho hfirst => exact .paired (ho.escape hescaped) hfirst
  | single ho hnone => exact .single (ho.escape hescaped) hnone

theorem shielded (h : t.Heads s rest) {rest' : Text}
    (hrest : closer t.name <:+: rest' → closer t.name <:+: rest) :
    t.shielded.Heads (t.shielded.written ++ rest') rest' := by
  unfold Tag.shielded
  split
  next => exact h.congr_rest hrest
  next he => exact (h.congr_rest hrest).escape (by simpa using he)

end Tag.Heads

theorem Tag.gapBefore_append (t : Tag) (gap : Text) :
    t.gapBefore gap ++ t.shielded.written = gap ++ '\\' :: t.written := by
  unfold Tag.gapBefore Tag.shielded
  split <;> simp

namespace Reading

/-- The text with backslashes has the same tags, all escaped. -/
theorem Leftmost.shielded {s : Text} {r : Reading Tag} (h : Leftmost s r) :
    Leftmost r.shieldedText r.shielded := by
  induction h with
  | done hnone => exact .done hnone
  | @tag gap s rest t r hgap ht hr ih =>
    have htext : Reading.shieldedText ⟨(gap, t) :: r.pieces, r.tail⟩ =
        t.gapBefore gap ++ (t.shielded.written ++ r.shieldedText) := by
      rw [← List.append_assoc, t.gapBefore_append]
      simp [shieldedText]
    have hheads : t.shielded.Heads (t.shielded.written ++ r.shieldedText) r.shieldedText :=
      ht.shielded fun hclose => by
        have := infix_of_infix_shielded (backslash_not_mem_closer ht.isName_name) (u := []) hclose
        rwa [List.nil_append, hr.joined_eq] at this
    rw [htext]
    refine .tag (fun k hk => ?_) hheads ih
    obtain ⟨u, hu⟩ := ht.written_eq
    rw [← List.append_assoc, t.gapBefore_append, hu, List.append_assoc, List.cons_append,
      List.append_assoc, List.cons_append]
    rcases Nat.lt_or_ge k gap.length with hlt | hge
    · have hne : gap.drop k ≠ [] := by simpa using hlt
      have hbefore := hgap k hlt
      rw [List.drop_append_of_le_length hlt.le] at hbefore ⊢
      exact not_opensAt_shield hne hbefore _
    · -- Two backslashes stand before the bracket here, so that the first opens nothing.
      intro ho
      unfold Tag.gapBefore at hk
      split at hk
      next he =>
        obtain rfl : k = gap.length := by
          simp only [List.length_append, List.length_singleton] at hk
          omega
        rw [List.drop_left, he] at ho
        obtain ⟨v, hv | hv⟩ := ho.eq_cons <;> simp [escapeMark] at hv
      next => omega

theorem standing_shielded {s : Text} {r : Reading Tag} (h : Leftmost s r) :
    r.shielded.standing = s := by
  induction h with
  | done => rfl
  | @tag gap s rest t r hgap ht hr ih =>
    have hhere : t.gapBefore gap ++ t.shielded.standing = gap ++ t.written := by
      obtain ⟨u, hu⟩ := ht.written_eq
      cases he : t.escaped with
      | true => simp [Tag.gapBefore, Tag.shielded, Tag.standing, he, hu, escapeMark]
      | false => simp [Tag.gapBefore, Tag.shielded, Tag.standing, he]
    have hsplit : standing (shielded ⟨(gap, t) :: r.pieces, r.tail⟩) =
        (t.gapBefore gap ++ t.shielded.standing) ++ r.shielded.standing := by
      simp [standing, shielded]
    rw [hsplit, hhere, ih, ht.eq_append, List.append_assoc]

end Reading

/-! ## By the places of the matches -/

/-- The text from the position `n` on, with a backslash put in where each of the matches starts. -/
def shieldedFrom (s : Text) (n : Nat) : List Match → Text
  | [] => s.drop n
  | m :: ms => s.extract n m.start ++ '\\' :: shieldedFrom s m.start ms

/-- The position of the mark that a match opens with. -/
def Match.markAt (m : Match) : Nat :=
  m.start + (escapeMark m.escaped).length

/-- Of the text that `u` and `v` stand before, where `v` is still to be gone through. -/
theorem shieldedFrom_placedFrom {s : Text} {r : Reading Tag} (h : Reading.Leftmost s r)
    (u v : Text) : shieldedFrom (u ++ (v ++ s)) u.length
      ((placedFrom (u.length + v.length) r.pieces).map Prod.snd) = v ++ r.shieldedText := by
  induction h generalizing u v with
  | done => simp [placedFrom, shieldedFrom, Reading.shieldedText]
  | @tag gap s rest t r hgap ht hr ih =>
    have hrest := ih (u ++ (v ++ gap)) t.written
    rw [← ht.eq_append] at hrest
    simp only [List.length_append, List.append_assoc, ← Nat.add_assoc] at hrest
    simp only [placedFrom, List.map_cons, shieldedFrom, Tag.placedAt, hrest]
    rw [List.extract_eq_take_drop, List.drop_left, Nat.add_assoc, Nat.add_sub_cancel_left,
      ← List.append_assoc v, ← List.length_append, List.take_left]
    simp [Reading.shieldedText]

theorem ofText_shieldedFrom (s : Text) :
    Reading.ofText (shieldedFrom s 0 ((placedFrom 0 (Reading.ofText s).pieces).map Prod.snd)) =
      (Reading.ofText s).shielded := by
  have hleft := Reading.leftmost_ofText s
  have htext := shieldedFrom_placedFrom hleft [] []
  simp only [List.nil_append, List.length_nil, Nat.add_zero] at htext
  rw [htext]
  exact (Reading.leftmost_iff.mp hleft.shielded).symm

theorem Reading.mem_matches_shielded {r : Reading Tag} {t' : Tag} :
    t' ∈ r.shielded.matches ↔ ∃ t ∈ r.matches, t.shielded = t' := by
  simp only [Reading.shielded, Reading.matches, List.map_map, List.mem_map, Function.comp_apply,
    exists_exists_and_eq_and]

@[simp] theorem Tag.attributeText_shielded (t : Tag) :
    t.shielded.attributeText = t.attributeText := by
  unfold Tag.shielded
  split <;> rfl

theorem Tag.escaped_shielded (t : Tag) : t.shielded.escaped = true := by
  unfold Tag.shielded
  split
  next h => exact h
  next => rfl

/-- `m` is escaped, and otherwise says what `n` does. -/
structure Match.Escapes (n m : Match) : Prop where
  escaped : m.escaped = true
  name : m.name = n.name
  content : m.content = n.content
  attributes : m.attributes = n.attributes

theorem Tag.escapes_shielded (t : Tag) (n k : Nat) :
    (t.placedAt n).Escapes (t.shielded.placedAt k) := by
  refine ⟨t.escaped_shielded, ?_, ?_, ?_⟩
  all_goals
    unfold Tag.shielded
    split <;> rfl

theorem escapes_placedFrom (pieces : List (Text × Tag)) (n k : Nat) :
    List.Forall₂ Match.Escapes ((placedFrom n pieces).map Prod.snd)
      ((placedFrom k (pieces.map fun p => (p.2.gapBefore p.1, p.2.shielded))).map Prod.snd) := by
  induction pieces generalizing n k with
  | nil => exact .nil
  | cons p pieces ih => exact .cons (p.2.escapes_shielded _ _) (ih _ _)

/-! ## The character before a mark -/

section Marks

variable {s : Text} {ms : List Match} {m m' : Match}

theorem Match.ReadIn.mark_isPrefix (h : m.ReadIn s) : ['[', '@'] <+: s.drop m.markAt := by
  obtain ⟨t, ht, hm⟩ := h
  obtain ⟨u, hu⟩ := ht.written_eq
  rw [Match.markAt, ← List.drop_drop, ht.eq_append, hu, hm.escaped, List.append_assoc,
    List.drop_left]
  exact List.prefix_append ..

theorem Match.ReadIn.take_stop (h : m.ReadIn s) : s.take m.stop = s.take m.start ++ m.written := by
  rw [Match.stop, List.take_add, h.drop_start, List.take_left]

theorem Match.ReadIn.getLast?_take_stop (h : m.ReadIn s) :
    (s.take m.stop).getLast? = some ']' := by
  rw [h.take_stop]
  obtain ⟨t, ht, hm⟩ := h
  rw [List.getLast?_append, hm.written, ht.getLast?_written, Option.some_or]

/-- Of two matches, one ends before the other starts. -/
theorem ReadsFrom.apart {n : Nat} (h : ReadsFrom n s ms) (hm : m ∈ ms) (hm' : m' ∈ ms)
    (hne : m ≠ m') : m.stop ≤ m'.start ∨ m'.stop ≤ m.start := by
  have hapart : ms.Pairwise fun a b => a.stop ≤ b.start ∨ b.stop ≤ a.start := h.ordered.imp Or.inl
  have : Std.Symm fun a b : Match => a.stop ≤ b.start ∨ b.stop ≤ a.start := ⟨fun _ _ => Or.symm⟩
  exact hapart.forall hm hm' hne

/-- No backslash stands before a match that is not escaped : it would be part of the match, or the
end of the match before. -/
theorem ReadsFrom.getLast?_take_start_ne (h : ReadsFrom 0 s ms) (hm : m ∈ ms)
    (hescaped : m.escaped = false) : (s.take m.start).getLast? ≠ some '\\' := by
  intro hlast
  obtain ⟨v, hv⟩ := List.getLast?_eq_some_iff.mp hlast
  have hin := (h.tags m hm).2
  have hlt := hin.start_lt_stop
  have hlen : m.start = v.length + 1 := by
    have := congrArg List.length hv
    have := hin.stop_le_length
    simp only [List.length_take, List.length_append, List.length_singleton] at *
    omega
  have hdrop : s.drop v.length = '\\' :: s.drop m.start := by
    conv_lhs => rw [← List.take_append_drop m.start s, hv, List.append_assoc, List.drop_left]
    rfl
  have hopens : OpensAt (s.drop v.length) := by
    obtain ⟨t, ht, hm⟩ := hin
    rw [hdrop]
    exact (ht.escape (hm.escaped.symm.trans hescaped)).opensAt
  obtain ⟨m', hm', hstart, hstop⟩ := h.covers v.length (Nat.zero_le _) hopens
  have hne : m ≠ m' := by
    rintro rfl
    omega
  rcases h.apart hm hm' hne with hapart | hapart
  · omega
  · obtain hmeet : m'.stop = m.start := by omega
    have hend := (h.tags m' hm').2.getLast?_take_stop
    rw [hmeet, hlast] at hend
    exact absurd hend (by decide)

/-- A match is escaped exactly if a backslash stands before its mark. -/
theorem ReadsFrom.escaped_iff (h : ReadsFrom 0 s ms) (hm : m ∈ ms) :
    m.escaped = false ↔ (s.take m.markAt).getLast? ≠ some '\\' := by
  cases he : m.escaped with
  | false => simpa [Match.markAt, he, escapeMark] using h.getLast?_take_start_ne hm he
  | true =>
    obtain ⟨t, ht, hmakes⟩ := (h.tags m hm).2
    obtain ⟨u, hu⟩ := ht.written_eq
    have hbackslash : (s.drop m.start).take 1 = ['\\'] := by
      rw [ht.eq_append, hu, ← hmakes.escaped, he]
      rfl
    have hmark : m.markAt = m.start + 1 := by rw [Match.markAt, he]; rfl
    rw [hmark, List.take_add, hbackslash]
    simp

end Marks

/-! ## Evaluating the text -/

/-- What asks for no call has no effect, however calls would be answered. -/
theorem Evaluation.Settles.effects {B σ α : Type} {e : Evaluation B α} {a : α} (h : e.Settles a)
    (answer : Call B → Process σ Value) (s : σ) :
    ((e.drive answer).run s).journal.effects = [] := by
  induction h with
  | done a => rfl
  | note n _ ih => exact (Journal.effects_note ..).trans ih

/-- If a backslash is put in before each tag of a text, whether or not it has one, the text has as
many tags as before, of the same names, contents and attributes, and all escaped. Whoever drives it
and whatever handlers there are, evaluating it calls none of them and gives the text that there was
before. Before the mark of a match, a backslash stands exactly if the match is escaped. -/
theorem evaluation_of_shielded (s : Text)
    (hfit : ∀ t ∈ (Reading.ofText s).matches, attributesFit t.attributeText = true) :
    ∃ r r' : Reading Match, Reading.matchesOfText s = .ok r ∧
      Reading.matchesOfText (shieldedFrom s 0 r.matches) = .ok r' ∧
      List.Forall₂ (fun m m' => m'.escaped = true ∧ m'.name = m.name ∧ m'.content = m.content ∧
        m'.attributes = m.attributes) r.matches r'.matches ∧
      (∀ {B σ : Type} (e : Engine B σ) (d : Driver) (st : σ),
        let run := (e.textBy d (shieldedFrom s 0 r.matches)).run st
        run.outcome = .ok ⟨s, r'.matches⟩ ∧ run.state = st ∧ run.journal.effects = []) ∧
      ∀ m ∈ r.matches, ['[', '@'] <+: s.drop m.markAt ∧
        (m.escaped = false ↔ (s.take m.markAt).getLast? ≠ some '\\') := by
  have hread := ofText_shieldedFrom s
  have hreads : ReadsFrom 0 s ((placedFrom 0 (Reading.ofText s).pieces).map Prod.snd) := by
    simpa using readsFrom_placedFrom (Reading.leftmost_ofText s)
      (fun p hp => hfit p.2 (List.mem_map_of_mem hp)) []
  obtain ⟨r, hr, hms⟩ : ∃ r, Reading.matchesOfText s = .ok r ∧
      r.matches = (placedFrom 0 (Reading.ofText s).pieces).map Prod.snd :=
    ⟨_, matchesOfText_eq_ok hfit, rfl⟩
  rw [← hms] at hread hreads
  have hfit' : ∀ t ∈ (Reading.ofText (shieldedFrom s 0 r.matches)).matches,
      attributesFit t.attributeText = true := by
    rw [hread]
    intro t' ht'
    obtain ⟨t, ht, rfl⟩ := Reading.mem_matches_shielded.mp ht'
    rw [Tag.attributeText_shielded]
    exact hfit t ht
  have hr' := matchesOfText_eq_ok hfit'
  refine ⟨r, _, hr, hr', ?_, fun e d st => ?_, fun m hm => ?_⟩
  · rw [hread, hms]
    exact (escapes_placedFrom ..).imp fun _ _ h => ⟨h.escaped, h.name, h.content, h.attributes⟩
  · have hnone : ∀ t' ∈ (Reading.ofText (shieldedFrom s 0 r.matches)).matches,
        t'.escaped = false → e.registry.find? t'.name = none := by
      rw [hread]
      intro t' ht' hescaped
      obtain ⟨t, -, rfl⟩ := Reading.mem_matches_shielded.mp ht'
      rw [t.escaped_shielded] at hescaped
      cases hescaped
    have hsettles := settles_evaluate hnone hr'
    rw [hread, Reading.standing_shielded (Reading.leftmost_ofText s)] at hsettles
    have hyields := hsettles.yields (d.answer e.perform) st
    rw [hread, e.textBy_eq]
    exact ⟨hyields.outcome, hyields.state, hsettles.effects _ _⟩
  · exact ⟨(hreads.tags m hm).2.mark_isPrefix, hreads.escaped_iff hm⟩

/-- An escaped tag, one with two backslashes before it, an opening that is never ended, and two tags
without a backslash, of which one has no closer. -/
theorem evaluation_of_shielded_mixed :
    let s := "\\[@a k=1]y[/@a]\\\\[@b] [@c [@b n='0'][@a]z[/@a]".toList
    (∀ t ∈ (Reading.ofText s).matches, attributesFit t.attributeText = true) ∧
      ∃ r, Reading.matchesOfText s = .ok r ∧
        ∀ d : Driver, ((emptyEngine.textBy d (shieldedFrom s 0 r.matches)).run ()).outcome.map
          Evaluated.text = .ok s := by
  intro s
  have hfit : ∀ t ∈ (Reading.ofText s).matches, attributesFit t.attributeText = true := by
    decide +kernel
  obtain ⟨r, r', hr, -, -, hrun, -⟩ := evaluation_of_shielded s hfit
  refine ⟨hfit, r, hr, fun d => ?_⟩
  rw [(hrun emptyEngine d ()).1]
  rfl

end TagTemplate
