import TagTemplate.Proofs.Escaping

/-!
# Cutting and extending a text

A tag may reach to a closer that is far away, and an opening may go on over the place where a text
is cut. Still a text can be cut where one of its tags ends, or before or after a gap, and each part
has the tags that it has in the whole; and text without an opening bracket before it, or without a
closing one behind it, changes nothing.

It is the closing bracket at the end of every opening and every closer that makes this so. What
stands behind the tags of a text may be replaced by anything that ends with a closing bracket
nowhere but where the text does (`ClosesWithin`), if no opening is in it (`Leftmost.replace_rest`) :
by nothing, so that the text is cut there, or by what was there with more text behind it.
-/

namespace TagTemplate

variable {B σ α β : Type}

/-! ## Where a text can close -/

/-- Every beginning of `x` that ends in a closing bracket is also a beginning of `y`. -/
def ClosesWithin (x y : Text) : Prop :=
  ∀ w : Text, w.getLast? = some ']' → w <+: x → w <+: y

/-- A beginning of two texts together ends in the first, or in the second with the same
character. -/
theorem prefix_append_cases {w a x : Text} {c : Char} (h : w <+: a ++ x)
    (hlast : w.getLast? = some c) :
    w <+: a ∨ ∃ v, w = a ++ v ∧ v <+: x ∧ v.getLast? = some c := by
  rcases List.prefix_or_prefix_of_prefix h (List.prefix_append a x) with ha | ⟨v, rfl⟩
  · exact .inl ha
  · cases v with
    | nil => exact .inl ⟨[], by simp⟩
    | cons d v =>
      rw [List.getLast?_append, List.getLast?_cons, Option.some_or, ← List.getLast?_cons] at hlast
      exact .inr ⟨_, rfl, (List.prefix_append_right_inj a).mp h, hlast⟩

namespace ClosesWithin

variable {x y : Text}

theorem of_isPrefix (h : x <+: y) : ClosesWithin x y :=
  fun _ _ hw => hw.trans h

/-- Text without a closing bracket closes nothing behind a text. -/
theorem append_right {q : Text} (s : Text) (hq : ']' ∉ q) : ClosesWithin (s ++ q) s := by
  intro w hlast hw
  rcases prefix_append_cases hw hlast with h | ⟨v, -, hv, hlast⟩
  · exact h
  · exact absurd (hv.mem (List.mem_of_getLast? hlast)) hq

/-- The same text may stand before both. -/
theorem append_left (h : ClosesWithin x y) (a : Text) : ClosesWithin (a ++ x) (a ++ y) := by
  intro w hlast hw
  rcases prefix_append_cases hw hlast with ha | ⟨v, rfl, hv, hlast⟩
  · exact ha.trans (List.prefix_append a y)
  · exact (List.prefix_append_right_inj a).mpr (h v hlast hv)

/-- As much may be left out of both. -/
theorem drop (h : ClosesWithin x y) (k : Nat) : ClosesWithin (x.drop k) (y.drop k) := by
  intro w hlast hw
  have hk : k ≤ x.length := by
    by_contra hlt
    rw [List.drop_eq_nil_of_le (by omega), List.prefix_nil] at hw
    rw [hw] at hlast
    cases hlast
  have hlast' : (x.take k ++ w).getLast? = some ']' := by
    rw [List.getLast?_append, hlast, Option.some_or]
  have hw' : x.take k ++ w <+: x := by
    conv_rhs => rw [← List.take_append_drop k x]
    exact (List.prefix_append_right_inj _).mpr hw
  obtain ⟨z, hz⟩ := h _ hlast' hw'
  have hlen : (x.take k).length = k := List.length_take_of_le hk
  rw [← hz, List.append_assoc, List.drop_left' hlen]
  exact List.prefix_append w z

theorem opensAt (h : ClosesWithin x y) (ho : OpensAt x) : OpensAt y := by
  obtain ⟨o, w, hw, hp⟩ := ho
  exact ⟨o, w, hw, h w hw.getLast?_eq hp⟩

theorem closer_infix (h : ClosesWithin x y) {name : Text} (hc : closer name <:+: x) :
    closer name <:+: y := by
  obtain ⟨a, b, rfl⟩ := hc
  have hlast : (a ++ closer name).getLast? = some ']' := by
    simp [closer, List.getLast?_append, List.getLast?_cons]
  exact (List.suffix_append a _).isInfix.trans (h _ hlast (List.prefix_append ..)).isInfix

end ClosesWithin

/-! ## Readings -/

namespace Reading

variable {front back : List (Text × Tag)} {gap s tail x : Text} {t : Tag}

theorem joined_append (front back : List (Text × Tag)) (tail : Text) :
    joined ⟨front ++ back, tail⟩ = joined ⟨front, []⟩ ++ joined ⟨back, tail⟩ := by
  simp [joined]

theorem joined_append_tail (front : List (Text × Tag)) (x : Text) :
    joined ⟨front, x⟩ = joined ⟨front, []⟩ ++ x := by
  simp [joined]

/-- What a reading says that has a first tag. -/
theorem Leftmost.of_cons {pieces : List (Text × Tag)} (h : Leftmost s ⟨(gap, t) :: pieces, tail⟩) :
    ∃ u rest, s = gap ++ u ∧ (∀ k < gap.length, ¬OpensAt ((gap ++ u).drop k)) ∧ t.Heads u rest ∧
      Leftmost rest ⟨pieces, tail⟩ := by
  generalize hr : (⟨(gap, t) :: pieces, tail⟩ : Reading Tag) = r at h
  cases h with
  | done => cases hr
  | tag hgap ht hrest =>
    cases hr
    exact ⟨_, _, rfl, hgap, ht, hrest⟩

/-- The first tags of a text stay as they are if what follows them is replaced by text without an
opening that closes only where the text did. -/
theorem Leftmost.replace_rest (h : Leftmost s ⟨front ++ back, tail⟩)
    (hx : ClosesWithin x (joined ⟨back, tail⟩)) (hnone : ∀ k, ¬OpensAt (x.drop k)) :
    Leftmost (joined ⟨front, x⟩) ⟨front, x⟩ := by
  induction front generalizing s with
  | nil => exact .done hnone
  | cons p front ih =>
    obtain ⟨gap, t⟩ := p
    obtain ⟨u, rest, -, hgap, ht, (hrest : Leftmost rest ⟨front ++ back, tail⟩)⟩ := h.of_cons
    -- What follows this tag closes only where it did, and so does what follows the gap.
    have hafter : ClosesWithin (joined ⟨front, x⟩) rest := by
      rw [← hrest.joined_eq, joined_append, joined_append_tail]
      exact hx.append_left _
    have htext : joined ⟨(gap, t) :: front, x⟩ = gap ++ (t.written ++ joined ⟨front, x⟩) := by
      simp [joined]
    rw [htext]
    refine .tag (fun k hk ho => hgap k hk ?_) (ht.congr_rest hafter.closer_infix) (ih hrest)
    rw [ht.eq_append]
    exact (((hafter.append_left t.written).append_left gap).drop k).opensAt ho

/-- What follows the first tags of a text is read as it is in the text. -/
theorem Leftmost.drop_front (h : Leftmost s ⟨front ++ back, tail⟩) :
    Leftmost (joined ⟨back, tail⟩) ⟨back, tail⟩ := by
  induction front generalizing s with
  | nil => exact h.joined_eq.symm ▸ h
  | cons p front ih =>
    obtain ⟨u, rest, -, -, -, hrest⟩ := h.of_cons
    exact ih hrest

section Parts

variable (h : Leftmost s ⟨front ++ (gap, t) :: back, tail⟩)
include h

/-- There is no opening in a gap. -/
theorem Leftmost.of_gap : Leftmost gap ⟨[], gap⟩ := by
  obtain ⟨u, -, -, hgap, -, -⟩ := h.drop_front.of_cons
  refine .done fun k ho => ?_
  rcases Nat.lt_or_ge k gap.length with hk | hk
  · have hwithin := ((ClosesWithin.of_isPrefix (List.prefix_append gap u)).drop k).opensAt ho
    exact hgap k hk hwithin
  · rw [List.drop_eq_nil_of_le hk] at ho
    exact not_opensAt_nil ho

/-- A tag alone is that tag. -/
theorem Leftmost.alone : Leftmost t.written ⟨[([], t)], []⟩ := by
  obtain ⟨u, rest, -, -, ht, -⟩ := h.drop_front.of_cons
  have hheads : t.Heads (t.written ++ []) [] := ht.congr_rest fun hclose => by
    simp [closer] at hclose
  rw [List.append_nil] at hheads
  exact hheads.leftmost

/-- A text that is cut behind a tag has the tags up to that one. -/
theorem Leftmost.upTo : Leftmost (joined ⟨front ++ [(gap, t)], []⟩) ⟨front ++ [(gap, t)], []⟩ := by
  rw [List.append_cons] at h
  refine h.replace_rest (.of_isPrefix List.nil_prefix) ?_
  simpa using not_opensAt_nil

/-- And behind that tag are the others. -/
theorem Leftmost.beyond : Leftmost (joined ⟨back, tail⟩) ⟨back, tail⟩ := by
  rw [List.append_cons] at h
  exact h.drop_front

end Parts

/-- There is no opening in what follows the last tag. -/
theorem Leftmost.of_tail {pieces : List (Text × Tag)} (h : Leftmost s ⟨pieces, tail⟩) :
    Leftmost tail ⟨[], tail⟩ := by
  rw [← List.append_nil pieces] at h
  exact h.drop_front

/-- Text without a closing bracket behind a text has no tag and changes none. -/
theorem Leftmost.append_right {pieces : List (Text × Tag)} (h : Leftmost s ⟨pieces, tail⟩)
    {q : Text} (hq : ']' ∉ q) : Leftmost (s ++ q) ⟨pieces, tail ++ q⟩ := by
  have hwithin := ClosesWithin.append_right tail hq
  have hnone : ∀ k, ¬OpensAt ((tail ++ q).drop k) := fun k ho => by
    cases h.of_tail with
    | done hnone => exact hnone k ((hwithin.drop k).opensAt ho)
  have htext : s ++ q = joined ⟨pieces, tail ++ q⟩ := by
    rw [← h.joined_eq]
    simp [joined]
  rw [htext]
  rw [← List.append_nil pieces] at h
  exact h.replace_rest (by simpa [joined] using hwithin) hnone

end Reading

/-! ## Matches -/

/-- The match with `n` more characters before it. -/
def Match.movedBy (n : Nat) (m : Match) : Match :=
  { m with start := n + m.start }

/-- Where the last of the matches ends, or `n` if there are none. -/
def stopFrom (n : Nat) : List Match → Nat
  | [] => n
  | m :: ms => stopFrom m.stop ms

/-- The matches of a text whose reading is known. -/
theorem matchesOf_eq_ok {s : Text} {r : Reading Tag} (h : Reading.Leftmost s r)
    (hfit : ∀ t ∈ r.matches, attributesFit t.attributeText = true) :
    matchesOf (.text s) = .ok ((placedFrom 0 r.pieces).map Prod.snd) := by
  obtain rfl := h.eq_ofText
  change (Reading.matchesOfText s >>= fun r => pure r.matches) = _
  rw [matchesOfText_eq_ok hfit]
  rfl

/-- More characters before tags move their matches. -/
theorem placedFrom_add (n k : Nat) (pieces : List (Text × Tag)) :
    (placedFrom (n + k) pieces).map Prod.snd =
      ((placedFrom k pieces).map Prod.snd).map (Match.movedBy n) := by
  induction pieces generalizing k with
  | nil => rfl
  | cons p pieces ih =>
    simp only [placedFrom, List.map_cons, Nat.add_assoc, ih]
    rfl

theorem placedFrom_after (n : Nat) (p : Text) (r : Reading Tag) :
    (placedFrom n (r.after p).pieces).map Prod.snd =
      (placedFrom (n + p.length) r.pieces).map Prod.snd := by
  obtain ⟨_ | ⟨⟨gap, t⟩, pieces⟩, tail⟩ := r
  · rfl
  · simp [Reading.after, placedFrom, Nat.add_assoc]

/-- The last of the matches ends where the tags do. -/
theorem stopFrom_placedFrom (n : Nat) (pieces : List (Text × Tag)) :
    stopFrom n ((placedFrom n pieces).map Prod.snd) =
      n + (Reading.joined ⟨pieces, []⟩).length := by
  induction pieces generalizing n with
  | nil => rfl
  | cons p pieces ih =>
    refine (ih _).trans ?_
    simp [Reading.joined, Match.stop, Tag.placedAt, Nat.add_assoc]

/-- Where the matches of tags are parted, so are the tags. -/
theorem exists_of_placedFrom_eq {pieces : List (Text × Tag)} {n : Nat} {before after : List Match}
    {m : Match} (h : (placedFrom n pieces).map Prod.snd = before ++ m :: after) :
    ∃ front gap t back, pieces = front ++ (gap, t) :: back ∧
      before = (placedFrom n front).map Prod.snd ∧
      before ++ [m] = (placedFrom n (front ++ [(gap, t)])).map Prod.snd ∧
      m = t.placedAt (stopFrom n before + gap.length) ∧
      after = (placedFrom m.stop back).map Prod.snd := by
  induction before generalizing n pieces with
  | nil =>
    obtain _ | ⟨⟨gap, t⟩, back⟩ := pieces
    · cases h
    · obtain ⟨rfl, rfl⟩ := List.cons.inj h
      exact ⟨[], gap, t, back, rfl, rfl, rfl, rfl, rfl⟩
  | cons b before ih =>
    obtain _ | ⟨⟨gap', t'⟩, pieces⟩ := pieces
    · cases h
    · obtain ⟨rfl, hrest⟩ := List.cons.inj h
      obtain ⟨front, gap, t, back, rfl, hbefore, hupTo, hm, hafter⟩ := ih hrest
      exact ⟨(gap', t') :: front, gap, t, back, rfl, congrArg (_ :: ·) hbefore,
        congrArg (_ :: ·) hupTo, hm, hafter⟩

/-- What stands behind the last of the matches is the tail. -/
theorem drop_stopFrom {s : Text} {r : Reading Tag} (h : Reading.Leftmost s r) :
    s.drop (stopFrom 0 ((placedFrom 0 r.pieces).map Prod.snd)) = r.tail := by
  obtain ⟨pieces, tail⟩ := r
  rw [stopFrom_placedFrom, Nat.zero_add, ← h.joined_eq, Reading.joined_append_tail pieces tail,
    List.drop_left]

/-- What the parts of the text `s` hold, into which it falls at the match `m`, where the matches
`before` and `after` are the others. -/
structure PartsAt (s : Text) (before : List Match) (m : Match) (after : List Match) : Prop where
  /-- Nothing is found in the gap before the match. -/
  gap : matchesOf (.text (s.extract (stopFrom 0 before) m.start)) = .ok []
  /-- The match alone is found where its text begins. -/
  alone : matchesOf (.text m.written) = .ok [{ m with start := 0 }]
  /-- Cut behind the match, the text has the matches up to it. -/
  upTo : matchesOf (.text (s.take m.stop)) = .ok (before ++ [m])
  /-- Behind it are the others, moved to where that part begins. -/
  beyond : ∃ later, matchesOf (.text (s.drop m.stop)) = .ok later ∧
    after = later.map (Match.movedBy m.stop)

theorem partsAt_of_leftmost {s : Text} {r : Reading Tag} (h : Reading.Leftmost s r)
    (hfit : ∀ t ∈ r.matches, attributesFit t.attributeText = true) {before after : List Match}
    {m : Match} (hms : (placedFrom 0 r.pieces).map Prod.snd = before ++ m :: after) :
    PartsAt s before m after := by
  obtain ⟨pieces, tail⟩ := r
  obtain ⟨front, gap, t, back, rfl, hbefore, hupTo, rfl, rfl⟩ := exists_of_placedFrom_eq hms
  have hstop : stopFrom 0 before = (Reading.joined ⟨front, []⟩).length := by
    rw [hbefore, stopFrom_placedFrom, Nat.zero_add]
  have ht : attributesFit t.attributeText = true := hfit t (by simp [Reading.matches])
  have hcut : s = Reading.joined ⟨front ++ [(gap, t)], []⟩ ++ Reading.joined ⟨back, tail⟩ := by
    rw [← h.joined_eq, List.append_cons, Reading.joined_append]
  have hlength : (t.placedAt (stopFrom 0 before + gap.length)).stop =
      (Reading.joined ⟨front ++ [(gap, t)], []⟩).length := by
    simp [Match.stop, Tag.placedAt, hstop, Reading.joined, Nat.add_assoc]
  have hgap : s.extract (stopFrom 0 before)
      (t.placedAt (stopFrom 0 before + gap.length)).start = gap := by
    change s.extract _ (stopFrom 0 before + gap.length) = gap
    rw [← h.joined_eq, Reading.joined_append, List.extract_eq_take_drop, List.drop_left' hstop.symm,
      Nat.add_sub_cancel_left]
    simp [Reading.joined]
  have halone := matchesOf_eq_ok h.alone (List.forall_mem_singleton.mpr ht)
  refine ⟨?_, halone, ?_, _, ?_, placedFrom_add _ 0 back⟩
  · rw [hgap]
    exact matchesOf_eq_ok h.of_gap (List.forall_mem_nil _)
  · rw [hlength, hcut, List.take_left, hupTo]
    refine matchesOf_eq_ok h.upTo fun u hu => hfit u ?_
    rw [List.append_cons, Reading.matches, List.map_append]
    exact List.mem_append_left _ hu
  · rw [hlength, hcut, List.drop_left]
    refine matchesOf_eq_ok h.beyond fun u hu => hfit u ?_
    rw [Reading.matches, List.map_append]
    exact List.mem_append_right _ (List.mem_cons_of_mem _ hu)

/-! ## Evaluations -/

/-- `e'` goes the way that `e` does, notes aside, and ends with what `f` makes of its result. -/
inductive Evaluation.Mirrors (f : α → β) : Evaluation B α → Evaluation B β → Prop
  | done (a : α) : Mirrors f (.done a) (.done (f a))
  | fail (g : Fault) : Mirrors f (.fail g) (.fail g)
  | noted (n : Note) {e : Evaluation B α} {e' : Evaluation B β} (h : Mirrors f e e') :
    Mirrors f (.note n e) e'
  | notes (n : Note) {e : Evaluation B α} {e' : Evaluation B β} (h : Mirrors f e e') :
    Mirrors f e (.note n e')
  | call (c : Call B) {resume : Value → Evaluation B α} {resume' : Value → Evaluation B β}
    (h : ∀ v, Mirrors f (resume v) (resume' v)) : Mirrors f (.call c resume) (.call c resume')

/-- Runs from one state that make the same calls, where the second ends with what `f` makes of the
result of the first. -/
structure MirrorRuns (f : α → β) (xs : List (Execution B σ)) (r : Run σ α)
    (xs' : List (Execution B σ)) (r' : Run σ β) : Prop where
  calls : xs' = xs
  outcome : r'.outcome = r.outcome.map f
  state : r'.state = r.state
  effects : r'.journal.effects = r.journal.effects

namespace Evaluation.Mirrors

variable {γ : Type} {f : β → γ}

/-- What two continuations of an evaluation differ in. -/
theorem of_bind (e : Evaluation B α) (g : α → β) :
    (e.bind fun a => .done (g a)).Mirrors f (e.bind fun a => .done (f (g a))) := by
  induction e with
  | done a => exact .done (g a)
  | fail g => exact .fail g
  | note n e ih => exact .noted n (.notes n ih)
  | call c resume ih => exact .call c ih

theorem noteFound {e : Evaluation B β} {e' : Evaluation B γ} (h : e.Mirrors f e') (s s' : Text)
    (r r' : Reading Match) :
    (TagTemplate.noteFound s r e).Mirrors f (TagTemplate.noteFound s' r' e') := by
  unfold TagTemplate.noteFound
  split <;> split
  · exact h
  · exact .notes _ h
  · exact .noted _ h
  · exact .noted _ (.notes _ h)

theorem run {e : Evaluation B β} {e' : Evaluation B γ} (h : e.Mirrors f e')
    (answer : Call B → Process σ Value) (s : σ) :
    MirrorRuns f (e.executions answer s) ((e.drive answer).run s) (e'.executions answer s)
      ((e'.drive answer).run s) := by
  induction h generalizing s with
  | done a => exact ⟨rfl, rfl, rfl, rfl⟩
  | fail g => exact ⟨rfl, rfl, rfl, rfl⟩
  | noted n _ ih =>
    obtain ⟨hcalls, houtcome, hstate, heffects⟩ := ih s
    exact ⟨hcalls, houtcome, hstate, heffects.trans (Journal.effects_note ..).symm⟩
  | notes n _ ih =>
    obtain ⟨hcalls, houtcome, hstate, heffects⟩ := ih s
    exact ⟨hcalls, houtcome, hstate, (Journal.effects_note ..).trans heffects⟩
  | call c _ ih =>
    simp only [executions, drive, Process.run_bind, Run.bind]
    cases ho : ((answer c).run s).outcome with
    | error g => exact ⟨rfl, rfl, rfl, rfl⟩
    | ok v =>
      obtain ⟨hcalls, houtcome, hstate, heffects⟩ := ih v ((answer c).run s).state
      exact ⟨congrArg _ hcalls, houtcome, hstate, by simp [heffects]⟩

end Evaluation.Mirrors

/-- What is made of the evaluation of a text by more text before and behind it. -/
def Evaluated.between (p q : Text) (e : Evaluated) : Evaluated :=
  ⟨p ++ e.text ++ q, e.found.map (Match.movedBy p.length)⟩

section Around

variable {s p q : Text} {r : Reading Tag} (hp : '[' ∉ p) (hlast : p.getLast? ≠ some '\\')
  (hq : ']' ∉ q)

theorem replaceReading_around (look : Text → Option (Spec B)) :
    replaceReading look (.after p ⟨r.pieces, r.tail ++ q⟩) =
      (replaceReading look r).bind fun text => .done (p ++ text ++ q) := by
  have hright : replaceReading look ⟨r.pieces, r.tail ++ q⟩ =
      (replaceReading look r).bind fun text => .done (text ++ q) := by
    simp [replaceReading, Evaluation.bind_assoc]
  rw [replaceReading_after, hright, Evaluation.bind_assoc]
  simp

theorem placedFrom_around :
    (placedFrom 0 (Reading.after p ⟨r.pieces, r.tail ++ q⟩).pieces).map Prod.snd =
      ((placedFrom 0 r.pieces).map Prod.snd).map (Match.movedBy p.length) := by
  rw [placedFrom_after, Nat.zero_add]
  exact placedFrom_add p.length 0 r.pieces

theorem matches_around : (Reading.after p ⟨r.pieces, r.tail ++ q⟩).matches = r.matches :=
  Reading.matches_after ..

include hp hlast hq

/-- Text around a text changes none of its tags. -/
theorem Reading.Leftmost.around (h : Leftmost s r) :
    Leftmost (p ++ s ++ q) (after p ⟨r.pieces, r.tail ++ q⟩) := by
  have hright := h.append_right hq
  rw [leftmost_iff, List.append_assoc, ofText_append_of_plain _ hp hlast, ← hright.eq_ofText]

/-- It is evaluated as the text alone, and stays around what takes its place. -/
theorem mirrors_around (look : Text → Option (Spec B)) (h : Reading.Leftmost s r)
    (hfit : ∀ t ∈ r.matches, attributesFit t.attributeText = true) :
    (evaluate look s).Mirrors (.between p q) (evaluate look (p ++ s ++ q)) := by
  have hfit' := (@matches_around p q r).symm ▸ hfit
  rw [evaluate_eq_replaceReading look h hfit,
    evaluate_eq_replaceReading look (h.around hp hlast hq) hfit', replaceReading_around,
    placedFrom_around, Evaluation.bind_assoc]
  exact (Evaluation.Mirrors.of_bind _ _).noteFound ..

end Around

/-- Where a text is cut at one of its matches, each part has the matches that it has in the text :
none in a gap or behind the last match, the match alone in its own text, those up to it where the
text is cut behind it, and the others in what follows. Text without an opening bracket before it,
unless a backslash is its last character, and text without a closing bracket behind it only move the
matches. Whatever handlers there are and whoever drives, evaluation makes the same calls then, ends
with the same result between those texts, or with the same fault, and leaves the same state. -/
theorem matchesOf_of_parts (s : Text)
    (hfit : ∀ t ∈ (Reading.ofText s).matches, attributesFit t.attributeText = true) :
    ∃ ms, matchesOf (.text s) = .ok ms ∧
      (∀ before m after, ms = before ++ m :: after → PartsAt s before m after) ∧
      matchesOf (.text (s.drop (stopFrom 0 ms))) = .ok [] ∧
      ∀ p q : Text, '[' ∉ p → p.getLast? ≠ some '\\' → ']' ∉ q →
        matchesOf (.text (p ++ s ++ q)) = .ok (ms.map (Match.movedBy p.length)) ∧
        ∀ {B σ : Type} (e : Engine B σ) (d : Driver) (st : σ),
          MirrorRuns (Evaluated.between p q) (e.calls d s st) ((e.textBy d s).run st)
            (e.calls d (p ++ s ++ q) st) ((e.textBy d (p ++ s ++ q)).run st) := by
  have h := Reading.leftmost_ofText s
  refine ⟨_, matchesOf_eq_ok h hfit, fun before m after hms => partsAt_of_leftmost h hfit hms, ?_,
    fun p q hp hlast hq => ⟨?_, fun e d st => ?_⟩⟩
  · rw [drop_stopFrom h]
    exact matchesOf_eq_ok h.of_tail (List.forall_mem_nil _)
  · rw [← placedFrom_around]
    exact matchesOf_eq_ok (h.around hp hlast hq) (matches_around.symm ▸ hfit)
  · rw [e.textBy_eq, e.textBy_eq]
    exact (mirrors_around hp hlast hq e.registry.find? h hfit).run ..

/-- Closers without an opening, openings that are never ended, in the text and around it, and two
tags of one name. -/
theorem matchesOf_of_parts_unfinished :
    let s := "]x[@b [@a n=1]y[/@a]\\[@a][/@b][@b]z [@a".toList
    let p := "@b] \\] ".toList
    let q := " [@b [/@a".toList
    (∀ t ∈ (Reading.ofText s).matches, attributesFit t.attributeText = true) ∧
      '[' ∉ p ∧ p.getLast? ≠ some '\\' ∧ ']' ∉ q ∧
      ∃ ms, matchesOf (.text s) = .ok ms ∧
        matchesOf (.text (p ++ s ++ q)) = .ok (ms.map (Match.movedBy p.length)) ∧
        ∀ before m after, ms = before ++ m :: after → PartsAt s before m after := by
  intro s p q
  have hfit : ∀ t ∈ (Reading.ofText s).matches, attributesFit t.attributeText = true := by
    decide +kernel
  have hp : '[' ∉ p := by decide
  have hlast : p.getLast? ≠ some '\\' := by decide
  have hq : ']' ∉ q := by decide
  obtain ⟨ms, hms, hparts, -, haround⟩ := matchesOf_of_parts s hfit
  exact ⟨hfit, hp, hlast, hq, ms, hms, (haround p q hp hlast hq).1, hparts⟩

end TagTemplate
