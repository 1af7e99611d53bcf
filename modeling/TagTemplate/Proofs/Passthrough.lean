import TagTemplate.Proofs.Locality
import TagTemplate.Proofs.Opacity

/-!
# Texts that nothing is called for

If no tag of a text has a handler, those that are escaped aside, its evaluation calls nothing and
hands the text back without the backslashes of the escaped tags. Here that text is told by positions
alone : it is the text without the characters where the escaped matches start
(`without_escapedStarts`), and each of these characters is a backslash. What the evaluation notes is
known too, so that it is seen to look at no content : the number of the matches, and each of them
that has no handler.
-/

namespace TagTemplate

variable {B σ α : Type}

/-! ## Leaving characters out -/

/-- The text that begins at the position `n`, without the characters at some positions. -/
def withoutFrom (n : Nat) (positions : List Nat) (s : Text) : Text :=
  ((s.zipIdx n).filter fun p => p.2 ∉ positions).map Prod.fst

/-- The text without the characters at some positions. -/
def without (positions : List Nat) (s : Text) : Text :=
  withoutFrom 0 positions s

/-- Where the escaped matches start. -/
def escapedStarts (ms : List Match) : List Nat :=
  (ms.filter Match.escaped).map Match.start

section Without

variable {n : Nat} {positions : List Nat} {s t : Text}

theorem withoutFrom_append : withoutFrom n positions (s ++ t) =
    withoutFrom n positions s ++ withoutFrom (n + s.length) positions t := by
  simp [withoutFrom, List.zipIdx_append]

/-- A text stays as it is if none of the positions is in it. -/
theorem withoutFrom_eq_self (h : ∀ k ∈ positions, n ≤ k → n + s.length ≤ k) :
    withoutFrom n positions s = s := by
  have hkept : (s.zipIdx n).filter (fun p => p.2 ∉ positions) = s.zipIdx n := by
    refine List.filter_eq_self.mpr fun p hp => ?_
    have hge := List.le_snd_of_mem_zipIdx hp
    have hlt := List.snd_lt_add_of_mem_zipIdx hp
    exact decide_eq_true fun hmem => absurd (h p.2 hmem hge) (by omega)
  rw [withoutFrom, hkept, List.zipIdx_map_fst]

/-- Only the first character is left out. -/
theorem withoutFrom_cons_of_mem {c : Char} (hn : n ∈ positions) :
    withoutFrom n positions (c :: s) = withoutFrom (n + 1) positions s := by
  simp [withoutFrom, List.zipIdx_cons, hn]

end Without

/-! ## Where the backslashes stand -/

section Starts

variable {n k : Nat} {gap : Text} {t : Tag} {pieces : List (Text × Tag)}

theorem mem_escapedStarts_cons :
    k ∈ escapedStarts ((placedFrom n ((gap, t) :: pieces)).map Prod.snd) ↔
      (t.escaped = true ∧ k = n + gap.length) ∨ k ∈ escapedStarts
        ((placedFrom (n + gap.length + t.written.length) pieces).map Prod.snd) := by
  have hescaped : (t.placedAt (n + gap.length)).escaped = t.escaped := rfl
  rw [escapedStarts, placedFrom, List.map_cons, List.filter_cons, hescaped, escapedStarts]
  cases t.escaped with
  | false => simp
  | true => simp [Tag.placedAt]

theorem le_of_mem_escapedStarts
    (hk : k ∈ escapedStarts ((placedFrom n pieces).map Prod.snd)) : n ≤ k := by
  obtain ⟨m, hm, rfl⟩ := List.mem_map.mp hk
  obtain ⟨p, hp, rfl⟩ := List.mem_map.mp (List.mem_of_mem_filter hm)
  obtain ⟨t, -, i, hi, hplaced⟩ := exists_of_mem_placedFrom hp
  rw [hplaced]
  exact hi

end Starts

theorem Tag.Heads.written_of_escaped {t : Tag} {s rest : Text} (h : t.Heads s rest)
    (he : t.escaped = true) : ∃ u, t.written = '\\' :: u := by
  obtain ⟨u, hu⟩ := h.written_eq
  exact ⟨_, by rw [hu, he, escapeMark]; rfl⟩

/-- A tag without its backslash is left of it if the character at its start is to go and no
other. -/
theorem withoutFrom_written {n : Nat} {positions : List Nat} {t : Tag} {s rest : Text}
    (ht : t.Heads s rest) (hstart : n ∈ positions ↔ t.escaped = true)
    (hlater : ∀ k ∈ positions, n < k → n + t.written.length ≤ k) :
    withoutFrom n positions t.written = t.standing := by
  cases he : t.escaped with
  | true =>
    obtain ⟨u, hu⟩ := ht.written_of_escaped he
    rw [Tag.standing, if_pos he]
    rw [hu] at hlater ⊢
    rw [withoutFrom_cons_of_mem (hstart.mpr he), List.drop_one, List.tail_cons]
    refine withoutFrom_eq_self fun k hk hn => ?_
    have hle := hlater k hk hn
    rw [List.length_cons] at hle
    omega
  | false =>
    have hnot : n ∉ positions := by simp [hstart, he]
    rw [Tag.standing, if_neg (by simp [he])]
    refine withoutFrom_eq_self fun k hk hn => hlater k hk (lt_of_le_of_ne hn ?_)
    rintro rfl
    exact hnot hk

/-- Without the characters at which its escaped tags start, a text is what stands if nothing is
called for its tags. -/
theorem withoutFrom_of_leftmost {s : Text} {r : Reading Tag} (h : Reading.Leftmost s r) {n : Nat}
    {positions : List Nat} (hpositions : ∀ k, n ≤ k →
      (k ∈ positions ↔ k ∈ escapedStarts ((placedFrom n r.pieces).map Prod.snd))) :
    withoutFrom n positions s = r.standing := by
  induction h generalizing n with
  | @done s _ =>
    refine (withoutFrom_eq_self fun k hk hn => ?_).trans (List.nil_append s).symm
    simpa [escapedStarts, placedFrom] using (hpositions k hn).mp hk
  | @tag gap s rest t r _ ht _ ih =>
    have hlength := ht.length_written_pos
    have hlater {k} := @le_of_mem_escapedStarts (n + gap.length + t.written.length) k r.pieces
    have hgap : withoutFrom n positions gap = gap := by
      refine withoutFrom_eq_self fun k hk hn => ?_
      obtain ⟨-, rfl⟩ | hk := mem_escapedStarts_cons.mp ((hpositions k hn).mp hk)
      · exact Nat.le_refl _
      · exact (Nat.le_add_right ..).trans (hlater hk)
    have hwritten : withoutFrom (n + gap.length) positions t.written = t.standing := by
      refine withoutFrom_written ht ?_ fun k hk hn => ?_
      · rw [hpositions _ (Nat.le_add_right ..), mem_escapedStarts_cons]
        refine ⟨fun hk => hk.elim And.left fun hk => ?_, fun he => Or.inl ⟨he, rfl⟩⟩
        exact absurd (hlater hk) (by omega)
      · obtain ⟨-, rfl⟩ | hk := mem_escapedStarts_cons.mp ((hpositions k (by omega)).mp hk)
        · exact absurd hn (Nat.lt_irrefl _)
        · exact hlater hk
    have hrest : withoutFrom (n + gap.length + t.written.length) positions rest = r.standing := by
      refine ih fun k hk => ?_
      rw [hpositions k (by omega), mem_escapedStarts_cons]
      exact or_iff_right fun hstart => by omega
    rw [ht.eq_append, withoutFrom_append, withoutFrom_append, hgap, hwritten, hrest]
    simp [Reading.standing]

theorem without_escapedStarts {s : Text} {r : Reading Tag} (h : Reading.Leftmost s r) :
    without (escapedStarts ((placedFrom 0 r.pieces).map Prod.snd)) s = r.standing :=
  withoutFrom_of_leftmost h fun _ _ => Iff.rfl

theorem without_of_not_escaped {ms : List Match} (h : ∀ m ∈ ms, m.escaped = false) (s : Text) :
    without (escapedStarts ms) s = s := by
  have hnone : escapedStarts ms = [] := by simpa [escapedStarts] using h
  rw [without, hnone]
  exact withoutFrom_eq_self (by simp)

/-! ## The evaluation -/

namespace Evaluation

variable (answer : Call B → Process σ Value) (notes : List Note) (a : α) (s : σ)

theorem run_noting : ((noting notes a).drive answer).run s = ⟨.ok a, s, notes.map .note⟩ := by
  induction notes with
  | nil => rfl
  | cons n notes ih =>
    exact congrArg (fun r : Run σ α => { r with journal := .note n :: r.journal }) ih

theorem executions_noting : (noting notes a).executions answer s = [] := by
  induction notes with
  | nil => rfl
  | cons n notes ih => exact ih

end Evaluation

/-- Where a match that is escaped starts, its backslash stands. -/
theorem Match.ReadIn.getElem?_start {m : Match} {s : Text} (h : m.ReadIn s)
    (he : m.escaped = true) : s[m.start]? = some '\\' := by
  obtain ⟨t, ht, hmakes⟩ := h
  obtain ⟨u, hu⟩ := ht.written_of_escaped (hmakes.escaped ▸ he)
  rw [← List.head?_drop, ht.eq_append, hu]
  rfl

/-- If no match of a text is of a registered name, those that are escaped aside, then whatever
handlers there are and whoever drives, evaluating the text calls none of them, leaves the state as
it is, and gives the text without the one character where each escaped match starts, which is its
backslash. All else stays, so also what is written inside the matches, escaped or not : what is
noted are the number of the matches and those that are not escaped, and nothing about their
contents. If no match is escaped the text stays as it is. -/
theorem evaluation_of_unregistered (s : Text)
    (hfit : ∀ t ∈ (Reading.ofText s).matches, attributesFit t.attributeText = true) :
    ∃ ms, matchesOf (.text s) = .ok ms ∧
      (∀ m ∈ ms, m.escaped = true → s[m.start]? = some '\\') ∧
      ∀ {B σ : Type} (e : Engine B σ) (d : Driver) (st : σ),
        (∀ m ∈ ms, m.escaped = false → m.name ∉ e.registry.names) →
        let run := (e.textBy d s).run st
        run.outcome = .ok ⟨without (escapedStarts ms) s, ms⟩ ∧ run.state = st ∧
          e.calls d s st = [] ∧
          run.journal = (passingNotes s ms).map .note ∧
          ((∀ m ∈ ms, m.escaped = false) → run.outcome = .ok ⟨s, ms⟩) := by
  have h := Reading.leftmost_ofText s
  have hreads := readsFrom_placedFrom h (fun p hp => hfit p.2 (List.mem_map_of_mem hp)) []
  have hreadIn {m} (hm : m ∈ (placedFrom 0 (Reading.ofText s).pieces).map Prod.snd) :
      m.ReadIn s := (hreads.tags m hm).2
  refine ⟨_, matchesOf_eq_ok h hfit, fun m hm he => (hreadIn hm).getElem?_start he,
    fun e d st hnames => ?_⟩
  have hlook : ∀ m ∈ (placedFrom 0 (Reading.ofText s).pieces).map Prod.snd, m.escaped = false →
      e.registry.find? m.name = none := by
    intro m hm he
    have hname := hnames m hm he
    obtain ⟨t, ht, hmakes⟩ := hreadIn hm
    rw [hmakes.name] at hname ⊢
    simpa using mt (e.registry.isSome_find?_iff ht.isName_name).mp hname
  have heval := evaluate_eq_noting (matchesOfText_eq_ok hfit) hlook
  have htext := (without_escapedStarts h).symm
  rw [Reading.standing, ← flatMap_standing_placedFrom 0] at htext
  rw [htext] at heval
  rw [e.textBy_eq, Engine.calls, heval, Evaluation.run_noting, Evaluation.executions_noting]
  refine ⟨rfl, rfl, rfl, rfl, fun hnone => ?_⟩
  rw [without_of_not_escaped hnone]
  rfl

/-- A tag without a handler that holds an escaped tag and a tag with a handler, an escaped tag that
does, one with two backslashes before it, and an opening that is never ended. -/
theorem evaluation_of_unregistered_nested :
    let s := "x[@c k=1]\\[@a][@b][/@c]\\[@a]y[@b]\\[@b]z[/@a]\\\\[@b] [@c".toList
    (∀ t ∈ (Reading.ofText s).matches, attributesFit t.attributeText = true) ∧
      ∃ ms, matchesOf (.text s) = .ok ms ∧
        (∀ m ∈ ms, m.escaped = false → m.name ∉ (replyingEngine .null).registry.names) ∧
        ∀ d : Driver, ((((replyingEngine .null).textBy d s).run ()).outcome =
          .ok ⟨"x[@c k=1]\\[@a][@b][/@c][@a]y[@b]\\[@b]z[/@a]\\[@b] [@c".toList, ms⟩) := by
  intro s
  have hfit : ∀ t ∈ (Reading.ofText s).matches, attributesFit t.attributeText = true := by
    decide +kernel
  have hfound : let ms := (placedFrom 0 (Reading.ofText s).pieces).map Prod.snd
      (∀ m ∈ ms, m.escaped = false → m.name = ['c']) ∧ escapedStarts ms = [23, 45] := by
    decide +kernel
  obtain ⟨ms, hms, -, hrun⟩ := evaluation_of_unregistered s hfit
  obtain ⟨hc, hstarts⟩ : (∀ m ∈ ms, m.escaped = false → m.name = ['c']) ∧
      escapedStarts ms = [23, 45] := by
    have hread := matchesOf_eq_ok (Reading.leftmost_ofText s) hfit
    rwa [← Except.ok.inj (hms.symm.trans hread)] at hfound
  have hnames : ∀ m ∈ ms, m.escaped = false →
      m.name ∉ (replyingEngine .null).registry.names := by
    intro m hm he
    rw [hc m hm he]
    decide
  refine ⟨hfit, ms, hms, hnames, fun d => ?_⟩
  rw [(hrun (replyingEngine .null) d () hnames).1, hstarts]
  have htext : without [23, 45] s =
      "x[@c k=1]\\[@a][@b][/@c][@a]y[@b]\\[@b]z[/@a]\\[@b] [@c".toList := by decide +kernel
  rw [htext]

end TagTemplate
