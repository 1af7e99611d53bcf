import TagTemplate.Evaluation
import TagTemplate.Proofs.Leftmost

/-!
# Evaluation, tag by tag

`evaluate` recurses under a bound on the length of contents, which only its termination needs.
Here it is put into the form in which everything about it is proved : a tag is replaced
(`replaceTag`), then the tags after it (`replaceAll`), and a text is its tags replaced with the
gaps kept (`evaluate_of_ok`). `replaceReading` does the same for a reading whose attributes are
not read yet, which is where the laws of readings carry over to evaluations
(`replaceReading_after`, `replaceReading_cons`). Inductions over nested contents go through
`contentInduction`.
-/

namespace TagTemplate

variable {B α β γ : Type}

namespace Evaluation

@[simp] theorem done_bind (a : α) (next : α → Evaluation B β) : (done a).bind next = next a :=
  rfl

@[simp] theorem note_bind (n : Note) (e : Evaluation B α) (next : α → Evaluation B β) :
    (note n e).bind next = note n (e.bind next) :=
  rfl

@[simp] theorem call_bind (c : Call B) (resume : Value → Evaluation B α)
    (next : α → Evaluation B β) :
    (call c resume).bind next = call c fun v => (resume v).bind next :=
  rfl

theorem bind_assoc (e : Evaluation B α) (f : α → Evaluation B β) (g : β → Evaluation B γ) :
    (e.bind f).bind g = e.bind fun a => (f a).bind g := by
  induction e with
  | done a => rfl
  | fail f => rfl
  | note n e ih => rw [note_bind, note_bind, note_bind, ih]
  | call c resume ih =>
    rw [call_bind, call_bind, call_bind]
    exact congrArg _ (funext ih)

end Evaluation

variable (look : Text → Option (Spec B))

/-- The evaluation of a tag : what takes its place. -/
def replaceTag (m : Match) : Evaluation B Text :=
  if m.escaped then .done (m.written.drop 1)
  else match look m.name with
    | none => .note (.unknown m.name) (.done m.written)
    | some spec =>
      (evaluate look m.content).bind fun inside =>
        .call ⟨⟨inside.text, m.attributes, m.written⟩, spec⟩ Evaluation.splice

section ReplaceTag

variable {look} {m : Match}

theorem replaceTag_of_escaped (h : m.escaped = true) :
    replaceTag look m = .done (m.written.drop 1) := by
  rw [replaceTag, if_pos h]

theorem replaceTag_of_unknown (h : m.escaped = false) (hlook : look m.name = none) :
    replaceTag look m = .note (.unknown m.name) (.done m.written) := by
  rw [replaceTag, if_neg (by simp [h]), hlook]

theorem replaceTag_of_known {spec : Spec B} (h : m.escaped = false)
    (hlook : look m.name = some spec) :
    replaceTag look m = (evaluate look m.content).bind fun inside =>
      .call ⟨⟨inside.text, m.attributes, m.written⟩, spec⟩ Evaluation.splice := by
  rw [replaceTag, if_neg (by simp [h]), hlook]

end ReplaceTag

/-- The evaluation of tags with the gaps before them. -/
def replaceAll : List (Text × Match) → Evaluation B Text
  | [] => .done []
  | (gap, m) :: rest =>
    (replaceTag look m).bind fun replaced =>
      (replaceAll rest).bind fun text => .done (gap ++ replaced ++ text)

/-- The note on how many tags a text has, if it has any. -/
def noteFound (source : Text) (r : Reading Match) (e : Evaluation B α) : Evaluation B α :=
  if r.pieces.isEmpty then e else .note (.found r.pieces.length source.length) e

theorem evaluate_nil : evaluate look [] = .done ⟨[], []⟩ := by
  have h : Reading.matchesOfText [] = .ok ⟨[], []⟩ := by
    rw [matchesOfText_eq_ok] <;> simp [Reading.ofText_nil, Reading.matches, placedFrom]
  rw [evaluate]
  split
  next h' => rw [h] at h'; cases h'
  next reading h' =>
    obtain rfl := Except.ok.inj (h.symm.trans h')
    simp [evaluatePieces, Reading.matches]

theorem evaluatePieces_eq_replaceAll {bound : Nat} :
    ∀ (pieces : List (Text × Match)) (h : ∀ p ∈ pieces, p.2.content.length < bound),
      evaluatePieces look bound pieces h = replaceAll look pieces
  | [], _ => by rw [evaluatePieces, replaceAll]
  | (gap, m) :: rest, h => by
    have ih := evaluatePieces_eq_replaceAll rest fun p hp => h p (List.mem_cons_of_mem _ hp)
    rw [evaluatePieces, replaceAll]
    cases he : m.escaped with
    | true => simp [replaceTag_of_escaped he, ih]
    | false =>
      cases hlook : look m.name with
      | none => simp [replaceTag_of_unknown he hlook, ih]
      | some spec =>
        -- An empty content is not evaluated, which makes no difference.
        have hinner : (if m.content.isEmpty then .done []
            else (evaluate look m.content).bind fun r => .done r.text) =
            (evaluate look m.content).bind fun r => (.done r.text : Evaluation B Text) := by
          split
          next hempty => rw [List.isEmpty_iff.mp hempty, evaluate_nil]; rfl
          next => rfl
        simp only [hinner, replaceTag_of_known he hlook, ih]
        simp [Evaluation.bind_assoc]

theorem evaluate_of_ok {source : Text} {r : Reading Match}
    (h : Reading.matchesOfText source = .ok r) :
    evaluate look source = noteFound source r
      ((replaceAll look r.pieces).bind fun text => .done ⟨text ++ r.tail, r.matches⟩) := by
  rw [evaluate]
  split
  next h' => rw [h] at h'; cases h'
  next reading h' =>
    obtain rfl := Except.ok.inj (h.symm.trans h')
    simp only [evaluatePieces_eq_replaceAll, noteFound]

theorem evaluate_of_error {source : Text} {f : Fault}
    (h : Reading.matchesOfText source = .error f) : evaluate look source = .fail f := by
  rw [evaluate]
  split
  next h' => obtain rfl := Except.error.inj (h.symm.trans h'); rfl
  next h' => rw [h] at h'; cases h'

/-! ## Readings -/

/-- Where tags stand makes no difference to what takes their places. -/
theorem replaceAll_placedFrom (n k : Nat) : ∀ tags : List (Text × Tag),
    replaceAll look (placedFrom n tags) = replaceAll look (placedFrom k tags)
  | [] => rfl
  | (gap, t) :: tags => by
    have htag : replaceTag look (t.placedAt (n + gap.length)) =
        replaceTag look (t.placedAt (k + gap.length)) := rfl
    rw [placedFrom, placedFrom, replaceAll, replaceAll, htag, replaceAll_placedFrom _ _ tags]

/-- The evaluation of a text that was read. -/
def replaceReading (r : Reading Tag) : Evaluation B Text :=
  (replaceAll look (placedFrom 0 r.pieces)).bind fun text => .done (text ++ r.tail)

theorem replaceReading_after (gap : Text) (r : Reading Tag) :
    replaceReading look (r.after gap) =
      (replaceReading look r).bind fun text => .done (gap ++ text) := by
  obtain ⟨_ | ⟨⟨g, t⟩, tags⟩, tail⟩ := r
  · simp [replaceReading, Reading.after, placedFrom, replaceAll]
  · have htag : ∀ n, replaceTag look (t.placedAt n) = replaceTag look (t.placedAt 0) :=
      fun _ => rfl
    simp only [replaceReading, Reading.after, placedFrom, replaceAll, Evaluation.bind_assoc,
      Evaluation.done_bind, htag, replaceAll_placedFrom look _ 0 tags, List.append_assoc]

theorem replaceReading_cons (t : Tag) (r : Reading Tag) :
    replaceReading look ⟨([], t) :: r.pieces, r.tail⟩ =
      (replaceTag look (t.placedAt 0)).bind fun replaced =>
        (replaceReading look r).bind fun text => .done (replaced ++ text) := by
  simp only [replaceReading, placedFrom, replaceAll, Evaluation.bind_assoc, Evaluation.done_bind,
    replaceAll_placedFrom look _ 0 r.pieces, List.nil_append, List.append_assoc, List.length_nil]

/-- A text is evaluated by its reading, if the attributes fit at every tag. -/
theorem evaluate_eq_replaceReading {source : Text} {r : Reading Tag}
    (h : Reading.Leftmost source r) (hfit : ∀ t ∈ r.matches, attributesFit t.attributeText = true) :
    evaluate look source = noteFound source ⟨placedFrom 0 r.pieces, r.tail⟩
      ((replaceReading look r).bind fun text =>
        .done ⟨text, (placedFrom 0 r.pieces).map Prod.snd⟩) := by
  obtain rfl := h.eq_ofText
  rw [evaluate_of_ok look (matchesOfText_eq_ok hfit), replaceReading, Evaluation.bind_assoc]
  rfl

/-- What holds of a text whenever it holds of the contents of its tags holds of every text. -/
theorem contentInduction {P : Text → Prop}
    (step : ∀ s, (∀ t ∈ (Reading.ofText s).matches, P t.content) → P s) (s : Text) : P s := by
  induction hn : s.length using Nat.strongRecOn generalizing s with
  | _ n ih =>
    subst hn
    refine step s fun t ht => ?_
    obtain ⟨p, hp, rfl⟩ := List.mem_map.mp ht
    exact ih _ (Reading.length_content_of_mem_scan hp) p.2.content rfl

end TagTemplate
