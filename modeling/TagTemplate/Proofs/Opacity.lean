import TagTemplate.Proofs.Requests

/-!
# Results are never read for tags

Two evaluations of one text, with handlers under the same names, go the same way whatever the
results are (`Evaluation.Alike`) : they ask for calls with the same headings one after another, and
find the same tags. Only the texts that they put together differ. `alike_evaluate` is by induction
on the contents of tags, and holds because the text of a result is handed on and nothing else.

For two runs this means that the headings of their calls are the same as far as both go
(`inStep_drive`).
-/

namespace TagTemplate

variable {B B' σ σ' α α' β β' : Type}

/-- What tells a call apart from others, its content left out : the name its handler is registered
under, the attributes and the tag as written. -/
def Call.heading (c : Call B) : Text × Attributes × Text :=
  (c.spec.name, c.attributes, c.written)

/-- The headings of calls that were made. -/
def headings (xs : List (Execution B σ)) : List (Text × Attributes × Text) :=
  xs.map fun x => x.call.heading

/-! ## Evaluations that go the same way -/

/-- The evaluations take the same notes and ask for calls with the same headings, whatever results
they are given that can be spliced, and their ends are related by `R`. -/
inductive Evaluation.Alike (R : α → α' → Prop) : Evaluation B α → Evaluation B' α' → Prop
  | done {a : α} {a' : α'} (h : R a a') : Alike R (.done a) (.done a')
  | fail (f : Fault) : Alike R (.fail f) (.fail f)
  | note (n : Note) {e : Evaluation B α} {e' : Evaluation B' α'} (h : Alike R e e') :
    Alike R (.note n e) (.note n e')
  | call {c : Call B} {c' : Call B'} {resume : Value → Evaluation B α}
    {resume' : Value → Evaluation B' α'} (hc : c.heading = c'.heading)
    (h : ∀ v v' : Value, v.spliced?.isSome = true → v'.spliced?.isSome = true →
      Alike R (resume v) (resume' v')) :
    Alike R (.call c resume) (.call c' resume')

namespace Evaluation.Alike

variable {R : α → α' → Prop} {S : β → β' → Prop}

theorem bind {e : Evaluation B α} {e' : Evaluation B' α'} {next : α → Evaluation B β}
    {next' : α' → Evaluation B' β'} (he : e.Alike R e')
    (hnext : ∀ a a', R a a' → (next a).Alike S (next' a')) :
    (e.bind next).Alike S (e'.bind next') := by
  induction he with
  | done h => exact hnext _ _ h
  | fail f => exact .fail f
  | note n _ ih => exact .note n ih
  | call hc _ ih => exact .call hc ih

theorem map {e : Evaluation B α} {e' : Evaluation B' α'} (he : e.Alike R e') {f : α → β}
    {f' : α' → β'} (hf : ∀ a a', R a a' → S (f a) (f' a')) :
    (e.bind fun a => .done (f a)).Alike S (e'.bind fun a => .done (f' a)) :=
  he.bind fun a a' h => .done (hf a a' h)

end Evaluation.Alike

section Evaluate

variable {look : Text → Option (Spec B)} {look' : Text → Option (Spec B')}
  (hlook : ∀ name, (look name).map Spec.name = (look' name).map Spec.name)
include hlook

theorem alike_replaceTag {m : Match} (hcontent : (evaluate look m.content).Alike
      (fun r r' => r.found = r'.found) (evaluate look' m.content)) :
    (replaceTag look m).Alike (fun _ _ => True) (replaceTag look' m) := by
  cases he : m.escaped with
  | true =>
    rw [replaceTag_of_escaped he, replaceTag_of_escaped he]
    exact .done trivial
  | false =>
    have hname := hlook m.name
    cases h : look m.name with
    | none =>
      have h' : look' m.name = none := by simpa [h] using hname.symm
      rw [replaceTag_of_unknown he h, replaceTag_of_unknown he h']
      exact .note _ (.done trivial)
    | some spec =>
      obtain ⟨spec', h', hsame⟩ : ∃ spec', look' m.name = some spec' ∧ spec'.name = spec.name := by
        simpa [h] using hname.symm
      rw [replaceTag_of_known he h, replaceTag_of_known he h']
      -- The contents may differ from here on, but they are only handed to the handlers.
      refine hcontent.bind fun r r' _ => .call (by simp [Call.heading, hsame]) fun v v' hv hv' => ?_
      obtain ⟨t, ht⟩ := Option.isSome_iff_exists.mp hv
      obtain ⟨t', ht'⟩ := Option.isSome_iff_exists.mp hv'
      rw [Evaluation.splice_of_some ht, Evaluation.splice_of_some ht']
      exact .done trivial

theorem alike_replaceAll : ∀ pieces : List (Text × Match),
    (∀ p ∈ pieces, (evaluate look p.2.content).Alike (fun r r' => r.found = r'.found)
      (evaluate look' p.2.content)) →
    (replaceAll look pieces).Alike (fun _ _ => True) (replaceAll look' pieces)
  | [], _ => .done trivial
  | (gap, m) :: pieces, h => by
    have hrest := alike_replaceAll pieces fun p hp => h p (List.mem_cons_of_mem _ hp)
    rw [replaceAll, replaceAll]
    exact (alike_replaceTag hlook (h _ (List.mem_cons_self ..))).bind fun _ _ _ =>
      hrest.map fun _ _ _ => trivial

/-- With handlers under the same names a text is evaluated in the same way, and the same tags are
found in it. -/
theorem alike_evaluate (s : Text) :
    (evaluate look s).Alike (fun r r' => r.found = r'.found) (evaluate look' s) := by
  induction s using contentInduction with
  | step s ih =>
    rcases matchesOfText_cases s with hr | ⟨f, hr⟩
    · have hall := alike_replaceAll hlook (placedFrom 0 (Reading.ofText s).pieces) fun p hp => by
        obtain ⟨t, ht, hc⟩ := content_of_mem_placedFrom hp
        rw [hc]
        exact ih t ht
      rw [evaluate_of_ok look hr, evaluate_of_ok look' hr, noteFound, noteFound]
      split
      · exact hall.map fun _ _ _ => rfl
      · exact .note _ (hall.map fun _ _ _ => rfl)
    · rw [evaluate_of_error look hr, evaluate_of_error look' hr]
      exact .fail f

end Evaluate

/-! ## Two runs -/

/-- What two runs have in common that made the calls `xs` and `xs'` : the headings are the same as
far as both runs go, one that succeeds goes as far as the other, and if both succeed their results
are related. -/
structure InStep (R : α → α' → Prop) (xs : List (Execution B σ)) (r : Run σ α)
    (xs' : List (Execution B' σ')) (r' : Run σ' α') : Prop where
  comparable : headings xs <+: headings xs' ∨ headings xs' <+: headings xs
  left : ∀ a, r.outcome = .ok a → headings xs' <+: headings xs
  right : ∀ a', r'.outcome = .ok a' → headings xs <+: headings xs'
  related : ∀ a a', r.outcome = .ok a → r'.outcome = .ok a' → R a a'

namespace InStep

variable {R : α → α' → Prop} {xs : List (Execution B σ)} {r q : Run σ α}
  {xs' : List (Execution B' σ')} {r' q' : Run σ' α'}

theorem symm (h : InStep R xs r xs' r') : InStep (fun a' a => R a a') xs' r' xs r :=
  ⟨h.comparable.symm, h.right, h.left, fun a' a ha' ha => h.related a a' ha ha'⟩

/-- A run that failed goes as far as the other or less far. -/
theorem of_failed {f : Fault} (hr : r.outcome = .error f) (h : headings xs <+: headings xs') :
    InStep R xs r xs' r' := by
  have hno : ∀ a, r.outcome ≠ .ok a := fun a ha => by rw [hr] at ha; cases ha
  exact ⟨Or.inl h, fun a ha => absurd ha (hno a), fun _ _ => h, fun a _ ha => absurd ha (hno a)⟩

/-- One more call with the same heading before both. -/
theorem cons {x : Execution B σ} {x' : Execution B' σ'} (hx : x.call.heading = x'.call.heading)
    (hq : q.outcome = r.outcome) (hq' : q'.outcome = r'.outcome) (h : InStep R xs r xs' r') :
    InStep R (x :: xs) q (x' :: xs') q' := by
  have hleft : headings (x :: xs) = x'.call.heading :: headings xs := by simp [headings, hx]
  have hright : headings (x' :: xs') = x'.call.heading :: headings xs' := rfl
  obtain ⟨hcomparable, hl, hr, hrelated⟩ := h
  refine ⟨?_, ?_, ?_, ?_⟩
  all_goals simp only [hleft, hright, hq, hq', List.cons_prefix_cons, true_and]
  all_goals assumption

end InStep

/-- Driven in whatever way and from whatever states, evaluations that go the same way make runs
that are in step. -/
theorem inStep_drive {look : Text → Option (Spec B)} {look' : Text → Option (Spec B')}
    (answer : Call B → Process σ Value) (answer' : Call B' → Process σ' Value)
    {R : α → α' → Prop} {e : Evaluation B α} {e' : Evaluation B' α'} (h : e.Alike R e')
    (he : e.Proper look) (he' : e'.Proper look') (s : σ) (s' : σ') :
    InStep R (e.executions answer s) ((e.drive answer).run s) (e'.executions answer' s')
      ((e'.drive answer').run s') := by
  induction h generalizing s s' with
  | @done a a' h =>
    refine ⟨Or.inl (List.prefix_refl _), fun _ _ => List.prefix_refl _,
      fun _ _ => List.prefix_refl _, fun b b' hb hb' => ?_⟩
    obtain rfl : a = b := Except.ok.inj hb
    obtain rfl : a' = b' := Except.ok.inj hb'
    exact h
  | fail f => exact .of_failed rfl (List.prefix_refl _)
  | note n _ ih =>
    cases he with
    | note _ he =>
      cases he' with
      | note _ he' =>
        obtain ⟨hcomparable, hl, hr, hrelated⟩ := ih he he' s s'
        exact ⟨hcomparable, hl, hr, hrelated⟩
  | @call c c' resume resume' hc _ ih =>
    rcases driven_call_cases answer he s with ⟨⟨f, hf⟩, hxs⟩ | ⟨v, hv, hout, hxs⟩
    · -- The first run makes this call and fails.
      refine .of_failed hf ?_
      simp [hxs, headings, Evaluation.executions, hc]
    · rcases driven_call_cases answer' he' s' with ⟨⟨f, hf⟩, hxs'⟩ | ⟨v', hv', hout', hxs'⟩
      · refine InStep.symm (.of_failed hf ?_)
        simp [hxs, hxs', headings, hc]
      · rw [hxs, hxs']
        cases he with
        | call _ _ he =>
          cases he' with
          | call _ _ he' => exact .cons hc hout hout' (ih v v' hv hv' (he v) (he' v') _ _)

/-- The calls of two runs on one text, made by handlers under the same names, have the same headings
as far as both runs go, whatever the handlers do and whoever drives. If a run succeeds then the
headings of the other are among the first of its own; if both succeed the headings are the same,
and so are the tags that were found. -/
theorem headings_of_calls (e : Engine B σ) (e' : Engine B' σ')
    (hnames : ∀ name, name ∈ e.registry.names ↔ name ∈ e'.registry.names) (d d' : Driver)
    (source : Text) (s : σ) (s' : σ') :
    let xs := e.calls d source s
    let xs' := e'.calls d' source s'
    let r := (e.textBy d source).run s
    let r' := (e'.textBy d' source).run s'
    Made (d.answer e.perform) s xs r ∧ Made (d'.answer e'.perform) s' xs' r' ∧
      (headings xs <+: headings xs' ∨ headings xs' <+: headings xs) ∧
      (∀ done, r.outcome = .ok done → headings xs' <+: headings xs) ∧
      (∀ done', r'.outcome = .ok done' → headings xs <+: headings xs') ∧
      ∀ done done', r.outcome = .ok done → r'.outcome = .ok done' →
        headings xs = headings xs' ∧ done.found = done'.found := by
  intro xs xs' r r'
  have hlook := Registry.map_name_find?_congr hnames
  have hstep : InStep (fun a a' => a.found = a'.found) xs r xs' r' := by
    have := inStep_drive (d.answer e.perform) (d'.answer e'.perform) (alike_evaluate hlook source)
      (proper_evaluate _ source) (proper_evaluate _ source) s s'
    rwa [← e.textBy_eq, ← e'.textBy_eq] at this
  refine ⟨made_textBy e d source s, made_textBy e' d' source s', hstep.comparable, hstep.left,
    hstep.right, fun done done' h h' => ⟨?_, hstep.related done done' h h'⟩⟩
  exact (hstep.right done' h').eq_of_length_le (hstep.left done h).length_le

/-- An engine whose handlers `a` and `b` answer every call with `reply`. -/
def replyingEngine (reply : Value) : Engine Unit Unit where
  registry := ⟨none, [], [⟨['a'], .custom () .direct, false, false, []⟩,
    ⟨['b'], .custom () .direct, false, false, []⟩], false⟩
  settings := {}
  custom _ _ _ := .done reply

/-- Replies that hold an opening, a closer and a backslash, and replies without any, to tags inside
a tag and beside it. -/
theorem headings_of_calls_replying :
    (∀ name, name ∈ (replyingEngine (.ofString "[@b][/@a]\\[@a")).registry.names ↔
        name ∈ (replyingEngine (.int 7)).registry.names) ∧
      ∀ done done',
        (((replyingEngine (.ofString "[@b][/@a]\\[@a")).textBy .async
          "x[@a n=1][@b][@c][@b][/@c][/@a]][@b]".toList).run ()).outcome = .ok done →
        (((replyingEngine (.int 7)).textBy .sync
          "x[@a n=1][@b][@c][@b][/@c][/@a]][@b]".toList).run ()).outcome = .ok done' →
        headings ((replyingEngine (.ofString "[@b][/@a]\\[@a")).calls .async
            "x[@a n=1][@b][@c][@b][/@c][/@a]][@b]".toList ()) =
          headings ((replyingEngine (.int 7)).calls .sync
            "x[@a n=1][@b][@c][@b][/@c][/@a]][@b]".toList ()) ∧
        done.found = done'.found := by
  obtain ⟨-, -, -, -, -, hsame⟩ := headings_of_calls (replyingEngine (.ofString "[@b][/@a]\\[@a"))
    (replyingEngine (.int 7)) (fun _ => Iff.rfl) .async .sync
    "x[@a n=1][@b][@c][@b][/@c][/@a]][@b]".toList () ()
  exact ⟨fun _ => Iff.rfl, hsame⟩

end TagTemplate
