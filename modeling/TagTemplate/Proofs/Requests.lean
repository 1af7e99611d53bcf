import TagTemplate.Proofs.Lookup
import TagTemplate.Proofs.Modes

/-!
# What an evaluation asks for

Whoever drives an evaluation of a text, three things hold of it (`Evaluation.Proper`) : it asks for
handlers that were found under a name and for no others, it ends as soon as a result cannot be
spliced into the text, and no fault of its own is an abort. `proper_evaluate` says so of every
text, and everything proved about drivers uses it in place of the text. It goes by the way in which
the evaluation of a text is put together (`kept_evaluate`), as other laws of evaluations can.

When a driver has answered a call, the evaluation fails there or goes on with the result
(`driven_call_cases`), whichever driver it is. If no answer is an abort, neither is what the
evaluation ends with (`contained_drive`).
-/

namespace TagTemplate

variable {B σ α β : Type}

/-! ## Two drivers -/

/-- The ways of driving an evaluation. -/
inductive Driver where
  /-- Nothing is awaited, and a result that has to be is refused. -/
  | sync
  /-- What has to be awaited is awaited. -/
  | async
deriving Repr, DecidableEq

/-- How a driver answers a call. -/
def Driver.answer (perform : Call B → Process σ Value) : Driver → Call B → Process σ Value
  | sync => Call.answerSync perform
  | async => Call.answerAsync perform

/-- The evaluation of a text with a driver. -/
def Engine.textBy (e : Engine B σ) : Driver → Text → Process σ Evaluated
  | .sync => e.textSync
  | .async => e.textAsync

theorem Engine.textBy_eq (e : Engine B σ) (d : Driver) (source : Text) :
    e.textBy d source = (evaluate e.registry.find? source).drive (d.answer e.perform) := by
  cases d <;> rfl

/-- Where the result of a handler does not have to be awaited, the drivers do the same. -/
theorem Driver.run_answer (d : Driver) (perform : Call B → Process σ Value) {c : Call B}
    (h : c.spec.handler.isAwaited = false) (s : σ) :
    (d.answer perform c).run s = (c.answerAsync perform).run s := by
  cases d with
  | sync => exact Call.run_answerSync perform c s h
  | async => rfl

/-! ## The calls of a run -/

/-- A run from `s` made the calls `xs`, each answered before the next one was made, and apart from
its notes nothing happened but in the answers. -/
structure Made (answer : Call B → Process σ Value) (s : σ) (xs : List (Execution B σ))
    (r : Run σ α) : Prop where
  sequential : Sequential answer s xs r.state
  effects : r.journal.effects = xs.flatMap fun x => x.run.journal.effects

/-- The calls that the evaluation of a text makes itself, each with its answer. Calls that are made
inside a handler's body belong to the answer. -/
def Engine.calls (e : Engine B σ) (d : Driver) (source : Text) (s : σ) : List (Execution B σ) :=
  (evaluate e.registry.find? source).executions (d.answer e.perform) s

theorem made_drive (answer : Call B → Process σ Value) (e : Evaluation B α) (s : σ) :
    Made answer s (e.executions answer s) ((e.drive answer).run s) := by
  induction e generalizing s with
  | done a => exact ⟨.nil s, rfl⟩
  | fail f => exact ⟨.nil s, rfl⟩
  | note n e ih => exact ⟨(ih s).sequential, (Journal.effects_note ..).trans (ih s).effects⟩
  | call c resume ih =>
    rw [Evaluation.drive, Evaluation.executions, Process.run_bind, Run.bind]
    cases ho : ((answer c).run s).outcome with
    | error f => exact ⟨.cons c s (.nil _), (List.append_nil _).symm⟩
    | ok v =>
      obtain ⟨hseq, heff⟩ := ih v ((answer c).run s).state
      refine ⟨.cons c s hseq, ?_⟩
      rw [Journal.effects_append, heff, List.flatMap_cons]

theorem made_textBy (e : Engine B σ) (d : Driver) (source : Text) (s : σ) :
    Made (d.answer e.perform) s (e.calls d source s) ((e.textBy d source).run s) := by
  rw [e.textBy_eq]
  exact made_drive _ _ s

/-! ## What evaluations are put together with -/

/-- `Q` is kept by everything that the evaluation of a text is put together with, where `look` finds
the handlers. -/
structure Evaluation.Keeps (look : Text → Option (Spec B))
    (Q : (α : Type) → Evaluation B α → Prop) : Prop where
  done : ∀ {α : Type} (a : α), Q α (.done a)
  fail : ∀ {α : Type} (digits : Nat), Q α (.fail (.numeralTooLong digits))
  note : ∀ {α : Type} (n : Note) {e : Evaluation B α}, Q α e → Q α (.note n e)
  call : ∀ {c : Call B}, (∃ name, look name = some c.spec) → Q Text (.call c .splice)
  bind : ∀ {α β : Type} {e : Evaluation B α} {next : α → Evaluation B β}, Q α e →
    (∀ a, Q β (next a)) → Q β (e.bind next)

section Keeps

variable {look : Text → Option (Spec B)} {Q : (α : Type) → Evaluation B α → Prop}
  (hQ : Evaluation.Keeps look Q)

include hQ

theorem kept_replaceTag {m : Match} (h : Q Evaluated (evaluate look m.content)) :
    Q Text (replaceTag look m) := by
  cases he : m.escaped with
  | true => rw [replaceTag_of_escaped he]; exact hQ.done _
  | false =>
    cases hlook : look m.name with
    | none => rw [replaceTag_of_unknown he hlook]; exact hQ.note _ (hQ.done _)
    | some spec =>
      rw [replaceTag_of_known he hlook]
      exact hQ.bind h fun inside => hQ.call ⟨m.name, hlook⟩

theorem kept_replaceAll : ∀ pieces : List (Text × Match),
    (∀ p ∈ pieces, Q Evaluated (evaluate look p.2.content)) → Q Text (replaceAll look pieces)
  | [], _ => hQ.done _
  | (gap, m) :: pieces, h => by
    have hrest := kept_replaceAll pieces fun p hp => h p (List.mem_cons_of_mem _ hp)
    rw [replaceAll]
    exact hQ.bind (kept_replaceTag hQ (h _ (List.mem_cons_self ..))) fun replaced =>
      hQ.bind hrest fun text => hQ.done _

/-- So it holds of the evaluation of every text. -/
theorem kept_evaluate (s : Text) : Q Evaluated (evaluate look s) := by
  induction s using contentInduction with
  | step s ih =>
    rcases matchesOfText_cases s with hr | ⟨f, hr⟩
    · have hall := kept_replaceAll hQ (placedFrom 0 (Reading.ofText s).pieces) fun p hp => by
        obtain ⟨t, ht, hc⟩ := content_of_mem_placedFrom hp
        rw [hc]
        exact ih t ht
      rw [evaluate_of_ok look hr, noteFound]
      split
      · exact hQ.bind hall fun text => hQ.done _
      · exact hQ.note _ (hQ.bind hall fun text => hQ.done _)
    · obtain ⟨digits, rfl⟩ := exists_of_matchesOfText_eq_error hr
      rw [evaluate_of_error look hr]
      exact hQ.fail digits

end Keeps

/-! ## Proper evaluations -/

namespace Evaluation

/-- Of an evaluation with the handlers that `look` finds : every call is of one of them, a result
that cannot be spliced ends it, and its own faults are ordinary. -/
inductive Proper (look : Text → Option (Spec B)) : Evaluation B α → Prop
  | done (a : α) : Proper look (.done a)
  | fail {f : Fault} (h : f.isOrdinary = true) : Proper look (.fail f)
  | note (n : Note) {e : Evaluation B α} (h : Proper look e) : Proper look (.note n e)
  | call {c : Call B} {resume : Value → Evaluation B α} (hname : ∃ name, look name = some c.spec)
    (hstop : ∀ v : Value, v.spliced? = none → resume v = .fail .integerTooLong)
    (h : ∀ v, Proper look (resume v)) : Proper look (.call c resume)

variable {look : Text → Option (Spec B)}

theorem Proper.bind {e : Evaluation B α} {next : α → Evaluation B β} (he : e.Proper look)
    (hnext : ∀ a, (next a).Proper look) : (e.bind next).Proper look := by
  induction he with
  | done a => exact hnext a
  | fail h => exact .fail h
  | note n _ ih => exact .note n ih
  | call hname hstop _ ih =>
    exact .call hname (fun v hv => by rw [hstop v hv]; rfl) ih

theorem splice_of_none {v : Value} (h : v.spliced? = none) :
    (splice v : Evaluation B Text) = .fail .integerTooLong := by
  rw [splice, h]

theorem splice_of_some {v : Value} {t : Text} (h : v.spliced? = some t) :
    (splice v : Evaluation B Text) = .done t := by
  rw [splice, h]

theorem proper_splice (v : Value) : (splice v : Evaluation B Text).Proper look := by
  cases h : v.spliced? with
  | none => rw [splice_of_none h]; exact .fail rfl
  | some t => rw [splice_of_some h]; exact .done t

end Evaluation

/-- Evaluations of texts are proper. -/
theorem keeps_proper (look : Text → Option (Spec B)) :
    Evaluation.Keeps look fun _ e => e.Proper look where
  done := .done
  fail _ := .fail rfl
  note n _ h := .note n h
  call hname := .call hname (fun _ => Evaluation.splice_of_none) Evaluation.proper_splice
  bind he hnext := he.bind hnext

theorem proper_evaluate (look : Text → Option (Spec B)) (s : Text) :
    (evaluate look s).Proper look :=
  kept_evaluate (keeps_proper look) s

/-- Proper evaluations run alike when the calls of handlers that were found are answered alike. -/
theorem run_drive_eq_of_proper {look : Text → Option (Spec B)}
    {answer answer' : Call B → Process σ Value} {e : Evaluation B α} (he : e.Proper look)
    (h : ∀ c : Call B, (∃ name, look name = some c.spec) → ∀ s,
      (answer c).run s = (answer' c).run s) (s : σ) :
    (e.drive answer).run s = (e.drive answer').run s := by
  induction he generalizing s with
  | done a => rfl
  | fail _ => rfl
  | note n _ ih => simp only [Evaluation.drive, Process.run, ih]
  | call hname _ _ ih =>
    simp only [Evaluation.drive, Process.run_bind, h _ hname]
    congr 1
    funext v t
    exact ih v t

/-- If no handler has a result that has to be awaited, the drivers do the same. -/
theorem Engine.run_textBy {e : Engine B σ}
    (h : ∀ spec ∈ e.registry.specs, spec.handler.isAwaited = false) (d : Driver) (source : Text)
    (s : σ) : (e.textBy d source).run s = (e.textAsync source).run s := by
  rw [e.textBy_eq]
  refine run_drive_eq_of_proper (proper_evaluate _ source) (fun c hname t => ?_) s
  obtain ⟨name, hname⟩ := hname
  exact d.run_answer e.perform (h _ (Registry.mem_of_find? hname)) t

/-! ## One call of a driven evaluation -/

/-- After a call is answered, either the evaluation fails and makes no other call, or the result
can be spliced and the evaluation goes on with it. -/
theorem driven_call_cases {look : Text → Option (Spec B)} (answer : Call B → Process σ Value)
    {c : Call B} {resume : Value → Evaluation B α} (h : (Evaluation.call c resume).Proper look)
    (s : σ) :
    ((∃ f, (((Evaluation.call c resume).drive answer).run s).outcome = .error f) ∧
        (Evaluation.call c resume).executions answer s = [⟨c, s, (answer c).run s⟩]) ∨
      ∃ v, v.spliced?.isSome = true ∧
        (((Evaluation.call c resume).drive answer).run s).outcome =
          (((resume v).drive answer).run ((answer c).run s).state).outcome ∧
        (Evaluation.call c resume).executions answer s =
          ⟨c, s, (answer c).run s⟩ :: (resume v).executions answer ((answer c).run s).state := by
  rw [Evaluation.drive, Evaluation.executions, Process.run_bind, Run.bind]
  cases ho : ((answer c).run s).outcome with
  | error f => exact Or.inl ⟨⟨f, rfl⟩, rfl⟩
  | ok v =>
    cases hv : v.spliced? with
    | none =>
      cases h with
      | call _ hstop _ =>
        simp only [hstop v hv]
        exact Or.inl ⟨⟨_, rfl⟩, rfl⟩
    | some t => exact Or.inr ⟨v, by simp [hv], rfl, rfl⟩

/-! ## Faults that a boundary contains -/

/-- A run ended so that a boundary contains it : with a result, or with an ordinary fault. -/
def Contained (o : Except Fault α) : Prop :=
  ∀ f, o = .error f → f.isOrdinary = true

theorem contained_ok (a : α) : Contained (.ok a) :=
  fun _ h => by cases h

theorem contained_error {f : Fault} (h : f.isOrdinary = true) :
    Contained (.error f : Except Fault α) :=
  fun _ hg => by cases hg; exact h

/-- What is raised in the place of a wording is an ordinary fault with a wording. -/
theorem Fault.eq_raised_of_wording {f failure : Fault} (h : f.wording = .error failure) :
    ∃ kind text, kind ≠ .abort ∧ failure = .raised kind text := by
  induction f with
  | unworded _ kind text =>
    cases h
    exact ⟨kind.val, text, kind.property, rfl⟩
  | handler name written cause ih =>
    cases hc : cause.wording with
    | error g =>
      rw [Fault.wording, hc] at h
      exact ih (hc.trans (congrArg _ (Except.error.inj h)))
    | ok text => rw [Fault.wording, hc] at h; cases h
  | reported name written detail => cases detail <;> cases h
  | _ => cases h

/-- A handler's fault is reported together with the tag, or what is raised in the place of its
wording surfaces, or the fault itself. -/
theorem Fault.ofHandler_cases (name written : Text) (f : Fault) :
    (f.isOrdinary = true ∧ f.namesHandler = false ∧ (∃ text, f.wording = .ok text) ∧
        f.ofHandler name written = .handler name written f) ∨
      (f.isOrdinary = true ∧ f.namesHandler = false ∧
        f.wording = .error (f.ofHandler name written)) ∨
      ((f.namesHandler = true ∨ f.isOrdinary = false) ∧ f.ofHandler name written = f) := by
  unfold Fault.ofHandler
  split
  next h =>
    rw [Bool.and_eq_true, Bool.not_eq_true'] at h
    cases hw : f.wording with
    | ok text => exact .inl ⟨h.1, h.2, ⟨text, rfl⟩, rfl⟩
    | error failure => exact .inr (.inl ⟨h.1, h.2, rfl⟩)
  next h =>
    refine .inr (.inr ⟨?_, rfl⟩)
    cases hn : f.namesHandler with
    | true => exact .inl rfl
    | false => exact .inr (by simpa [hn] using h)

theorem Fault.ofHandler_of_isReportable {f : Fault} (h : f.isReportable = true)
    (name written : Text) : f.ofHandler name written = .handler name written f := by
  simp only [Fault.isReportable, Bool.and_eq_true, Bool.not_eq_true'] at h
  rcases f.ofHandler_cases name written with ⟨-, -, -, hf⟩ | ⟨-, -, hw⟩ | ⟨hn | ho, -⟩
  · exact hf
  · rw [hw] at h; cases h.2
  · rw [hn] at h; cases h.1.2
  · rw [ho] at h; cases h.1.1

theorem Fault.wording_of_isReportable {f : Fault} (h : f.isReportable = true) :
    ∃ text, f.wording = .ok text := by
  simp only [Fault.isReportable, Bool.and_eq_true] at h
  cases hw : f.wording with
  | ok text => exact ⟨text, rfl⟩
  | error failure => rw [hw] at h; cases h.2

theorem Fault.isOrdinary_ofHandler {f : Fault} (name written : Text) (h : f.isOrdinary = true) :
    (f.ofHandler name written).isOrdinary = true := by
  rcases f.ofHandler_cases name written with ⟨-, -, -, hf⟩ | ⟨-, -, hw⟩ | ⟨-, hf⟩
  · rw [hf]; rfl
  · obtain ⟨kind, text, hkind, hf⟩ := Fault.eq_raised_of_wording hw
    rw [hf]
    exact bne_iff_ne.mpr hkind
  · rw [hf]; exact h

/-- The engine's own handlers fail only where the time source does. -/
theorem Engine.isReportable_of_own {e : Engine B σ} {b : Builtin} {f : Fault}
    (h : e.own b = .error f) : f.isReportable = true := by
  have hnow (format : Text) (h : (e.settings.time.now format).map Value.text = .error f) :
      f.isReportable = true := by
    cases hn : e.settings.time.now format with
    | ok text => rw [hn] at h; cases h
    | error g =>
      rw [hn] at h
      obtain rfl := Except.error.inj h
      exact e.settings.time.isReportable_of_now hn
  cases b with
  | cwd => cases h
  | date => exact hnow _ h
  | time => exact hnow _ h

theorem Engine.contained_own (e : Engine B σ) (b : Builtin) : Contained (e.own b) := by
  intro f h
  have hf := e.isReportable_of_own h
  simp only [Fault.isReportable, Bool.and_eq_true] at hf
  exact hf.1.1

theorem contained_drive {look : Text → Option (Spec B)} {answer : Call B → Process σ Value}
    {e : Evaluation B α} (he : e.Proper look)
    (h : ∀ c : Call B, (∃ name, look name = some c.spec) → ∀ s,
      Contained ((answer c).run s).outcome) (s : σ) :
    Contained ((e.drive answer).run s).outcome := by
  induction he generalizing s with
  | done a => exact contained_ok a
  | fail hf => exact contained_error hf
  | note n _ ih => exact ih s
  | @call c resume hname _ _ ih =>
    have hc := h c hname s
    rw [Evaluation.drive, Process.run_bind, Run.bind]
    cases ho : ((answer c).run s).outcome with
    | ok v => exact ih v _
    | error f => exact contained_error (hc f ho)

end TagTemplate
