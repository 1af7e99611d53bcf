import TagTemplate.Evaluation

/-!
# Runs of evaluations

What a process does when it is made of others, as equations between runs : `Process.run_emit` and
its like for a first step, `Process.run_andThen` for one after another and its cases
`Process.run_bind` and `Process.run_mapFault`, and `Call.run_answerAsync` and `Call.run_answerSync`
for the two ways of answering a call. `Evaluation.Yields` forgets the journal of a run that
succeeds, and is closed under going on (`Yields.bind`).
-/

namespace TagTemplate

variable {B σ α β : Type}

/-! ## Outcomes -/

theorem Except.bind_eq_ok_iff {ε α β : Type} {x : Except ε α} {next : α → Except ε β} {b : β} :
    x.bind next = .ok b ↔ ∃ a, x = .ok a ∧ next a = .ok b := by
  cases x with
  | error e => simp [Except.bind]
  | ok a => simp [Except.bind]

theorem Except.toOption_eq_some_iff {ε α : Type} {x : Except ε α} {a : α} :
    x.toOption = some a ↔ x = .ok a := by
  cases x <;> simp [Except.toOption]

/-! ## Runs one after another -/

/-- The run that goes on from a run, whichever way that ended. -/
def Run.andThen (r : Run σ α) (next : Except Fault α → σ → Run σ β) : Run σ β :=
  let r' := next r.outcome r.state
  { r' with journal := r.journal ++ r'.journal }

/-- The run that goes on with the result of a run, and from its state. -/
def Run.bind (r : Run σ α) (next : α → σ → Run σ β) : Run σ β :=
  match r.outcome with
  | .ok a =>
    let r' := next a r.state
    { r' with journal := r.journal ++ r'.journal }
  | .error f => ⟨.error f, r.state, r.journal⟩

namespace Process

section Step

variable (p : Process σ α) (s : σ)

@[simp] theorem run_done (a : α) : (done a : Process σ α).run s = ⟨.ok a, s, []⟩ :=
  rfl

@[simp] theorem run_fail (f : Fault) : (fail f : Process σ α).run s = ⟨.error f, s, []⟩ :=
  rfl

@[simp] theorem run_emit (e : Event) :
    (emit e p).run s = { p.run s with journal := e :: (p.run s).journal } :=
  rfl

@[simp] theorem run_act (change : σ → σ) (next : σ → Process σ α) :
    (act change next).run s = (next s).run (change s) :=
  rfl

@[simp] theorem run_pause : (pause p).run s = p.run s :=
  rfl

theorem run_await (ready : σ → Bool) (granted refused : Process σ α) :
    (await ready granted refused).run s = if ready s then granted.run s else refused.run s :=
  rfl

end Step

theorem run_andThen (p : Process σ α) (next : Except Fault α → Process σ β) (s : σ) :
    (p.andThen next).run s = (p.run s).andThen fun o t => (next o).run t := by
  induction p generalizing s with
  | done a => rfl
  | fail f => rfl
  | emit e p ih =>
    simp only [andThen, run_emit, ih]
    rfl
  | act change p ih => simp only [andThen, run_act, ih]
  | pause p ih => simp only [andThen, run_pause, ih]
  | await ready p q ihp ihq =>
    simp only [andThen, run_await, ihp, ihq]
    split <;> rfl

theorem run_bind (p : Process σ α) (next : α → Process σ β) (s : σ) :
    (p.bind next).run s = (p.run s).bind fun a t => (next a).run t := by
  rw [Process.bind, run_andThen, Run.andThen, Run.bind]
  cases (p.run s).outcome with
  | ok a => rfl
  | error f => simp

theorem run_mapFault (change : Fault → Fault) (p : Process σ α) (s : σ) :
    (p.mapFault change).run s = { p.run s with outcome := (p.run s).outcome.mapError change } := by
  rw [mapFault, run_andThen, Run.andThen]
  cases (p.run s).outcome with
  | ok a => exact congrArg (Run.mk _ _) (List.append_nil _)
  | error f => exact congrArg (Run.mk _ _) (List.append_nil _)

end Process

/-! ## Answers to calls -/

namespace Call

variable (perform : Call B → Process σ Value) (c : Call B) (s : σ)

theorem run_bodyProcess : (c.bodyProcess perform).run s =
    ⟨((perform c).run s).outcome.mapError (Fault.ofHandler c.spec.name c.written),
      ((perform c).run s).state, .called c.toRecord :: ((perform c).run s).journal⟩ := by
  simp only [bodyProcess, Process.run_emit, Process.run_mapFault]

theorem run_answerAsync : (c.answerAsync perform).run s =
    { (c.bodyProcess perform).run s with
      journal := .note (.calling c.spec.name c.written) ::
        ((c.bodyProcess perform).run s).journal } := by
  simp only [answerAsync, Process.run_emit]
  split <;> rfl

theorem run_answerSync (h : c.spec.handler.isAwaited = false) :
    (c.answerSync perform).run s = (c.answerAsync perform).run s := by
  simp [answerSync, answerAsync, h]

theorem run_answerSync_of_isAwaited (h : c.spec.handler.isAwaited = true) :
    (c.answerSync perform).run s =
      ⟨.error (.awaitableReturned c.spec.name), s, [.note (.calling c.spec.name c.written)]⟩ := by
  simp [answerSync, h]

end Call

/-! ## Evaluations that are driven -/

namespace Evaluation

/-- Evaluations run alike when every call is answered alike. -/
theorem run_drive_congr {answer answer' : Call B → Process σ Value}
    (h : ∀ c s, (answer c).run s = (answer' c).run s) (e : Evaluation B α) (s : σ) :
    (e.drive answer).run s = (e.drive answer').run s := by
  induction e generalizing s with
  | done a => rfl
  | fail f => rfl
  | note n e ih => simp only [drive, Process.run_emit, ih]
  | call c resume ih =>
    simp only [drive, Process.run_bind, h]
    congr 1
    funext v t
    exact ih v t

/-- Driven from the state `s`, the evaluation succeeds with `a` and leaves the state `t`. -/
structure Yields (answer : Call B → Process σ Value) (e : Evaluation B α) (s : σ) (a : α) (t : σ) :
    Prop where
  outcome : ((e.drive answer).run s).outcome = .ok a
  state : ((e.drive answer).run s).state = t

namespace Yields

variable {answer : Call B → Process σ Value} {s t u : σ} {a : α} {b : β}

theorem done (a : α) (s : σ) : (Evaluation.done a : Evaluation B α).Yields answer s a s :=
  ⟨rfl, rfl⟩

theorem note {n : Note} {e : Evaluation B α} (h : e.Yields answer s a t) :
    (Evaluation.note n e).Yields answer s a t :=
  ⟨h.outcome, h.state⟩

theorem call_iff {c : Call B} {resume : Value → Evaluation B α} :
    (Evaluation.call c resume).Yields answer s a t ↔ ∃ v,
      ((answer c).run s).outcome = .ok v ∧
        (resume v).Yields answer ((answer c).run s).state a t := by
  constructor
  · rintro ⟨ho, hs⟩
    simp only [drive, Process.run_bind, Run.bind] at ho hs
    cases hc : ((answer c).run s).outcome with
    | error f => rw [hc] at ho; cases ho
    | ok v =>
      simp only [hc] at ho hs
      exact ⟨v, rfl, ho, hs⟩
  · rintro ⟨v, hc, ho, hs⟩
    constructor
    · simpa only [drive, Process.run_bind, Run.bind, hc] using ho
    · simpa only [drive, Process.run_bind, Run.bind, hc] using hs

theorem bind {e : Evaluation B α} {next : α → Evaluation B β} (he : e.Yields answer s a t)
    (hnext : (next a).Yields answer t b u) : (e.bind next).Yields answer s b u := by
  induction e generalizing s with
  | done x =>
    obtain ⟨ho, rfl⟩ := he
    obtain rfl := Except.ok.inj ho
    exact hnext
  | fail f => cases he.outcome
  | note n e ih => exact note (ih ⟨he.outcome, he.state⟩)
  | call c resume ih =>
    obtain ⟨v, hc, hv⟩ := call_iff.mp he
    exact call_iff.mpr ⟨v, hc, ih v hv⟩

end Yields

end Evaluation

end TagTemplate
