import TagTemplate.Engine
import TagTemplate.Proofs.Replacement
import TagTemplate.Proofs.Runs

/-!
# How handlers hand over their results

An evaluation makes its calls one after another, whoever makes them. `Execution` is a handler's
body that was executed in a run, with the state it started in, and `Executed` says that the
bodies of a list are what a run executed, in order and each finished before the next started.

If the body of a handler does the same however its result is handed over
(`Engine.ModeBlind`), the asynchronous evaluation of a text is the synchronous one of the same
handlers made direct. The synchronous evaluation of the handlers as they are executes the same
bodies up to the first call whose result has to be awaited; that call is refused and its body is
not executed (`sync_cases`).
-/

namespace TagTemplate

variable {B σ α β : Type}

/-! ## The bodies that are executed -/

/-- A handler's body that was executed : for which call, from which state, and its run. -/
structure Execution (B σ : Type) where
  call : Call B
  before : σ
  run : Run σ Value

/-- What happened in a run apart from its notes. -/
def Journal.effects (j : Journal) : Journal :=
  j.filter fun
    | .note _ => false
    | _ => true

/-- What happened when a body was executed : it started, and did what it did. -/
def Execution.journal (x : Execution B σ) : Journal :=
  .called x.call.toRecord :: x.run.journal

/-- The bodies are executed one after another, from `s` to `t` : each starts in the state that the
one before it left. -/
inductive Sequential (perform : Call B → Process σ Value) : σ → List (Execution B σ) → σ → Prop
  | nil (s : σ) : Sequential perform s [] s
  | cons (c : Call B) (s : σ) {xs : List (Execution B σ)} {t : σ}
    (h : Sequential perform ((perform c).run s).state xs t) :
    Sequential perform s (⟨c, s, (perform c).run s⟩ :: xs) t

/-- A run from `s` executed the bodies `xs` and nothing else. -/
structure Executed (perform : Call B → Process σ Value) (s : σ) (xs : List (Execution B σ))
    (r : Run σ α) : Prop where
  /-- One body was finished before the next one started. -/
  sequential : Sequential perform s xs r.state
  /-- All that happened was in the bodies. -/
  effects : r.journal.effects = xs.flatMap fun x => x.journal.effects

/-- The bodies that are executed when every call is answered. -/
def Evaluation.executions (perform : Call B → Process σ Value) :
    Evaluation B α → σ → List (Execution B σ)
  | done _, _ => []
  | fail _, _ => []
  | note _ e, s => e.executions perform s
  | call c resume, s =>
    ⟨c, s, (perform c).run s⟩ ::
      match ((perform c).run s).outcome with
      | .ok v => (resume v).executions perform ((perform c).run s).state
      | .error _ => []

@[simp] theorem Journal.effects_append (i j : Journal) :
    (i ++ j).effects = i.effects ++ j.effects :=
  List.filter_append ..

@[simp] theorem Journal.effects_note (n : Note) (j : Journal) :
    Journal.effects (.note n :: j) = j.effects :=
  rfl

@[simp] theorem Journal.effects_called (c : CallRecord) (j : Journal) :
    Journal.effects (.called c :: j) = .called c :: j.effects :=
  rfl

section Drivers

variable (perform : Call B → Process σ Value)

/-- A run that executed the body of `c` from `s` first, and is noted before that. -/
def Run.afterBody (c : Call B) (s : σ) (r : Run σ α) : Run σ α :=
  { r with journal := .note (.calling c.spec.name c.written) :: .called c.toRecord ::
      (((perform c).run s).journal ++ r.journal) }

/-- An answered call : the body is executed, and its fault is reported with the tag or its result
goes on. -/
theorem run_drive_call {answer : Call B → Process σ Value} (c : Call B)
    (resume : Value → Evaluation B α) (s : σ)
    (h : (answer c).run s = (c.answerAsync perform).run s) :
    ((Evaluation.call c resume).drive answer).run s =
      Run.afterBody perform c s
        (match ((perform c).run s).outcome with
        | .ok v => ((resume v).drive answer).run ((perform c).run s).state
        | .error f =>
          ⟨.error (f.ofHandler c.spec.name c.written), ((perform c).run s).state, []⟩) := by
  rw [Evaluation.drive, Process.run_bind, h, Call.run_answerAsync, Call.run_bodyProcess]
  cases ho : ((perform c).run s).outcome <;>
    simp [Run.bind, Run.afterBody, Except.mapError]

theorem Executed.afterBody {c : Call B} {s : σ} {xs : List (Execution B σ)} {r : Run σ α}
    (h : Executed perform ((perform c).run s).state xs r) :
    Executed perform s (⟨c, s, (perform c).run s⟩ :: xs) (Run.afterBody perform c s r) := by
  refine ⟨.cons c s h.sequential, ?_⟩
  simp only [Run.afterBody, Journal.effects_note, Journal.effects_called, Journal.effects_append,
    h.effects, List.flatMap_cons, Execution.journal, List.cons_append]

/-- The driver that awaits executes the body of every call that is asked for. -/
theorem executed_async (e : Evaluation B α) (s : σ) :
    Executed perform s (e.executions perform s) ((e.drive (Call.answerAsync perform)).run s) := by
  induction e generalizing s with
  | done a => exact ⟨.nil s, rfl⟩
  | fail f => exact ⟨.nil s, rfl⟩
  | note n e ih =>
    obtain ⟨hseq, heff⟩ := ih s
    exact ⟨hseq, (Journal.effects_note ..).trans heff⟩
  | call c resume ih =>
    rw [run_drive_call perform c resume s rfl, Evaluation.executions]
    refine Executed.afterBody perform ?_
    cases ((perform c).run s).outcome with
    | error f => exact ⟨.nil _, rfl⟩
    | ok v => exact ih v _

/-- What the driver that does not await makes of an evaluation in which the bodies `xs` would be
executed by one that does. Either none of their results has to be awaited, and both runs are the
same; or the first that has to be is refused, and the bodies before it were executed. -/
def StopsAtAwaited (s : σ) (xs : List (Execution B σ)) (kept full : Run σ α) : Prop :=
  ((∀ x ∈ xs, x.call.spec.handler.isAwaited = false) ∧ kept = full) ∨
    ∃ before x rest, xs = before ++ x :: rest ∧
      (∀ y ∈ before, y.call.spec.handler.isAwaited = false) ∧
      x.call.spec.handler.isAwaited = true ∧
      kept.outcome = .error (.awaitableReturned x.call.spec.name) ∧
      Executed perform s before kept ∧ kept.journal <+: full.journal

theorem StopsAtAwaited.afterBody {c : Call B} {s : σ} {xs : List (Execution B σ)}
    {kept full : Run σ α} (hc : c.spec.handler.isAwaited = false)
    (h : StopsAtAwaited perform ((perform c).run s).state xs kept full) :
    StopsAtAwaited perform s (⟨c, s, (perform c).run s⟩ :: xs) (Run.afterBody perform c s kept)
      (Run.afterBody perform c s full) := by
  rcases h with ⟨hnone, rfl⟩ | ⟨before, x, rest, rfl, hb, hx, hout, hexec, hpre⟩
  · exact Or.inl ⟨List.forall_mem_cons.mpr ⟨hc, hnone⟩, rfl⟩
  · refine Or.inr ⟨⟨c, s, (perform c).run s⟩ :: before, x, rest, rfl,
      List.forall_mem_cons.mpr ⟨hc, hb⟩, hx, hout, hexec.afterBody, ?_⟩
    simpa [Run.afterBody] using hpre

theorem sync_cases (e : Evaluation B α) (s : σ) :
    StopsAtAwaited perform s (e.executions perform s)
      ((e.drive (Call.answerSync perform)).run s)
      ((e.drive (Call.answerAsync perform)).run s) := by
  induction e generalizing s with
  | done a => exact Or.inl ⟨by simp [Evaluation.executions], rfl⟩
  | fail f => exact Or.inl ⟨by simp [Evaluation.executions], rfl⟩
  | note n e ih =>
    rcases ih s with ⟨hnone, hrun⟩ | ⟨before, x, rest, hxs, hb, hx, hout, hexec, hpre⟩
    · exact Or.inl ⟨hnone, by simp only [Evaluation.drive, Process.run, hrun]⟩
    · exact Or.inr ⟨before, x, rest, hxs, hb, hx, hout,
        ⟨hexec.sequential, (Journal.effects_note ..).trans hexec.effects⟩,
        List.cons_prefix_cons.mpr ⟨rfl, hpre⟩⟩
  | call c resume ih =>
    rw [Evaluation.executions, run_drive_call perform c resume s rfl]
    cases hc : c.spec.handler.isAwaited with
    | true =>
      -- The first call is the one that is refused.
      rw [Evaluation.drive, Process.run_bind, Call.run_answerSync_of_isAwaited _ _ _ hc]
      refine Or.inr ⟨[], _, _, rfl, by simp, hc, rfl, ⟨.nil s, rfl⟩, ?_⟩
      simp [Run.bind, Run.afterBody]
    | false =>
      rw [run_drive_call perform c resume s (Call.run_answerSync perform c s hc)]
      refine StopsAtAwaited.afterBody perform hc ?_
      cases ((perform c).run s).outcome with
      | error f => exact Or.inl ⟨by simp, rfl⟩
      | ok v => exact ih v _

end Drivers

/-! ## Handlers made direct -/

namespace Evaluation

/-- The evaluation with other handlers for its calls. -/
def mapSpec (f : Spec B → Spec B) : Evaluation B α → Evaluation B α
  | done a => done a
  | fail g => fail g
  | note n e => note n (e.mapSpec f)
  | call c resume => call { c with spec := f c.spec } fun v => (resume v).mapSpec f

theorem mapSpec_bind (f : Spec B → Spec B) (e : Evaluation B α) (next : α → Evaluation B β) :
    (e.bind next).mapSpec f = (e.mapSpec f).bind fun a => (next a).mapSpec f := by
  induction e with
  | done a => rfl
  | fail g => rfl
  | note n e ih => simp only [mapSpec, note_bind, ih]
  | call c resume ih => simp only [mapSpec, call_bind, ih]

theorem mapSpec_splice (f : Spec B → Spec B) (v : Value) : (splice v).mapSpec f = splice v := by
  unfold splice
  split <;> rfl

theorem drive_mapSpec (f : Spec B → Spec B) (answer : Call B → Process σ Value)
    (e : Evaluation B α) :
    (e.mapSpec f).drive answer = e.drive fun c => answer { c with spec := f c.spec } := by
  induction e with
  | done a => rfl
  | fail g => rfl
  | note n e ih => simp only [mapSpec, drive, ih]
  | call c resume ih => simp only [mapSpec, drive, ih]

end Evaluation

theorem replaceAll_mapSpec (f : Spec B → Spec B) (look : Text → Option (Spec B)) :
    ∀ pieces : List (Text × Match),
      (∀ p ∈ pieces, evaluate (fun n => (look n).map f) p.2.content =
        (evaluate look p.2.content).mapSpec f) →
      replaceAll (fun n => (look n).map f) pieces = (replaceAll look pieces).mapSpec f
  | [], _ => rfl
  | (gap, m) :: rest, h => by
    have ih := replaceAll_mapSpec f look rest fun p hp => h p (List.mem_cons_of_mem _ hp)
    have htag : replaceTag (fun n => (look n).map f) m = (replaceTag look m).mapSpec f := by
      cases he : m.escaped with
      | true =>
        rw [replaceTag_of_escaped he, replaceTag_of_escaped he]
        rfl
      | false =>
        cases hlook : look m.name with
        | none =>
          rw [replaceTag_of_unknown he hlook, replaceTag_of_unknown he (by simp [hlook])]
          rfl
        | some spec =>
          have hmapped : (fun n => (look n).map f) m.name = some (f spec) := by simp [hlook]
          rw [replaceTag_of_known he hlook, replaceTag_of_known he hmapped,
            h (gap, m) (List.mem_cons_self ..), Evaluation.mapSpec_bind]
          simp only [Evaluation.mapSpec, Evaluation.mapSpec_splice]
    rw [replaceAll, replaceAll, htag, ih]
    simp only [Evaluation.mapSpec_bind, Evaluation.mapSpec]

/-- Other handlers under the same names are asked for in the same way. -/
theorem evaluate_mapSpec (f : Spec B → Spec B) (look : Text → Option (Spec B)) (source : Text) :
    evaluate (fun n => (look n).map f) source = (evaluate look source).mapSpec f := by
  induction source using contentInduction with
  | step s ih =>
    rcases matchesOfText_cases s with hr | ⟨g, hr⟩
    · have hall := replaceAll_mapSpec f look (placedFrom 0 (Reading.ofText s).pieces) fun p hp => by
        obtain ⟨t, ht, hc⟩ := content_of_mem_placedFrom hp
        rw [hc]
        exact ih t ht
      rw [evaluate_of_ok _ hr, evaluate_of_ok _ hr, hall, noteFound, noteFound]
      split <;> simp only [Evaluation.mapSpec_bind, Evaluation.mapSpec]
    · rw [evaluate_of_error _ hr, evaluate_of_error _ hr]
      rfl

/-- The handler that hands its result over directly. -/
def Handler.direct : Handler B → Handler B
  | builtin b => builtin b
  | custom body _ => custom body .direct

/-- The specification of the handler made direct. -/
def Spec.direct (spec : Spec B) : Spec B :=
  { spec with handler := spec.handler.direct }

/-- The registry with every handler made direct. -/
def Registry.direct (r : Registry B) : Registry B :=
  { r with specs := r.specs.map Spec.direct }

/-- The engine with every handler made direct. -/
def Engine.direct (e : Engine B σ) : Engine B σ :=
  { e with registry := e.registry.direct }

/-- The same execution, of the handler made direct. -/
def Execution.direct (x : Execution B σ) : Execution B σ :=
  { x with call := { x.call with spec := x.call.spec.direct } }

/-- The body of a handler does the same however its result is handed over. -/
def Engine.ModeBlind (e : Engine B σ) : Prop :=
  ∀ body mode args s, (e.custom body mode args).run s = (e.custom body .direct args).run s

theorem Handler.isAwaited_direct (h : Handler B) : h.direct.isAwaited = false := by
  cases h <;> rfl

theorem Handler.isBuiltin_direct (h : Handler B) : h.direct.isBuiltin = h.isBuiltin := by
  cases h <;> rfl

theorem Registry.find?_direct (r : Registry B) (name : Text) :
    r.direct.find? name = (r.find? name).map Spec.direct := by
  unfold find? direct
  induction r.specs with
  | nil => rfl
  | cons spec specs ih =>
    simp only [List.map_cons, findExact?, Spec.direct] at ih ⊢
    split
    · rfl
    · exact ih

namespace Engine

variable {e : Engine B σ}

theorem run_perform_direct (h : e.ModeBlind) (c : Call B) (s : σ) :
    (e.direct.perform { c with spec := c.spec.direct }).run s = (e.perform c).run s := by
  obtain ⟨args, name, handler, isAsync, builtin, description⟩ := c
  cases handler with
  | builtin b => cases b <;> rfl
  | custom body mode => exact (h body mode args s).symm

/-- A call is answered alike by the driver that awaits, and by the one that does not with the
handler made direct. -/
theorem run_answerSync_direct (h : e.ModeBlind) (c : Call B) (s : σ) :
    (Call.answerSync e.direct.perform { c with spec := c.spec.direct }).run s =
      (Call.answerAsync e.perform c).run s := by
  rw [Call.run_answerSync _ _ _ (Handler.isAwaited_direct _), Call.run_answerAsync,
    Call.run_answerAsync, Call.run_bodyProcess, Call.run_bodyProcess, run_perform_direct h]
  simp only [Call.toRecord, Spec.direct, Handler.isBuiltin_direct]

/-- The synchronous evaluation with the handlers made direct asks for what the evaluation with the
handlers as they are asks for. -/
theorem textSync_direct (e : Engine B σ) (source : Text) :
    e.direct.textSync source = (evaluate e.registry.find? source).drive fun c =>
      Call.answerSync e.direct.perform { c with spec := c.spec.direct } := by
  have hlook : e.direct.registry.find? = fun n => (e.registry.find? n).map Spec.direct :=
    funext (Registry.find?_direct e.registry)
  rw [textSync, evaluateSync, hlook, evaluate_mapSpec, Evaluation.drive_mapSpec]

theorem run_textSync_direct (h : e.ModeBlind) (source : Text) (s : σ) :
    (e.direct.textSync source).run s = (e.textAsync source).run s := by
  rw [textSync_direct]
  exact Evaluation.run_drive_congr (run_answerSync_direct h) _ s

end Engine

theorem Sequential.direct {e : Engine B σ} (h : e.ModeBlind) {s t : σ}
    {xs : List (Execution B σ)} (hs : Sequential e.perform s xs t) :
    Sequential e.direct.perform s (xs.map Execution.direct) t := by
  induction hs with
  | nil s => exact .nil s
  | @cons c s xs t _ ih =>
    have hrun := Engine.run_perform_direct h c s
    rw [List.map_cons, Execution.direct, ← hrun]
    rw [← hrun] at ih
    exact .cons _ s ih

theorem Executed.direct {e : Engine B σ} (h : e.ModeBlind) {s : σ} {xs : List (Execution B σ)}
    {r : Run σ α} (hx : Executed e.perform s xs r) :
    Executed e.direct.perform s (xs.map Execution.direct) r := by
  refine ⟨hx.sequential.direct h, ?_⟩
  rw [hx.effects, List.flatMap_map]
  simp only [Execution.journal, Execution.direct, Call.toRecord, Spec.direct,
    Handler.isBuiltin_direct]

/-- However handlers hand over their results, the asynchronous evaluation of a text ends like the
synchronous one of the handlers made direct : with the same outcome, state and journal, and both
execute the same bodies with the same arguments, one after another. The synchronous evaluation
of the handlers as they are ends in the same way if it meets no result that has to be awaited;
otherwise it executes the bodies before the first such call and refuses that one. -/
theorem evaluation_modes (e : Engine B σ) (h : e.ModeBlind) (source : Text) (s : σ) :
    (e.textAsync source).run s = (e.direct.textSync source).run s ∧
      ∃ bodies : List (Execution B σ),
        Executed e.perform s bodies ((e.textAsync source).run s) ∧
        Executed e.direct.perform s (bodies.map Execution.direct)
          ((e.direct.textSync source).run s) ∧
        StopsAtAwaited e.perform s bodies ((e.textSync source).run s)
          ((e.textAsync source).run s) := by
  have hexec : Executed e.perform s _ ((e.textAsync source).run s) := executed_async e.perform _ s
  have hrun := Engine.run_textSync_direct h source s
  exact ⟨hrun.symm, _, hexec, by rw [hrun]; exact hexec.direct h, sync_cases e.perform _ s⟩

/-- An engine whose handlers count how often they are called : `a` answers with the count so far
and its content, and `b` fails; the result of `a` has to be awaited. -/
def countingEngine : Engine Bool Nat where
  registry := ⟨none, [], [⟨['a'], .custom true .undeclared, false, false, []⟩,
    ⟨['b'], .custom false .direct, false, false, []⟩], false⟩
  settings := {}
  custom body _ args := .act (· + 1) fun n =>
    if body then .done (.tuple [.int n, .text args.content]) else .fail .bytesNotText

/-- A tag whose call is refused where nothing is awaited, and one with a body inside that fails. -/
theorem evaluation_modes_of_counting : countingEngine.ModeBlind ∧
    (countingEngine.textAsync "[@a]x[/@a][@a][@b][/@a]".toList).run 3 =
        (countingEngine.direct.textSync "[@a]x[/@a][@a][@b][/@a]".toList).run 3 ∧
      ∃ bodies : List (Execution Bool Nat),
        Executed countingEngine.perform 3 bodies
          ((countingEngine.textAsync "[@a]x[/@a][@a][@b][/@a]".toList).run 3) ∧
        Executed countingEngine.direct.perform 3 (bodies.map Execution.direct)
          ((countingEngine.direct.textSync "[@a]x[/@a][@a][@b][/@a]".toList).run 3) ∧
        StopsAtAwaited countingEngine.perform 3 bodies
          ((countingEngine.textSync "[@a]x[/@a][@a][@b][/@a]".toList).run 3)
          ((countingEngine.textAsync "[@a]x[/@a][@a][@b][/@a]".toList).run 3) := by
  have h : countingEngine.ModeBlind := fun _ _ _ _ => rfl
  exact ⟨h, evaluation_modes countingEngine h _ 3⟩

end TagTemplate
