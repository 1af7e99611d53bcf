import TagTemplate.Journal

/-!
# Processes

A process is a run that has not been made yet : what it does next, as data. It may write to
the journal, read and change a shared state in one step, pause to let others run, and wait
for a condition on the state. `Process.andThen` continues a process whichever way it ends,
and `bind`, `rescue` and `keep` are its special cases. `Process.run` makes the run of a
process that is alone : pauses are passed over, and a wait whose condition does not hold
is refused, since nobody is there to make it hold.
-/

namespace TagTemplate

/-- A run over states `σ` that ends with an `α` or a fault. -/
inductive Process (σ α : Type) where
  /-- It is done. -/
  | done (result : α)
  /-- It fails. -/
  | fail (fault : Fault)
  /-- It writes to the journal and goes on. -/
  | emit (event : Event) (next : Process σ α)
  /-- It changes the state and goes on with the state as it was before. -/
  | act (change : σ → σ) (next : σ → Process σ α)
  /-- It lets others run and goes on. -/
  | pause (next : Process σ α)
  /-- It waits until a condition on the state holds; if that can never be, it is refused. -/
  | await (ready : σ → Bool) (granted refused : Process σ α)

/-- What a run ends with. -/
structure Run (σ α : Type) where
  /-- The result or the fault. -/
  outcome : Except Fault α
  /-- The state it leaves. -/
  state : σ
  /-- What happened. -/
  journal : Journal

namespace Process

variable {σ α β : Type}

/-- The process that goes on with `next` once `p` is done or has failed. -/
def andThen (p : Process σ α) (next : Except Fault α → Process σ β) : Process σ β :=
  match p with
  | done a => next (.ok a)
  | fail f => next (.error f)
  | emit e p => emit e (p.andThen next)
  | act change p => act change fun s => (p s).andThen next
  | pause p => pause (p.andThen next)
  | await ready granted refused =>
    await ready (granted.andThen next) (refused.andThen next)

/-- The process that does what an outcome says. -/
def ofExcept : Except Fault α → Process σ α
  | .ok a => done a
  | .error f => fail f

/-- The process that goes on with the result of `p`. -/
def bind (p : Process σ α) (next : α → Process σ β) : Process σ β :=
  p.andThen fun
    | .ok a => next a
    | .error f => fail f

instance : Monad (Process σ) where
  pure := done
  bind := bind

/-- The process with its fault replaced. -/
def mapFault (change : Fault → Fault) (p : Process σ α) : Process σ α :=
  p.andThen fun
    | .ok a => done a
    | .error f => fail (change f)

/-- The process of one entry of a tree : an ordinary fault is written to the journal and the
entry is dropped. -/
def keep (label : Text) (p : Process σ α) : Process σ (Option α) :=
  p.andThen fun
    | .ok a => done (some a)
    | .error f => if f.isOrdinary then emit (.dropped label f) (done none) else fail f

/-- The run of a process that is alone. -/
def run : Process σ α → σ → Run σ α
  | done a, s => ⟨.ok a, s, []⟩
  | fail f, s => ⟨.error f, s, []⟩
  | emit e p, s =>
    let r := p.run s
    { r with journal := e :: r.journal }
  | act change p, s => (p s).run (change s)
  | pause p, s => p.run s
  | await ready granted refused, s => if ready s then granted.run s else refused.run s

end Process

end TagTemplate
