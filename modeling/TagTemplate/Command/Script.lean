import TagTemplate.File.Store
import TagTemplate.Journal

/-!
# Scripts

A script is a run of the command line that has not been made yet : what it prints, what it
asks of the files, and how it ends, as data. `Script.runIn` makes the run on a `FileStore`.
A script changes files only where it says so, with `makeDirectories` and `write`; one that
prepares a run does not write (`Script.Prepares`).
-/

namespace TagTemplate

/-- How a run ends. -/
inductive Ending where
  /-- With an exit status. -/
  | exit (status : Nat)
  /-- With a fault that nothing contains. -/
  | fault (f : Fault)
  /-- With a failed operation on a path that nothing contains. -/
  | fileFault (f : FileFault)
deriving Repr, DecidableEq

/-- The two streams a run prints to. -/
inductive Stream where
  /-- For results. -/
  | output
  /-- For errors. -/
  | error
deriving Repr, DecidableEq

/-- A run of the command line that ends or gives an `α`. -/
inductive Script (α : Type) where
  /-- It gives a result. -/
  | done (result : α)
  /-- It ends. -/
  | stop (ending : Ending)
  /-- It writes to the journal and goes on. -/
  | emit (event : Event) (next : Script α)
  /-- It prints a text and goes on. -/
  | print (stream : Stream) (text : Text) (next : Script α)
  /-- It asks what a path is. -/
  | kind (path : Path) (next : Except FileFault (Option FileKind) → Script α)
  /-- It asks for the absolute path. -/
  | resolve (path : Path) (next : Path → Script α)
  /-- It reads a file. -/
  | read (path : Path) (next : Except FileFault (List UInt8) → Script α)
  /-- It makes a directory and those on the way to it. -/
  | makeDirectories (path : Path) (next : Option FileFault → Script α)
  /-- It writes a file. -/
  | write (path : Path) (bytes : List UInt8) (next : Option FileFault → Script α)

namespace Script

variable {α β : Type}

/-- The script that goes on with the result of `p`. -/
def bind (p : Script α) (next : α → Script β) : Script β :=
  match p with
  | done a => next a
  | stop e => stop e
  | emit e p => emit e (p.bind next)
  | print stream text p => print stream text (p.bind next)
  | kind path k => kind path fun r => (k r).bind next
  | resolve path k => resolve path fun r => (k r).bind next
  | read path k => read path fun r => (k r).bind next
  | makeDirectories path k => makeDirectories path fun r => (k r).bind next
  | write path bytes k => write path bytes fun r => (k r).bind next

instance : Monad Script where
  pure := done
  bind := bind

/-- Writes a note on the progress to the journal. -/
def note (level : Nat) (text : Text) : Script Unit :=
  emit (.note (.progress level text)) (done ())

/-- Prints an error and ends with a status. -/
def exitWith (status : Nat) (text : Text) : Script α :=
  print .error text (stop (.exit status))

/-- Writes a whole journal. -/
def tell (j : Journal) : Script Unit :=
  j.foldr emit (done ())

/-- What a path is; a failure ends the run. -/
def kindOf (path : Path) : Script (Option FileKind) :=
  kind path fun
    | .ok found => done found
    | .error f => stop (.fileFault f)

/-- The absolute path of a path. -/
def absolute (path : Path) : Script Path :=
  resolve path done

/-- The bytes of a file, or why there are none. -/
def bytesOf (path : Path) : Script (Except FileFault (List UInt8)) :=
  read path done

/-- Makes a directory and those on the way to it; a failure ends the run. -/
def ensureDirectory (path : Path) : Script Unit :=
  makeDirectories path fun
    | none => done ()
    | some f => stop (.fileFault f)

/-- Writes a file, and tells why that failed if it did. -/
def tryWrite (path : Path) (bytes : List UInt8) : Script (Option FileFault) :=
  write path bytes done

/-- The script only looks, makes directories and prints, and gives only results with `Q`. It writes
no file and nothing to the journal, and does not end well by itself. -/
inductive Prepares (Q : α → Prop) : Script α → Prop
  | done {a : α} (h : Q a) : Prepares Q (done a)
  | stop {e : Ending} (h : e ≠ .exit 0) : Prepares Q (stop e)
  | print (stream : Stream) (text : Text) {p : Script α} (h : Prepares Q p) :
    Prepares Q (print stream text p)
  | kind (path : Path) {k : Except FileFault (Option FileKind) → Script α}
    (h : ∀ r, Prepares Q (k r)) : Prepares Q (kind path k)
  | resolve (path : Path) {k : Path → Script α} (h : ∀ p, Prepares Q (k p)) :
    Prepares Q (resolve path k)
  | read (path : Path) {k : Except FileFault (List UInt8) → Script α}
    (h : ∀ r, Prepares Q (k r)) : Prepares Q (read path k)
  | makeDirectories (path : Path) {k : Option FileFault → Script α}
    (h : ∀ r, Prepares Q (k r)) : Prepares Q (makeDirectories path k)

namespace Prepares

variable {Q : α → Prop} {R : β → Prop}

theorem bind {p : Script α} {next : α → Script β} (hp : p.Prepares Q)
    (hnext : ∀ a, Q a → (next a).Prepares R) : (p.bind next).Prepares R := by
  induction hp with
  | done h => exact hnext _ h
  | stop h => exact .stop h
  | print stream text _ ih => exact .print stream text ih
  | kind path _ ih => exact .kind path ih
  | resolve path _ ih => exact .resolve path ih
  | read path _ ih => exact .read path ih
  | makeDirectories path _ ih => exact .makeDirectories path ih

theorem imp {p : Script α} (hp : p.Prepares Q) {Q' : α → Prop} (h : ∀ a, Q a → Q' a) :
    p.Prepares Q' := by
  induction hp with
  | done ha => exact .done (h _ ha)
  | stop h => exact .stop h
  | print stream text _ ih => exact .print stream text ih
  | kind path _ ih => exact .kind path ih
  | resolve path _ ih => exact .resolve path ih
  | read path _ ih => exact .read path ih
  | makeDirectories path _ ih => exact .makeDirectories path ih

/-- A stage that does something first, if a condition holds. -/
theorem ite {c : Prop} [Decidable c] {p : Script Unit} {next : Unit → Script β}
    (hp : p.Prepares fun _ => True) (hnext : (next ()).Prepares R) :
    (if c then p.bind next else next ()).Prepares R := by
  split
  · exact hp.bind fun _ _ => hnext
  · exact hnext

theorem exitWith {status : Nat} (h : status ≠ 0) (text : Text) :
    (exitWith status text : Script α).Prepares Q :=
  .print _ _ (.stop fun he => h (Ending.exit.inj he))

theorem kindOf (path : Path) : (kindOf path).Prepares fun _ => True :=
  .kind _ fun
    | .ok _ => .done trivial
    | .error _ => .stop Ending.noConfusion

theorem ensureDirectory (path : Path) : (ensureDirectory path).Prepares fun _ => True :=
  .makeDirectories _ fun
    | none => .done trivial
    | some _ => .stop Ending.noConfusion

end Prepares

/-- What a run leaves. -/
structure Report where
  /-- How it ended. -/
  ending : Ending
  /-- What it printed for results. -/
  output : Text
  /-- What it printed for errors. -/
  error : Text
  /-- What happened. -/
  journal : Journal
  /-- The files. -/
  store : FileStore

/-- The outcome of an operation that changes the store : the fault and the same store, or the
changed store. -/
def changed (s : FileStore) : Except FileFault FileStore → Option FileFault × FileStore
  | .ok t => (none, t)
  | .error f => (some f, s)

/-- The run of a script on a store. A script that gives a result ends well. -/
def runIn : Script α → FileStore → Report
  | done _, s => ⟨.exit 0, [], [], [], s⟩
  | stop e, s => ⟨e, [], [], [], s⟩
  | emit e p, s =>
    let r := p.runIn s
    { r with journal := e :: r.journal }
  | print .output text p, s =>
    let r := p.runIn s
    { r with output := text ++ r.output }
  | print .error text p, s =>
    let r := p.runIn s
    { r with error := text ++ r.error }
  | kind path k, s => (k (s.kind path)).runIn s
  | resolve path k, s => (k (s.resolve path)).runIn s
  | read path k, s => (k (s.read path)).runIn s
  | makeDirectories path k, s =>
    let (fault, t) := changed s (s.makeDirectories path)
    (k fault).runIn t
  | write path bytes k, s =>
    let (fault, t) := changed s (s.write path bytes)
    (k fault).runIn t

end Script

end TagTemplate
