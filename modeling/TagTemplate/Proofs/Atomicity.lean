import TagTemplate.Command.Expand
import TagTemplate.Proofs.JsonTrees
import TagTemplate.Proofs.Machine
import TagTemplate.Proofs.Provenance
import TagTemplate.Proofs.TagNames

/-!
# What a run of the command line writes

A run that does not end well leaves every file as it was, and one that ends well has written one
file, with the complete expansion of its source (`Expansion`). That is because the stages of a run
before the writing write nothing and never end with status 0 (`Script.Keeps`), and what comes after
the writing only notes.

`Script.Keeps` is closed under going on (`Keeps.bind`), and says of a stage also what its result
is : the plan that the options make (`plan?`), the source as a tree (`Reads`), the tree after the
expansion (`Expands`) and the text of that (`Renders`).
-/

namespace TagTemplate

namespace Script

variable {M F α β : Type} {ρ : Path → List UInt8 → Prop} {τ : Path → Path} {Q : α → Prop}
  {R : β → Prop}

theorem bind_assoc {γ : Type} (p : Script α) (f : α → Script β) (g : β → Script γ) :
    (p.bind f).bind g = p.bind fun a => (f a).bind g := by
  induction p with
  | done a => rfl
  | stop e => rfl
  | emit e p ih => exact congrArg (Script.emit e) ih
  | print stream text p ih => exact congrArg (Script.print stream text) ih
  | kind path k ih => exact congrArg (Script.kind path) (funext ih)
  | resolve path k ih => exact congrArg (Script.resolve path) (funext ih)
  | read path k ih => exact congrArg (Script.read path) (funext ih)
  | makeDirectories path k ih => exact congrArg (Script.makeDirectories path) (funext ih)
  | write path bytes k ih => exact congrArg (Script.write path bytes) (funext ih)

/-- Where reading a path gives only bytes with `ρ` and absolute paths are told by `τ`, the script
writes no file, does not end with status 0, and gives only results with `Q`. -/
inductive Keeps (ρ : Path → List UInt8 → Prop) (τ : Path → Path) (Q : α → Prop) :
    Script α → Prop
  | done {a : α} (h : Q a) : Keeps ρ τ Q (.done a)
  | stop {e : Ending} (h : e ≠ .exit 0) : Keeps ρ τ Q (.stop e)
  | emit (e : Event) {p : Script α} (h : Keeps ρ τ Q p) : Keeps ρ τ Q (.emit e p)
  | print (stream : Stream) (text : Text) {p : Script α} (h : Keeps ρ τ Q p) :
    Keeps ρ τ Q (.print stream text p)
  | kind (path : Path) {k : Except FileFault (Option FileKind) → Script α}
    (h : ∀ r, Keeps ρ τ Q (k r)) : Keeps ρ τ Q (.kind path k)
  | resolve (path : Path) {k : Path → Script α} (h : Keeps ρ τ Q (k (τ path))) :
    Keeps ρ τ Q (.resolve path k)
  | read (path : Path) {k : Except FileFault (List UInt8) → Script α}
    (hbytes : ∀ bytes, ρ path bytes → Keeps ρ τ Q (k (.ok bytes)))
    (hfault : ∀ f, Keeps ρ τ Q (k (.error f))) : Keeps ρ τ Q (.read path k)
  | makeDirectories (path : Path) {k : Option FileFault → Script α}
    (h : ∀ r, Keeps ρ τ Q (k r)) : Keeps ρ τ Q (.makeDirectories path k)

/-- What prepares a run keeps to this, whatever paths and bytes there are. -/
theorem Prepares.keeps {p : Script α} (hp : p.Prepares Q) : p.Keeps ρ τ Q := by
  induction hp with
  | done h => exact .done h
  | stop h => exact .stop h
  | print stream text _ ih => exact .print stream text ih
  | kind path _ ih => exact .kind path ih
  | resolve path _ ih => exact .resolve path (ih _)
  | read path _ ih => exact .read path (fun _ _ => ih _) fun _ => ih _
  | makeDirectories path _ ih => exact .makeDirectories path ih

namespace Keeps

theorem bind {p : Script α} {next : α → Script β} (hp : p.Keeps ρ τ Q)
    (hnext : ∀ a, Q a → (next a).Keeps ρ τ R) : (p.bind next).Keeps ρ τ R := by
  induction hp with
  | done h => exact hnext _ h
  | stop h => exact .stop h
  | emit e _ ih => exact .emit e ih
  | print stream text _ ih => exact .print stream text ih
  | kind path _ ih => exact .kind path ih
  | resolve path _ ih => exact .resolve path ih
  | read path _ _ ihbytes ihfault => exact .read path ihbytes ihfault
  | makeDirectories path _ ih => exact .makeDirectories path ih

theorem imp {p : Script α} (hp : p.Keeps ρ τ Q) {Q' : α → Prop} (h : ∀ a, Q a → Q' a) :
    p.Keeps ρ τ Q' := by
  induction hp with
  | done ha => exact .done (h _ ha)
  | stop h => exact .stop h
  | emit e _ ih => exact .emit e ih
  | print stream text _ ih => exact .print stream text ih
  | kind path _ ih => exact .kind path ih
  | resolve path _ ih => exact .resolve path ih
  | read path _ _ ihbytes ihfault => exact .read path ihbytes ihfault
  | makeDirectories path _ ih => exact .makeDirectories path ih

/-- A stage that asks for something first, if a condition holds. -/
theorem ite {c : Prop} [Decidable c] {p : Script Unit} {next : Unit → Script β}
    (hp : p.Keeps ρ τ fun _ => True) (hnext : (next ()).Keeps ρ τ R) :
    (if c then p.bind next else next ()).Keeps ρ τ R := by
  split
  · exact hp.bind fun _ _ => hnext
  · exact hnext

/-- Where a script ends, nothing comes after it. -/
theorem bind_of_ends {p : Script α} (hp : p.Keeps ρ τ fun _ => False) (next : α → Script β) :
    (p.bind next).Keeps ρ τ R :=
  hp.bind fun _ h => h.elim

theorem exitWith {status : Nat} (h : status ≠ 0) (text : Text) :
    (Script.exitWith status text : Script α).Keeps ρ τ Q :=
  (Prepares.exitWith h text).keeps

theorem note (level : Nat) (text : Text) : (Script.note level text).Keeps ρ τ fun _ => True :=
  .emit _ (.done trivial)

theorem tell : ∀ j : Journal, (Script.tell j).Keeps ρ τ fun _ => True
  | [] => .done trivial
  | e :: j => .emit e (tell j)

/-- Faults end no run with status 0. -/
theorem fault (f : Fault) : (Script.stop (.fault f) : Script α).Keeps ρ τ Q :=
  .stop Ending.noConfusion

end Keeps

theorem named?_on (m : Machine M F) (p : Script α) {s : M} {path : Path} {file : F}
    (h : m.named? s path = some file) : m.named? (p.on m s).2 path = some file := by
  induction p generalizing s with
  | done a => exact h
  | stop e => exact h
  | emit e p ih => exact ih h
  | print stream text p ih => exact ih h
  | kind path k ih => exact ih _ h
  | resolve path k ih => exact ih _ h
  | read path k ih => exact ih _ h
  | makeDirectories path k ih => exact ih _ (m.named?_makeDirectories h)
  | write path bytes k ih => exact ih _ (m.named?_write h)

/-- What is left of a machine by a script that writes nothing. -/
theorem Keeps.on (m : Machine M F) {p : Script α} {s : M} (h : p.Keeps ρ (m.resolve s) Q)
    (hread : ∀ path file bytes, m.named? (p.on m s).2 path = some file →
      m.bytes? s file = some bytes → ρ path bytes) :
    m.bytes? (p.on m s).2 = m.bytes? s ∧ (∀ a, (p.on m s).1 = .ok a → Q a) ∧
      (p.on m s).1 ≠ .error (.exit 0) := by
  induction p generalizing s with
  | done a =>
    cases h with
    | done h => exact ⟨rfl, fun _ ha => Except.ok.inj ha ▸ h, nofun⟩
  | stop e =>
    cases h with
    | stop h => exact ⟨rfl, nofun, fun he => h (Except.error.inj he)⟩
  | emit e p ih =>
    cases h with
    | emit _ h => exact ih h hread
  | print stream text p ih =>
    cases h with
    | print _ _ h => exact ih h hread
  | kind path k ih =>
    cases h with
    | kind _ h => exact ih _ (h _) hread
  | resolve path k ih =>
    cases h with
    | resolve _ h => exact ih _ h hread
  | read path k ih =>
    cases h with
    | read _ hbytes hfault =>
      refine ih _ ?_ hread
      cases hr : m.read s path with
      | error f => exact hfault f
      | ok bytes =>
        obtain ⟨file, hnamed, hfile⟩ := m.of_read hr
        exact hbytes bytes (hread path file bytes (named?_on m _ hnamed) hfile)
  | makeDirectories path k ih =>
    cases h with
    | makeDirectories _ h =>
      have hb := m.bytes?_makeDirectories s path
      have hk := h (m.makeDirectories s path).1
      rw [← m.resolve_makeDirectories s path] at hk
      rw [← hb] at hread ⊢
      exact ih _ hk hread
  | write path bytes k ih => cases h

/-- A script that prepares a run leaves every file as it was and leads no path elsewhere. -/
theorem Prepares.on (m : Machine M F) {p : Script α} (h : p.Prepares Q) (s : M) :
    m.bytes? (p.on m s).2 = m.bytes? s ∧ m.resolve (p.on m s).2 = m.resolve s ∧
      (∀ a, (p.on m s).1 = .ok a → Q a) ∧ (p.on m s).1 ≠ .error (.exit 0) := by
  induction h generalizing s with
  | done h => exact ⟨rfl, rfl, fun _ ha => Except.ok.inj ha ▸ h, nofun⟩
  | stop h => exact ⟨rfl, rfl, nofun, fun he => h (Except.error.inj he)⟩
  | print stream text _ ih => exact ih s
  | kind path _ ih => exact ih _ s
  | resolve path _ ih => exact ih _ s
  | read path _ ih => exact ih _ s
  | makeDirectories path _ ih =>
    let r := m.makeDirectories s path
    obtain ⟨hbytes, hresolve, hgives⟩ := ih r.1 r.2
    exact ⟨hbytes.trans (m.bytes?_makeDirectories s path),
      hresolve.trans (m.resolve_makeDirectories s path), hgives⟩

end Script

namespace Process

variable {σ α β : Type}

theorem run_ofExcept (o : Except Fault α) (s : σ) :
    ((ofExcept o : Process σ α).run s) = ⟨o, s, []⟩ := by
  cases o <;> rfl

theorem outcome_bind_done_eq_ok {p : Process σ α} {f : α → β} {s : σ} {b : β}
    (h : ((p.bind fun a => .done (f a)).run s).outcome = .ok b) :
    ∃ a, (p.run s).outcome = .ok a ∧ f a = b := by
  rw [run_bind, Run.bind] at h
  cases ho : (p.run s).outcome with
  | error g => rw [ho] at h; cases h
  | ok a => rw [ho] at h; exact ⟨a, rfl, Except.ok.inj h⟩

end Process

/-- What a call of one of the engine's own handlers is answered with. -/
theorem Engine.outcome_answer_own {B σ : Type} (e : Engine B σ) (d : Driver) {c : Call B}
    {b : Builtin} (hc : c.spec.handler = .builtin b) (s : σ) :
    ((d.answer e.perform c).run s).outcome =
      (e.own b).mapError (Fault.ofHandler c.spec.name c.written) := by
  have hbody : ((e.perform c).run s).outcome = e.own b := by
    rw [Engine.perform, hc, Process.run_ofExcept]
  have hdirect : c.spec.handler.isAwaited = false := by rw [hc]; rfl
  have hasync : ((c.answerAsync e.perform).run s).outcome =
      (e.own b).mapError (Fault.ofHandler c.spec.name c.written) := by
    simp only [Call.run_answerAsync, Call.run_bodyProcess, hbody]
  cases d with
  | sync => exact (congrArg Run.outcome (Call.run_answerSync _ _ _ hdirect)).trans hasync
  | async => exact hasync

/-- The engine's own handlers give texts. -/
theorem Engine.exists_text_of_own {B σ : Type} {e : Engine B σ} {b : Builtin} {v : Value}
    (h : e.own b = .ok v) : ∃ text, v = .text text := by
  have hnow (now : Except Fault Text) (h : now.map Value.text = .ok v) :
      ∃ text, v = .text text := by
    cases now with
    | ok text => exact ⟨text, (Except.ok.inj h).symm⟩
    | error f => cases h
  cases b with
  | cwd => exact ⟨_, (Except.ok.inj h).symm⟩
  | date => exact hnow _ h
  | time => exact hnow _ h

theorem Engine.outcome_of_gated {B σ α : Type} {e : Engine B σ} {p : Process σ α} {s : σ} {a : α}
    (h : ((e.gated p).run s).outcome = .ok a) : (p.run s).outcome = .ok a := by
  unfold Engine.gated at h
  split at h
  · cases h
  · exact h

namespace Evaluation

variable {B σ α : Type} {perform : Call B → Process σ Value} {e : Evaluation B α} {s : σ}
  {x : Execution B σ}

theorem run_of_mem_executions (hx : x ∈ e.executions perform s) :
    x.run = (perform x.call).run x.before := by
  induction e generalizing s with
  | done a => cases hx
  | fail f => cases hx
  | note n e ih => exact ih hx
  | call c resume ih =>
    rw [executions] at hx
    rcases List.mem_cons.mp hx with rfl | hx
    · rfl
    · cases ho : ((perform c).run s).outcome with
      | error f => rw [ho] at hx; cases hx
      | ok v => rw [ho] at hx; exact ih v hx

/-- An evaluation fails with the fault of a body that it executes. -/
theorem outcome_drive_of_mem_executions (hx : x ∈ e.executions perform s) {f : Fault}
    (hf : x.run.outcome = .error f) : ((e.drive (Call.answerAsync perform)).run s).outcome =
      .error (f.ofHandler x.call.spec.name x.call.written) := by
  induction e generalizing s with
  | done a => cases hx
  | fail f => cases hx
  | note n e ih => exact ih hx
  | call c resume ih =>
    rw [run_drive_call perform c resume s rfl, Run.afterBody]
    rw [executions] at hx
    rcases List.mem_cons.mp hx with rfl | hx
    · rw [hf]
    · cases ho : ((perform c).run s).outcome with
      | error f => rw [ho] at hx; cases hx
      | ok v => rw [ho] at hx; exact ih v hx

end Evaluation

/-! ## The stages of a run -/

namespace Command

open CommandLine (Given Options Parsed)
open Script (Keeps Prepares)

variable {M F α : Type} {ρ : Path → List UInt8 → Prop} {τ : Path → Path}

/-- The working directory of options, where `τ` tells absolute paths. -/
def cwdOf (o : Options) (τ : Path → Path) (inputdir : Path) : Text :=
  match o.cwd with
  | some (.text cwd) => cwd
  | some .nothing => []
  | none => (τ inputdir).toText

/-- The plan of options that give the input file, with the directories `d` of input and output,
where `τ` tells absolute paths. -/
def plan? (o : Options) (d : Path × Path) (τ : Path → Path) : Option Plan :=
  match o.inputFile with
  | .text inputFile =>
    let source := d.1.join (.ofText inputFile)
    some ⟨source, d.2.join (.ofText (targetName o inputFile)), Format.ofPath source,
      cwdOf o τ d.1⟩
  | .nothing => none

/-- The plan that a run makes of its options, when it starts from `s`. -/
def Frontend.Plans (frontend : Frontend) (m : Machine M F) (o : Options) (s : M) (plan : Plan) :
    Prop :=
  ∃ d u, (frontend.directories o.inputdir o.outputdir).on m s = (.ok d, u) ∧
    plan? o d (m.resolve s) = some plan

/-- The front end that is run provides the directories that are named. -/
theorem Frontend.named_of_plans {m : Machine M F} {o : Options} {s : M} {plan : Plan}
    (h : Frontend.usual.Plans m o s plan) : ∃ inputdir outputdir, o.inputdir = .text inputdir ∧
      o.outputdir = .text outputdir ∧
        plan? o (.ofText inputdir, .ofText outputdir) (m.resolve s) = some plan := by
  obtain ⟨d, u, hd, hplan⟩ := h
  have hprepares := Command.prepares_directories o.inputdir o.outputdir
  obtain ⟨inputdir, outputdir, hi, ho, rfl⟩ := (hprepares.on m s).2.2.1 d (congrArg Prod.fst hd)
  exact ⟨inputdir, outputdir, hi, ho, hplan⟩

/-- The tree that a source is read as. -/
def Reads (format : Format) (source : Text) (v : Value) : Prop :=
  match format with
  | .text => v = .text source
  | .json => Json.read (some digitLimit) source = .ok v
  | .yaml => Yaml.read source = .ok v

/-- The engine of a run in a working directory. -/
def engineIn (settings : Settings) (cwd : Text) : Engine Empty Unit :=
  engine settings (Registry.new (some cwd) []).registry

/-- The tree that comes of the expansion of a tree. -/
def Expands (settings : Settings) (cwd : Text) (format : Format) (v w : Value) : Prop :=
  match format with
  | .text => ∃ e, (((engineIn settings cwd).parseSync v).run ()).outcome = .ok e ∧ w = .text e.text
  | _ => (((engineIn settings cwd).walkSync v).run ()).outcome = .ok w

/-- The text that a tree is written as. -/
def Renders (format : Format) (w : Value) (written : Text) : Prop :=
  match format with
  | .text => w = .text written
  | .json => ∃ t, Json.write? .indented w = some t ∧ written = t ++ ['\n']
  | .yaml => Yaml.write? w = some written

/-- The complete expansion of a source. -/
def Expansion (settings : Settings) (cwd : Text) (format : Format) (source written : Text) : Prop :=
  ∃ v w, Reads format source v ∧ Expands settings cwd format v w ∧ Renders format w written

theorem keeps_workingDirectory (o : Options) (inputdir : Path) :
    (workingDirectory o inputdir).Keeps ρ τ fun cwd => cwd.1 = cwdOf o τ inputdir := by
  rw [workingDirectory, cwdOf]
  match o.cwd with
  | some (.text _) => exact .done rfl
  | some .nothing => exact .done rfl
  | none => exact .resolve _ (.done rfl)

theorem keeps_check (o : Options) (d : Path × Path) :
    (check o d.1 d.2).Keeps ρ τ fun plan => plan? o d τ = some plan := by
  rw [check]
  refine .ite (.note _ _) ?_
  refine (Keeps.note _ _).bind fun _ _ => (prepares_textOf _ _).keeps.bind fun inputFile hf =>
    (Prepares.kindOf _).keeps.bind fun _ _ => .ite (.exitWith Nat.one_ne_zero _) ?_
  refine (Keeps.note _ _).bind fun _ _ => (keeps_workingDirectory o _).bind fun cwd hcwd =>
    (Keeps.note _ _).bind fun _ _ => (Prepares.ensureDirectory _).keeps.bind fun _ _ =>
      (Keeps.note _ _).bind fun _ _ => .done ?_
  rw [plan?, hf, hcwd]

theorem keeps_parse (format : Format) (source : Text) :
    (parse format source).Keeps ρ τ (Reads format source) := by
  cases format with
  | text => exact .done rfl
  | json =>
    simp only [parse]
    split
    next v h => exact .done h
    next => exact .exitWith Nat.one_ne_zero _
    next => exact .fault _
  | yaml =>
    simp only [parse]
    split
    next v h => exact .done h
    next f _ =>
      cases f.escaping? with
      | none => exact .exitWith Nat.one_ne_zero _
      | some f => exact .fault f

theorem keeps_readSource (plan : Plan) : (readSource plan).Keeps ρ τ fun v => ∃ bytes source,
    ρ plan.source bytes ∧ Utf8.decode bytes = .ok source ∧
      Reads plan.format (unifyLineEnds source) v := by
  refine (Keeps.note _ _).bind fun _ _ => .read _ (fun bytes hbytes => ?_) fun f =>
    (Keeps.exitWith Nat.one_ne_zero _).bind_of_ends _
  simp only [Script.bind]
  split
  next => exact (Keeps.exitWith Nat.one_ne_zero _).bind_of_ends _
  next source hsource =>
    exact (Keeps.note _ _).bind fun _ _ => (keeps_parse _ _).imp fun v hv =>
      ⟨bytes, source, hbytes, hsource, hv⟩

/-- The stages between the directories and the expansion. -/
def prepare (o : Options) (d : Path × Path) : Script (Plan × Value) :=
  (check o d.1 d.2).bind fun plan => (readSource plan).bind fun v => .done (plan, v)

theorem keeps_prepare (o : Options) (d : Path × Path) : (prepare o d).Keeps ρ τ fun r =>
    plan? o d τ = some r.1 ∧ ∃ bytes source, ρ r.1.source bytes ∧ Utf8.decode bytes = .ok source ∧
      Reads r.1.format (unifyLineEnds source) r.2 :=
  (keeps_check o d).bind fun plan hplan => (keeps_readSource plan).bind fun _ hv =>
    .done ⟨hplan, hv⟩

/-- The run that expands a tree. -/
def expansionRun (settings : Settings) (plan : Plan) (v : Value) : Run Unit Expanded :=
  Process.run (match plan.format with
    | .text => ((engineIn settings plan.cwd).parseSync v).bind fun e =>
      .done ⟨.text e.text, some e.found.length⟩
    | _ => ((engineIn settings plan.cwd).walkSync v).bind fun w => .done ⟨w, none⟩) ()

theorem expands_of_expansionRun {settings : Settings} {plan : Plan} {v : Value} {e : Expanded}
    (h : (expansionRun settings plan v).outcome = .ok e) :
    Expands settings plan.cwd plan.format v e.tree := by
  unfold expansionRun at h
  cases hf : plan.format with
  | text =>
    simp only [hf] at h
    obtain ⟨evaluated, he, rfl⟩ := Process.outcome_bind_done_eq_ok h
    exact ⟨evaluated, he, rfl⟩
  | json =>
    simp only [hf] at h
    obtain ⟨w, hw, rfl⟩ := Process.outcome_bind_done_eq_ok h
    exact hw
  | yaml =>
    simp only [hf] at h
    obtain ⟨w, hw, rfl⟩ := Process.outcome_bind_done_eq_ok h
    exact hw

theorem expand_eq (settings : Settings) (plan : Plan) (v : Value) : expand settings plan v =
    (Script.note 1 "Expanding shortcodes...".toList).bind fun _ =>
      (Script.tell ((Registry.new (B := Empty) (some plan.cwd) []).notes.map .note)).bind fun _ =>
        (Script.tell (expansionRun settings plan v).journal).bind fun _ =>
          match (expansionRun settings plan v).outcome with
          | .error f => expansionFailed plan.format f
          | .ok e => (Script.note 2 (summary plan.format e)).bind fun _ => .done e :=
  rfl

theorem keeps_expand (settings : Settings) (plan : Plan) (v : Value) :
    (expand settings plan v).Keeps ρ τ fun e =>
      Expands settings plan.cwd plan.format v e.tree := by
  rw [expand_eq]
  refine (Keeps.note _ _).bind fun _ _ => (Keeps.tell _).bind fun _ _ =>
    (Keeps.tell _).bind fun _ _ => ?_
  split
  next f _ =>
    unfold expansionFailed
    split
    · split
      · exact .exitWith Nat.one_ne_zero _
      · exact .fault _
    · exact .fault f
  next e h =>
    exact (Keeps.note _ _).bind fun _ _ => .done (expands_of_expansionRun h)

theorem tell_on (m : Machine M F) (s : M) : ∀ j : Journal, (Script.tell j).on m s = (.ok (), s)
  | [] => rfl
  | _ :: j => tell_on m s j

/-- The expansion does nothing on the machine. -/
theorem expand_on (m : Machine M F) (settings : Settings) (plan : Plan) (v : Value) (s : M) :
    (expand settings plan v).on m s = match (expansionRun settings plan v).outcome with
      | .error f => (expansionFailed plan.format f).on m s
      | .ok e => (.ok e, s) := by
  simp only [expand_eq, Script.on_bind, tell_on]
  cases (expansionRun settings plan v).outcome <;> rfl

theorem keeps_render {settings : Settings} {cwd : Text} {format : Format} {source : Text}
    {v : Value} {e : Expanded} (hv : Reads format source v)
    (he : Expands settings cwd format v e.tree) :
    (render format e).Keeps ρ τ (Renders format e.tree) := by
  cases format with
  | text =>
    obtain ⟨evaluated, -, htree⟩ := he
    exact .done (by rw [htree]; rfl)
  | json =>
    have hform : Json.hasForm e.tree = true :=
      Json.gives_walkSync _ v (Json.hasForm_of_read hv) () e.tree (Engine.outcome_of_gated he)
    obtain ⟨t, ht⟩ := Option.isSome_iff_exists.mp ((Json.isSome_write? .indented _).trans hform)
    exact .done ⟨t, ht, by rw [ht]; rfl⟩
  | yaml =>
    simp only [render]
    cases ht : Yaml.write? e.tree with
    | none => exact .fault _
    | some t => exact .done ht

theorem report_on (m : Machine M F) (plan : Plan) (e : Expanded) (s : M) :
    (report plan e).on m s = (.ok (), s) := by
  obtain ⟨tree, _ | n⟩ := e <;> rfl

/-- A write that is refused ends the run, and not with status 0. -/
theorem writeResult_on (m : Machine M F) (plan : Plan) (text : Text) (s : M) :
    let r := m.write s plan.target (Utf8.encode text)
    (writeResult plan text).on m s = (.ok (), r.2) ∧ r.1 = none ∨
      ∃ e, (writeResult plan text).on m s = (.error e, r.2) ∧ e ≠ .exit 0 ∧ r.1 ≠ none := by
  intro r
  simp only [writeResult, bind, Script.bind, Script.tryWrite, Script.on]
  cases r.1 with
  | none => exact .inl ⟨rfl, rfl⟩
  | some f =>
    by_cases hnul : f.cause = .embeddedNul
    · simp only [if_pos hnul]
      exact .inr ⟨_, rfl, Ending.noConfusion, nofun⟩
    · simp only [if_neg hnul]
      exact .inr ⟨.exit 1, rfl, by decide, nofun⟩

/-! ## Whole runs -/

/-- The stages between the directories and the writing. -/
def compose (settings : Settings) (o : Options) (d : Path × Path) :
    Script (Plan × Expanded × Text) :=
  (prepare o d).bind fun r => (expand settings r.1 r.2).bind fun e =>
    (render r.1.format e).bind fun written => .done (r.1, e, written)

theorem expandFile_eq (frontend : Frontend) (settings : Settings) (o : Options) :
    expandFile frontend settings o = (frontend.directories o.inputdir o.outputdir).bind fun d =>
      (compose settings o d).bind fun r => (writeResult r.1 r.2.2).bind fun _ =>
        report r.1 r.2.1 := by
  simp only [compose, prepare, Script.bind_assoc]
  rfl

theorem keeps_compose (settings : Settings) (o : Options) (d : Path × Path) :
    (compose settings o d).Keeps ρ τ fun r => plan? o d τ = some r.1 ∧ ∃ bytes source,
      ρ r.1.source bytes ∧ Utf8.decode bytes = .ok source ∧
        Expansion settings r.1.cwd r.1.format (unifyLineEnds source) r.2.2 := by
  refine (keeps_prepare o d).bind ?_
  rintro ⟨plan, v⟩ ⟨hplan, bytes, source, hbytes, hsource, hv⟩
  exact (keeps_expand settings plan v).bind fun e he => (keeps_render hv he).bind fun written hw =>
    .done ⟨hplan, bytes, source, hbytes, hsource, v, e.tree, hv, he, hw⟩

/-- A run from `s` to `t` of a plan : the bytes of the source file encode `source`, and one file was
written, the plan's target, with the complete expansion `written`. -/
structure Completed (m : Machine M F) (settings : Settings) (plan : Plan) (s t : M)
    (source written : Text) : Prop where
  read : ∃ file bytes, m.named? t plan.source = some file ∧ m.bytes? s file = some bytes ∧
    Utf8.decode bytes = .ok source
  expansion : Expansion settings plan.cwd plan.format (unifyLineEnds source) written
  wrote : ∃ file, m.named? t plan.target = some file ∧
    m.bytes? t file = some (Utf8.encode written) ∧
      ∀ other, other ≠ file → m.bytes? t other = m.bytes? s other

/-- A run that starts from files which are the same. -/
theorem Completed.of_same {m : Machine M F} {settings : Settings} {plan : Plan} {s u t : M}
    {source written : Text} (h : Completed m settings plan u t source written)
    (hs : m.bytes? u = m.bytes? s) : Completed m settings plan s t source written :=
  ⟨hs ▸ h.read, h.expansion, hs ▸ h.wrote⟩

/-- With its directories there, a run completes its plan or leaves every file as it was. -/
theorem compose_cases (m : Machine M F) (settings : Settings) (o : Options) (d : Path × Path)
    (s : M) :
    let r := ((compose settings o d).bind fun r => (writeResult r.1 r.2.2).bind fun _ =>
      report r.1 r.2.1).on m s
    (r.1 = .ok () ∧ ∃ plan source written, plan? o d (m.resolve s) = some plan ∧
        Completed m settings plan s r.2 source written) ∨
      ∃ e, r.1 = .error e ∧ e ≠ .exit 0 ∧ m.bytes? r.2 = m.bytes? s := by
  rw [Script.on_bind]
  generalize hc : (compose settings o d).on m s = c
  let read (path : Path) (bytes : List UInt8) : Prop :=
    ∃ file, m.named? c.2 path = some file ∧ m.bytes? s file = some bytes
  have hkeeps := @keeps_compose read (m.resolve s) settings o d
  obtain ⟨hbytes, hresult, hend⟩ := hkeeps.on m fun path file bytes hn hb => ⟨file, hc ▸ hn, hb⟩
  rw [hc] at hbytes hresult hend
  obtain ⟨e | ⟨plan, expanded, written⟩, u⟩ := c
  · exact .inr ⟨e, rfl, fun he => hend (he ▸ rfl), hbytes⟩
  · obtain ⟨hplan, bytes, source, ⟨file, hnamed, hfile⟩, hsource, hexpansion⟩ := hresult _ rfl
    simp only [Script.on_bind]
    rcases writeResult_on m plan written u with ⟨hw, hdone⟩ | ⟨e, hw, he, hrefused⟩
    · obtain ⟨target, htarget, hwritten, hothers⟩ := m.of_write hdone
      simp only [hw, report_on]
      exact .inl ⟨trivial, plan, source, written, hplan,
        ⟨file, bytes, m.named?_write hnamed, hfile, hsource⟩, hexpansion,
        target, htarget, hwritten, hbytes ▸ hothers⟩
    · simp only [hw]
      exact .inr ⟨e, rfl, he, (m.bytes?_of_refused hrefused).trans hbytes⟩

/-- A run completes the plan that it makes, or leaves every file as it was. -/
theorem expandFile_cases (m : Machine M F) (frontend : Frontend) (settings : Settings)
    (o : Options) (s : M) :
    let r := (expandFile frontend settings o).on m s
    (r.1 = .ok () ∧ ∃ plan source written, frontend.Plans m o s plan ∧
        Completed m settings plan s r.2 source written) ∨
      ∃ e, r.1 = .error e ∧ e ≠ .exit 0 ∧ m.bytes? r.2 = m.bytes? s := by
  rw [expandFile_eq, Script.on_bind]
  obtain ⟨hbytes, hresolve, -, hend⟩ :=
    (frontend.prepares_directories o.inputdir o.outputdir).on m s
  generalize hd : (frontend.directories o.inputdir o.outputdir).on m s = c at hbytes hresolve hend
  obtain ⟨e | d, u⟩ := c
  · exact .inr ⟨e, rfl, fun he => hend (he ▸ rfl), hbytes⟩
  · rcases compose_cases m settings o d u with ⟨hok, plan, source, written, hplan, hdone⟩ |
      ⟨e, he, hne, hsame⟩
    · exact .inl ⟨hok, plan, source, written, ⟨d, u, hd, hresolve ▸ hplan⟩, hdone.of_same hbytes⟩
    · exact .inr ⟨e, he, hne, hsame.trans hbytes⟩

/-! ## The engine's own handlers -/

theorem isReportable_of_mem_bodies {settings : Settings} {cwd source : Text}
    {x : Execution Empty Unit} (hx : x ∈ (engineIn settings cwd).bodies source ()) {f : Fault}
    (hf : x.run.outcome = .error f) : f.isReportable = true := by
  rw [Evaluation.run_of_mem_executions hx, Engine.perform] at hf
  split at hf
  next b _ =>
    rw [Process.run_ofExcept] at hf
    exact Engine.isReportable_of_own hf
  next body _ _ => exact body.elim

/-- A text fails with a report that can be worded. -/
theorem expansionFailed_of_mem_bodies {settings : Settings} {cwd source : Text}
    {x : Execution Empty Unit} (hx : x ∈ (engineIn settings cwd).bodies source ()) {f : Fault}
    (hf : x.run.outcome = .error f) : ∃ text,
      expansionFailed .text (f.ofHandler x.call.spec.name x.call.written) = .exitWith 1 text := by
  have hreport := isReportable_of_mem_bodies hx hf
  obtain ⟨text, hw⟩ := Fault.wording_of_isReportable hreport
  rw [Fault.ofHandler_of_isReportable hreport, expansionFailed, if_pos ⟨rfl, rfl⟩, Fault.wording,
    hw]
  exact ⟨_, rfl⟩

theorem run_parseSync (settings : Settings) (cwd source : Text) :
    ((engineIn settings cwd).parseSync (.text source)).run () =
      ((engineIn settings cwd).textBy .sync source).run () :=
  rfl

theorem outcome_expansionRun {settings : Settings} {plan : Plan} (hformat : plan.format = .text)
    (source : Text) : (expansionRun settings plan (.text source)).outcome =
      (((engineIn settings plan.cwd).textBy .sync source).run ()).outcome.map fun e =>
        ⟨.text e.text, some e.found.length⟩ := by
  simp only [expansionRun, hformat, Process.run_bind, Run.bind, run_parseSync]
  cases (((engineIn settings plan.cwd).textBy .sync source).run ()).outcome <;> rfl

theorem outcome_textBy_of_mem_bodies {settings : Settings} {cwd source : Text}
    {x : Execution Empty Unit} (hx : x ∈ (engineIn settings cwd).bodies source ()) {f : Fault}
    (hf : x.run.outcome = .error f) :
    (((engineIn settings cwd).textBy .sync source).run ()).outcome =
      .error (f.ofHandler x.call.spec.name x.call.written) := by
  have hawaited : ∀ spec ∈ (engineIn settings cwd).registry.specs,
      spec.handler.isAwaited = false := by
    rintro ⟨name, b | ⟨body, mode⟩, isAsync, builtin, description⟩ _
    · rfl
    · exact body.elim
  rw [Engine.run_textBy hawaited]
  exact Evaluation.outcome_drive_of_mem_executions hx hf

/-- A tag of one of the engine's own handlers expands to what the handler gives, which for a date or
a time is what the time source gives for the format. -/
theorem expansion_own_iff {settings : Settings} {cwd written : Text} (u name v : Text)
    (hname : isName name = true) (hu : ∀ c ∈ u, isBlank c = true) (hv : ∀ c ∈ v, isBlank c = true)
    {spec : Spec Empty} (hlook : (engineIn settings cwd).registry.find? name = some spec)
    {b : Builtin} (hspec : spec.handler = .builtin b) :
    Expansion settings cwd .text (spacedTag u name v) written ↔
      (engineIn settings cwd).own b = .ok (.text written) := by
  obtain ⟨-, -, hreplaced, hfailed⟩ :=
    callsOnce_spacedTag hname hu hv (engineIn settings cwd) .sync hlook ()
  rw [Engine.outcome_answer_own _ .sync hspec] at hreplaced hfailed
  constructor
  · rintro ⟨_, _, rfl, ⟨e, he, rfl⟩, hw⟩
    obtain rfl := Value.text.inj hw
    rw [run_parseSync] at he
    cases hown : (engineIn settings cwd).own b with
    | error f =>
      rw [hown] at hfailed
      cases he.symm.trans (hfailed _ rfl)
    | ok v =>
      obtain ⟨text, rfl⟩ := Engine.exists_text_of_own hown
      rw [hown] at hreplaced
      obtain ⟨found, hout⟩ := hreplaced _ text rfl rfl
      rw [Except.ok.inj (he.symm.trans hout)]
  · intro hown
    rw [hown] at hreplaced
    obtain ⟨found, he⟩ := hreplaced _ written rfl rfl
    exact ⟨_, _, rfl, ⟨_, he, rfl⟩, rfl⟩

/-- What stands for the date and the time of day in an expansion is what the time source gives. -/
theorem expansion_now_iff (settings : Settings) (cwd written : Text) :
    (Expansion settings cwd .text "[@date]".toList written ↔
      settings.time.now settings.dateFormat = .ok written) ∧
    (Expansion settings cwd .text "[@time]".toList written ↔
      settings.time.now settings.timeFormat = .ok written) := by
  have hown (now : Except Fault Text) :
      now.map Value.text = .ok (.text written) ↔ now = .ok written := by
    cases now <;> simp [Except.map]
  have hno : ∀ c ∈ ([] : Text), isBlank c = true := List.forall_mem_nil _
  exact ⟨(expansion_own_iff [] "date".toList [] (by decide) hno hno rfl rfl).trans (hown _),
    (expansion_own_iff [] "time".toList [] (by decide) hno hno rfl rfl).trans (hown _)⟩

/-- What a run with these arguments does to the files of a machine, when it starts from `s`, ends
with `ending` and leaves `t`. -/
structure Atomic (m : Machine M F) (frontend : Frontend) (settings : Settings)
    (arguments : List Text) (s : M) (ending : Ending) (t : M) : Prop where
  /-- A run that does not end well leaves every file as it was, and makes none. -/
  unchanged : ending ≠ .exit 0 → m.bytes? t = m.bytes? s
  /-- A run that ends well completes the plan of its options. -/
  completed : ending = .exit 0 → ∃ o plan source written, frontend.parse arguments = .run o ∧
    frontend.Plans m o s plan ∧ Completed m settings plan s t source written
  /-- If a handler fails on a text that was read, the run ends with status 1. -/
  failed : ∀ o d u plan source v, frontend.parse arguments = .run o →
    (frontend.directories o.inputdir o.outputdir).on m s = (.ok d, u) →
      (prepare o d).on m u = (.ok (plan, .text source), v) → plan.format = .text →
        (∃ x ∈ (engineIn settings plan.cwd).bodies source (), ∃ f, x.run.outcome = .error f) →
          ending = .exit 1

theorem atomic_on (m : Machine M F) (frontend : Frontend) (settings : Settings)
    {arguments : List Text} (hversion : frontend.parse arguments ≠ .version)
    (hhelp : frontend.parse arguments ≠ .help) (s : M) :
    let r := (script frontend settings arguments).on m s
    Atomic m frontend settings arguments s (Script.ending r.1) r.2 := by
  cases hparse : frontend.parse arguments with
  | version => exact absurd hparse hversion
  | help => exact absurd hparse hhelp
  | wrong =>
    rw [script, hparse]
    exact ⟨fun _ => rfl, nofun, fun o _ _ _ _ _ ho => by cases hparse.symm.trans ho⟩
  | run o =>
    have hscript : script frontend settings arguments = expandFile frontend settings o := by
      rw [script, hparse]
    rw [hscript]
    refine ⟨fun hend => ?_, fun hend => ?_,
      fun o' d u plan source v ho' hd hprepare hformat hfails => ?_⟩
    · rcases expandFile_cases m frontend settings o s with ⟨hok, -⟩ | ⟨e, -, -, hbytes⟩
      · exact absurd (congrArg Script.ending hok) hend
      · exact hbytes
    · rcases expandFile_cases m frontend settings o s with ⟨-, plan, source, written, hdone⟩ |
        ⟨e, he, hne, -⟩
      · exact ⟨o, plan, source, written, hparse, hdone⟩
      · rw [he] at hend
        exact absurd hend hne
    · obtain rfl := Parsed.run.inj (hparse.symm.trans ho')
      obtain ⟨x, hx, f, hf⟩ := hfails
      obtain ⟨text, hfailed⟩ := expansionFailed_of_mem_bodies hx hf
      simp only [expandFile_eq, compose, Script.on_bind, hd, hprepare, expand_on, hformat,
        outcome_expansionRun hformat, outcome_textBy_of_mem_bodies hx hf, Except.map, hfailed]
      rfl

/-- A run for whatever arguments that ask neither for the version nor for help, with any front end
and on any machine : if it does not end with status 0, it leaves every file as it was and makes
none; if it does, it has written one file, the output directory joined with the output file's name,
with the complete expansion of the source; and if a handler fails on a text, the status is 1. A
store is one of the machines, the directories of the front end that is run are those that are
named, and the date and the time of day in an expansion are what the time source gives. -/
theorem files_of_script (frontend : Frontend) (settings : Settings) {arguments : List Text}
    (hversion : frontend.parse arguments ≠ .version)
    (hhelp : frontend.parse arguments ≠ .help) :
    (∀ {M F : Type} (m : Machine M F) (s : M), let r := (script frontend settings arguments).on m s
      Atomic m frontend settings arguments s (Script.ending r.1) r.2) ∧
    (∀ store : FileStore, let r := (script frontend settings arguments).runIn store
      Atomic FileStore.machine frontend settings arguments store r.ending r.store) ∧
    (∀ {M F : Type} (m : Machine M F) (o : Options) (s : M) (plan : Plan),
      Frontend.usual.Plans m o s plan → ∃ inputdir outputdir, o.inputdir = .text inputdir ∧
        o.outputdir = .text outputdir ∧
          plan? o (.ofText inputdir, .ofText outputdir) (m.resolve s) = some plan) ∧
    ∀ cwd written : Text,
      (Expansion settings cwd .text "[@date]".toList written ↔
        settings.time.now settings.dateFormat = .ok written) ∧
      (Expansion settings cwd .text "[@time]".toList written ↔
        settings.time.now settings.timeFormat = .ok written) := by
  refine ⟨fun m s => atomic_on m frontend settings hversion hhelp s, fun store => ?_,
    fun m o s plan => Frontend.named_of_plans, expansion_now_iff settings⟩
  obtain ⟨hending, hstore⟩ := Script.runIn_machine (script frontend settings arguments) store
  simp only [hending, hstore]
  exact atomic_on FileStore.machine frontend settings hversion hhelp store

/-- A text whose handler fails for the format of dates, and a tree, side by side. -/
def sampleStore : FileStore where
  entries := [(["in".toList], .directory),
    (["in".toList, "t.txt".toList], .file (Utf8.encode "[@date]".toList)),
    (["in".toList, "t.json".toList], .file (Utf8.encode "[1]".toList))]
  current := []

/-- The arguments for a file of that store. -/
def sampleArguments (inputFile : Text) : List Text :=
  ["in".toList, "out".toList, "--inputFile".toList, inputFile]

/-- Settings with a format of dates that holds a NUL. -/
def sampleSettings : Settings where
  dateFormat := [Char.ofNat 0]

/-- The run for one of its files. -/
def sampleRun (inputFile : Text) : Script.Report :=
  (script .usual sampleSettings (sampleArguments inputFile)).runIn sampleStore

theorem files_of_script_sample :
    (∀ file ∈ ["t.txt".toList, "t.json".toList],
      Frontend.usual.parse (sampleArguments file) ≠ .version ∧
        Frontend.usual.parse (sampleArguments file) ≠ .help) ∧
    ((sampleRun "t.txt".toList).ending = .exit 1 ∧
      (sampleRun "t.txt".toList).store.bytesAt? = sampleStore.bytesAt?) ∧
    (sampleRun "t.json".toList).ending = .exit 0 ∧ ∃ o inputdir outputdir plan source written,
      Frontend.usual.parse (sampleArguments "t.json".toList) = .run o ∧
        o.inputdir = .text inputdir ∧ o.outputdir = .text outputdir ∧
          plan? o (.ofText inputdir, .ofText outputdir) sampleStore.resolve = some plan ∧
            Completed FileStore.machine sampleSettings plan sampleStore
              (sampleRun "t.json".toList).store source written := by
  have harguments : ∀ file ∈ ["t.txt".toList, "t.json".toList],
      Frontend.usual.parse (sampleArguments file) ≠ .version ∧
        Frontend.usual.parse (sampleArguments file) ≠ .help := by decide +kernel
  have htext := harguments "t.txt".toList (by simp)
  have hjson := harguments "t.json".toList (by simp)
  have hfiles := (files_of_script .usual sampleSettings htext.1 htext.2).2.1 sampleStore
  obtain ⟨-, hruns, hnamed, -⟩ := files_of_script .usual sampleSettings hjson.1 hjson.2
  -- The text : it is read, and the body for its tag fails.
  have hparse : CommandLine.parse (sampleArguments "t.txt".toList) =
      .run ⟨.text "in".toList, .text "out".toList, .text "t.txt".toList, none, none, 1⟩ := by
    decide +kernel
  have hdirectories : (directories (.text "in".toList) (.text "out".toList)).on FileStore.machine
      sampleStore = (.ok (.ofText "in".toList, .ofText "out".toList),
        ⟨sampleStore.entries ++ [(["out".toList], .directory)], []⟩) := by cbv
  have hprepare : (prepare ⟨.text "in".toList, .text "out".toList, .text "t.txt".toList, none, none,
      1⟩ (.ofText "in".toList, .ofText "out".toList)).on FileStore.machine
        ⟨sampleStore.entries ++ [(["out".toList], .directory)], []⟩ =
        (.ok (⟨⟨[], ["in".toList, "t.txt".toList]⟩, ⟨[], ["out".toList, "t.txt".toList]⟩, .text,
          "/in".toList⟩, .text "[@date]".toList),
        ⟨sampleStore.entries ++ [(["out".toList], .directory)], []⟩) := by cbv
  have hbody : ∃ x ∈ (engineIn sampleSettings "/in".toList).bodies "[@date]".toList (),
      ∃ f, x.run.outcome = .error f := by
    have htag : Opening.Spells ⟨false, "date".toList, []⟩ (spacedTag [] "date".toList []) :=
      spells_spacedTag (by decide) (List.forall_mem_nil _) (List.forall_mem_nil _)
    have hlook : (engineIn sampleSettings "/in".toList).registry.find? "date".toList =
        some ⟨"date".toList, .builtin .date, false, true,
          "Current date, formatted per the host locale".toList⟩ := rfl
    rw [Engine.bodies, show "[@date]".toList = spacedTag [] "date".toList [] from rfl,
      evaluate_of_spells htag attributesFit_nil rfl hlook]
    exact ⟨_, List.mem_cons_self .., _, rfl⟩
  have hfailed := hfiles.failed _ _ _ _ _ _ hparse hdirectories hprepare rfl hbody
  -- The tree : it ends well.
  have hdone : (sampleRun "t.json".toList).ending = .exit 0 := by decide +kernel
  obtain ⟨o, plan, source, written, ho, hplans, hcompleted⟩ :=
    (hruns sampleStore).completed hdone
  obtain ⟨inputdir, outputdir, hinput, houtput, hplan⟩ := hnamed _ _ _ _ hplans
  exact ⟨harguments, ⟨hfailed, hfiles.unchanged (by rw [hfailed]; decide)⟩, hdone, o, inputdir,
    outputdir, plan, source, written, ho, hinput, houtput, hplan, hcompleted⟩

end Command

end TagTemplate
