import Mathlib
import TagTemplate.Proofs.Concurrency
import TagTemplate.Proofs.Logging

/-!
# Sessions at any verbosity

A session of any processors, with whatever handlers, is a sequence of orders : processors are made,
used and asked about (`Order`). `Processors.step` carries out one of them and shows every line at
the moment when it is told, at the verbosity that is connected then and with the debug switch as it
is then; both may be changed between orders (`Processors.run`).

An order does the same at all verbosities and tells the same (`Processors.uniform_step`). So whole
sessions agree but for their logs (`Processors.effects_run`), and the log of each order is an
excerpt of what it is where the engine's notes are shown (`Processors.excerpt_run`). What is asked
of handlers for that is only that they write no notes of a higher level; a scripted handler writes
none but those of engines (`Scripted.tellsAt_perform`). The operations of a `Session` are orders to
its processors (`Session.carries_order`).
-/

namespace TagTemplate

variable {B R σ α : Type}

/-! ## Engines -/

namespace Engine

/-- The notes that handlers from outside write are of levels with `P`. -/
def TellsAt (P : Nat → Prop) (e : Engine B σ) : Prop :=
  ∀ body mode args, (e.custom body mode args).TellsAt P

/-- The engine with the debug switch as a verbosity has it. -/
def switched (e : Engine B σ) (v : Verbosity) : Engine B σ :=
  { e with settings := { e.settings with debug := v.debug } }

/-- An engine does not look at the debug switch. -/
theorem perform_switched (e : Engine B σ) (v : Verbosity) : (e.switched v).perform = e.perform :=
  rfl

namespace TellsAt

variable {e : Engine B σ} {P : Nat → Prop}

theorem perform (h : e.TellsAt P) (c : Call B) : (e.perform c).TellsAt P := by
  unfold Engine.perform
  split
  · exact .ofExcept _
  · exact h _ _ _

theorem bodyProcess (h : e.TellsAt P) (c : Call B) : (c.bodyProcess e.perform).TellsAt P := by
  have hcalled : (Event.called c.toRecord).HasLevel P := trivial
  exact .emit hcalled ((h.perform c).mapFault _)

theorem gated {p : Process σ α} (h : p.TellsAt P) : (e.gated p).TellsAt P := by
  unfold Engine.gated
  split
  · exact .fail _
  · exact h

variable (h : e.TellsAt P) (h3 : P 3)

include h h3

theorem answerSync (c : Call B) : (c.answerSync e.perform).TellsAt P := by
  have hcalling : (Event.note (.calling c.spec.name c.written)).HasLevel P := h3
  refine .emit hcalling ?_
  split
  · exact .fail _
  · exact h.bodyProcess c

theorem answerAsync (c : Call B) : (c.answerAsync e.perform).TellsAt P := by
  have hcalling : (Event.note (.calling c.spec.name c.written)).HasLevel P := h3
  refine .emit hcalling ?_
  split
  · exact .pause (h.bodyProcess c)
  · exact h.bodyProcess c

theorem textSync (source : Text) : (e.textSync source).TellsAt P :=
  (quiet_evaluate _ source).drive h3 (h.answerSync h3)

theorem textAsync (source : Text) : (e.textAsync source).TellsAt P :=
  (quiet_evaluate _ source).drive h3 (h.answerAsync h3)

theorem parseSync (source : Value) : (e.parseSync source).TellsAt P :=
  gated ((Process.TellsAt.ofExcept _).bind (h.textSync h3))

theorem parseAsync (source : Value) : (e.parseAsync source).TellsAt P :=
  (Process.TellsAt.ofExcept _).bind (h.textAsync h3)

theorem walkSync (tree : Value) : (e.walkSync tree).TellsAt P :=
  gated (tellsAt_walkSync (fun s => (h.textSync h3 s).bind fun r => .done r.text) tree)

theorem rootJobs (tree : Value) :
    ∀ p ∈ tree.rootJobs hasOpening e.leafTextAsync, p.TellsAt P :=
  tellsAt_rootJobs (fun s => (h.textAsync h3 s).bind fun r => .done r.text) tree

theorem runWalkAsync (tree : Value) (s : σ) :
    ∀ x ∈ (e.runWalkAsync tree s).journal, x.HasLevel P :=
  (Crew.schedule_run _ s).of_tellsAt (h.rootJobs h3 tree)

end TellsAt

/-- The run of the walk that takes all texts at once, with a log. -/
def walkLogging (v : Verbosity) (e : Engine B σ) (tree : Value) (s : σ × Shown) :
    Run (σ × Shown) Value :=
  let crew := Crew.run ((Value.rootJobs hasOpening e.leafTextAsync tree).map (Process.logging v)) s
  ⟨Value.ofEndings hasOpening tree crew.endings, crew.state, crew.journal⟩

theorem walkLogging_eq (v : Verbosity) (e : Engine B σ) (tree : Value) (s : σ) (t : Shown) :
    e.walkLogging v tree (s, t) = ⟨(e.runWalkAsync tree s).outcome,
      ((e.runWalkAsync tree s).state, t.tell v (e.runWalkAsync tree s).journal), []⟩ := by
  rw [walkLogging, Crew.run_logging]
  rfl

end Engine

/-! ## Registries -/

namespace Registry

variable {r : Registry B} {c : Change B}

/-- The notes of registering are of level 3. -/
def Change.Quiet (c : Change B) : Prop :=
  ∀ n ∈ c.notes, n.level = 3

theorem quiet_register (r : Registry B) (offer : Offer B) (isAsync builtin : Bool) :
    (r.register offer isAsync builtin).Quiet := by
  unfold Change.Quiet register
  split
  next =>
    split
    next =>
      split
      next => exact List.forall_mem_singleton.mpr rfl
      next => simp
    next => simp
  next => simp

theorem Change.Quiet.thenDo (h : c.Quiet) {op : Registry B → Change B} (hop : ∀ r, (op r).Quiet) :
    (c.thenDo op).Quiet := by
  unfold Change.thenDo
  split
  · exact h
  · exact List.forall_mem_append.mpr ⟨h, hop _⟩

theorem Change.Quiet.foldl {op : Offer B → Registry B → Change B} (hop : ∀ o r, (op o r).Quiet) :
    ∀ (offers : List (Offer B)) {c : Change B}, c.Quiet →
      (offers.foldl (fun c o => c.thenDo (op o)) c).Quiet
  | [], _, h => h
  | o :: offers, _, h => Change.Quiet.foldl hop offers (h.thenDo (hop o))

theorem quiet_clear (r : Registry B) : r.clear.Quiet := by
  have hempty : Change.Quiet ⟨{ r with specs := [], hasAsync := false }, [], none⟩ := nofun
  exact Change.Quiet.foldl (fun _ _ => quiet_register _ _ _ _) _
    (Change.Quiet.foldl (fun _ _ => quiet_register _ _ _ _) _ hempty)

theorem Change.Quiet.events (h : c.Quiet) {P : Nat → Prop} (h3 : P 3) :
    ∀ e ∈ c.notes.map Event.note, e.HasLevel P :=
  List.forall_mem_map.mpr fun n hn => (show P n.level from (h n hn).symm ▸ h3)

end Registry

/-! ## Orders -/

/-- An order in a session, with `R` what questions are answered with. -/
inductive Order (B R : Type) where
  /-- A processor is made. -/
  | make (cwd : Option Text) (defaults : List (Offer B))
  /-- A processor is used. -/
  | use (index : Nat) (u : Use B)
  /-- A processor registers a handler with marks of its own. -/
  | register (index : Nat) (offer : Offer B) (isAsync builtin : Bool)
  /-- A question about a registry is answered. -/
  | ask (index : Nat) (question : Registry B → Except Fault R)

/-- What an order is answered with. -/
inductive Answer (R : Type) where
  /-- The names of a registry and whether it counts as asynchronous. -/
  | registry (names : List Text) (hasAsync : Bool)
  /-- An evaluated text. -/
  | evaluated (e : Evaluated)
  /-- A tree. -/
  | tree (v : Value)
  /-- The answer to a question. -/
  | told (r : R)

/-- The registries that are in use, and what their handlers share. -/
structure Processors (B σ : Type) where
  registries : List (Registry B)
  state : σ

/-- What comes of an order. -/
structure Processors.Step (B R σ : Type) where
  /-- The result or the fault; nothing if there is no such processor. -/
  answer : Option (Except Fault (Answer R))
  /-- What is seen of it. -/
  shown : Shown
  /-- The processors afterwards. -/
  after : Processors B σ

/-- All that comes of an order but its log. -/
def Processors.Step.effects (x : Step B R σ) :
    Option (Except Fault (Answer R)) × List CallRecord × Processors B σ :=
  (x.answer, x.shown.calls, x.after)

namespace Processors

/-- What comes of a run that kept a log. -/
def ofRun (ps : Processors B σ) (r : Run (σ × Shown) α) (answer : α → Answer R) : Step B R σ :=
  ⟨some (r.outcome.map answer), r.state.2, { ps with state := r.state.1 }⟩

/-- What comes of a change to a registry, after which the registries are `registries`. -/
def ofChange (v : Verbosity) (ps : Processors B σ) (c : Registry.Change B)
    (registries : List (Registry B)) : Step B R σ :=
  ⟨some (c.fault.elim (.ok (.registry c.registry.names c.registry.hasAsync)) .error),
    Shown.tell v {} (c.notes.map .note), { ps with registries := registries }⟩

section

variable (settings : Settings)
  (custom : List (Registry B) → Registry B → B → Mode → Arguments → Process σ Value)

/-- The engine of a processor. How a handler's body is performed may depend on everything that is
registered, since a handler may use any of the processors. -/
def engine (ps : Processors B σ) (r : Registry B) : Engine B σ :=
  ⟨r, settings, custom ps.registries r⟩

/-- What comes of the use of a processor. -/
def useOf (v : Verbosity) (ps : Processors B σ) (index : Nat) (r : Registry B) :
    Use B → Step B R σ
  | .add offer =>
    let c := r.add offer
    ps.ofChange v c (ps.registries.set index c.registry)
  | .clear =>
    let c := r.clear
    ps.ofChange v c (ps.registries.set index c.registry)
  | .parse source =>
    let e := (ps.engine settings custom r).switched v
    ps.ofRun (((e.parseSync source).logging v).run (ps.state, {})) .evaluated
  | .parseAsync source =>
    let e := (ps.engine settings custom r).switched v
    ps.ofRun (((e.parseAsync source).logging v).run (ps.state, {})) .evaluated
  | .walk tree =>
    let e := (ps.engine settings custom r).switched v
    ps.ofRun (((e.walkSync tree).logging v).run (ps.state, {})) .tree
  | .walkAsync tree =>
    let e := (ps.engine settings custom r).switched v
    ps.ofRun (e.walkLogging v tree (ps.state, {})) .tree

/-- What comes of an order at a verbosity. -/
def step (v : Verbosity) (ps : Processors B σ) : Order B R → Step B R σ
  | .make cwd defaults =>
    let c := Registry.new cwd defaults
    ps.ofChange v c (c.fault.elim (ps.registries ++ [c.registry]) fun _ => ps.registries)
  | .use index u =>
    (ps.registries[index]?).elim ⟨none, {}, ps⟩ fun r => ps.useOf settings custom v index r u
  | .register index offer isAsync builtin =>
    (ps.registries[index]?).elim ⟨none, {}, ps⟩ fun r =>
      let c := r.register offer isAsync builtin
      ps.ofChange v c (ps.registries.set index c.registry)
  | .ask index question =>
    ⟨(ps.registries[index]?).map fun r => (question r).map .told, {}, ps⟩

/-- What comes of orders one after another, where `V i` is the verbosity during the order at place
`i`. -/
def run (V : Nat → Verbosity) (ps : Processors B σ) : List (Order B R) → List (Step B R σ)
  | [] => []
  | o :: os =>
    let x := ps.step settings custom (V 0) o
    x :: run (fun i => V (i + 1)) x.after os

end

/-! ## What orders tell -/

/-- At every verbosity `f` gives the same answer, the same processors and what is seen of the same
journal. Its notes are those of the engine and of handlers that tell at levels with `P`, if
`tells P` says that they do. -/
def Uniform (f : Verbosity → Step B R σ) (tells : (Nat → Prop) → Prop) : Prop :=
  ∃ answer j after, (∀ v, f v = ⟨answer, Shown.tell v {} j, after⟩) ∧
    ∀ P, tells P → P 3 → ∀ e ∈ j, e.HasLevel P

namespace Uniform

variable {f : Verbosity → Step B R σ} {tells : (Nat → Prop) → Prop} {v w : Verbosity}

theorem effects_eq (h : Uniform f tells) (v w : Verbosity) : (f v).effects = (f w).effects := by
  obtain ⟨answer, j, after, hf, -⟩ := h
  simp only [hf, Step.effects, Shown.tell_eq]

theorem after_eq (h : Uniform f tells) (v w : Verbosity) : (f v).after = (f w).after :=
  congrArg (fun x => x.2.2) (h.effects_eq v w)

theorem excerpt (h : Uniform f tells) (htells : tells (· ≤ 3)) (v : Verbosity)
    (hw : w.shows 3 = true) : Excerpt v (tells (· = 3)) (f v).shown.log (f w).shown.log := by
  obtain ⟨answer, j, after, hf, hj⟩ := h
  simp only [hf, Shown.tell_eq, List.nil_append]
  exact excerpt_log (hj _ htells (by decide)) (fun hown => hj _ hown rfl) v hw

end Uniform

section

variable (ps : Processors B σ) (tells : (Nat → Prop) → Prop)

theorem uniform_idle (answer : Option (Except Fault (Answer R))) :
    Uniform (fun _ => ⟨answer, {}, ps⟩) tells :=
  ⟨answer, [], ps, fun _ => rfl, fun _ _ _ => by simp⟩

theorem uniform_ofChange {c : Registry.Change B} (hc : c.Quiet) (registries : List (Registry B)) :
    Uniform (R := R) (fun v => ps.ofChange v c registries) tells :=
  ⟨_, c.notes.map .note, _, fun _ => rfl, fun _ _ h3 => hc.events h3⟩

variable {tells}

theorem uniform_ofRun {run : Verbosity → Run (σ × Shown) α} {r : Run σ α}
    (hrun : ∀ v, run v = ⟨r.outcome, (r.state, Shown.tell v {} r.journal), []⟩)
    (answer : α → Answer R) (hj : ∀ P, tells P → P 3 → ∀ e ∈ r.journal, e.HasLevel P) :
    Uniform (fun v => ps.ofRun (run v) answer) tells :=
  ⟨some (r.outcome.map answer), r.journal, { ps with state := r.state },
    fun v => by simp only [ofRun, hrun], hj⟩

theorem uniform_ofProcess (p : Process σ α) (answer : α → Answer R)
    (hp : ∀ P, tells P → P 3 → p.TellsAt P) :
    Uniform (fun v => ps.ofRun ((p.logging v).run (ps.state, {})) answer) tells :=
  ps.uniform_ofRun (fun v => p.run_logging v ps.state {}) answer
    fun P hP h3 => (hp P hP h3).run ps.state

end

section

variable (settings : Settings)
  (custom : List (Registry B) → Registry B → B → Mode → Arguments → Process σ Value)

/-- The notes that handlers write are of levels with `P`, also those of engines that they use. -/
def HandlersTellAt (P : Nat → Prop) : Prop :=
  ∀ registries r body mode args, (custom registries r body mode args).TellsAt P

theorem uniform_useOf (ps : Processors B σ) (index : Nat) (r : Registry B) (u : Use B) :
    Uniform (R := R) (fun v => ps.useOf settings custom v index r u) (HandlersTellAt custom) := by
  -- `e` stands for all its switched versions : their runs are the same (`perform_switched`).
  let e := ps.engine settings custom r
  have he (P : Nat → Prop) (h : HandlersTellAt custom P) : e.TellsAt P := h ps.registries r
  cases u with
  | add offer => exact ps.uniform_ofChange _ (Registry.quiet_register _ _ _ _) _
  | clear => exact ps.uniform_ofChange _ (Registry.quiet_clear r) _
  | parse source =>
    exact ps.uniform_ofProcess (e.parseSync source) _ fun P h h3 => (he P h).parseSync h3 _
  | parseAsync source =>
    exact ps.uniform_ofProcess (e.parseAsync source) _ fun P h h3 => (he P h).parseAsync h3 _
  | walk tree =>
    exact ps.uniform_ofProcess (e.walkSync tree) _ fun P h h3 => (he P h).walkSync h3 _
  | walkAsync tree =>
    exact ps.uniform_ofRun (fun v => e.walkLogging_eq v tree ps.state {}) _
      fun P h h3 => (he P h).runWalkAsync h3 _ _

/-- An order does the same at all verbosities, and tells the same. -/
theorem uniform_step (ps : Processors B σ) (o : Order B R) :
    Uniform (fun v => ps.step settings custom v o) (HandlersTellAt custom) := by
  cases o with
  | make cwd defaults => exact ps.uniform_ofChange _ (Registry.quiet_clear _) _
  | use index u =>
    simp only [step]
    cases ps.registries[index]? with
    | none => exact ps.uniform_idle _ _
    | some r => exact ps.uniform_useOf settings custom index r u
  | register index offer isAsync builtin =>
    simp only [step]
    cases ps.registries[index]? with
    | none => exact ps.uniform_idle _ _
    | some r => exact ps.uniform_ofChange _ (Registry.quiet_register _ _ _ _) _
  | ask index question => exact ps.uniform_idle _ _

/-- What sessions of the same orders do is the same at all verbosities. -/
theorem effects_run (V W : Nat → Verbosity) (ps : Processors B σ) (os : List (Order B R)) :
    (ps.run settings custom V os).map Step.effects =
      (ps.run settings custom W os).map Step.effects := by
  induction os generalizing V W ps with
  | nil => rfl
  | cons o os ih =>
    have hstep := ps.uniform_step settings custom o
    rw [run, run, List.map_cons, List.map_cons, hstep.effects_eq (V 0) (W 0),
      hstep.after_eq (V 0) (W 0)]
    exact congrArg _ (ih _ _ _)

variable {custom} in
/-- The log of each order is an excerpt of what it is where the notes of engines are shown. -/
theorem excerpt_run (htells : HandlersTellAt custom (· ≤ 3)) (V W : Nat → Verbosity)
    (ps : Processors B σ) (os : List (Order B R)) {i : Nat} {x y : Step B R σ}
    (hx : (ps.run settings custom V os)[i]? = some x)
    (hy : (ps.run settings custom W os)[i]? = some y) (hw : (W i).shows 3 = true) :
    Excerpt (V i) (HandlersTellAt custom (· = 3)) x.shown.log y.shown.log := by
  induction os generalizing V W ps i with
  | nil => cases hx
  | cons o os ih =>
    have hstep := ps.uniform_step settings custom o
    rw [run] at hx hy
    cases i with
    | zero =>
      obtain rfl := Option.some.inj hx
      obtain rfl := Option.some.inj hy
      exact hstep.excerpt htells (V 0) hw
    | succ i =>
      rw [List.getElem?_cons_succ] at hx hy
      rw [hstep.after_eq (W 0) (V 0)] at hy
      exact ih (fun i => V (i + 1)) (fun i => W (i + 1)) _ hx hy hw

end

end Processors

/-! ## Scripted handlers -/

/-- A recipe writes the notes of what it expands, and no others. -/
theorem Recipe.tellsAt_process {P : Nat → Prop} {expand : Text → Process Shelf Text}
    (h : ∀ template, (expand template).TellsAt P) (r : Recipe) (args : Arguments) :
    (r.process expand args).TellsAt P := by
  have hkey (key : Text) {next : Value → Process Shelf Value} (hnext : ∀ v, (next v).TellsAt P) :
      (withKey key args next).TellsAt P := by
    unfold withKey
    split
    · exact hnext _
    · exact .fail _
  cases r with
  | attributes =>
    simp only [process, listing]
    split
    · exact .done _
    · exact .fail _
  | attributeAt key => exact hkey key .done
  | multiply key factor => exact hkey key fun v => .ofExcept _
  | count counter => exact .act _ fun _ => .done _
  | raise kind message => exact .fail _
  | report name detail => exact .fail _
  | failOn bad =>
    simp only [process]
    split
    · exact .fail _
    · exact .done _
  | expand template => exact (h template).bind fun t => .done (Value.text t)
  | signal => exact hkey _ fun v => .act _ fun _ => .done _
  | await => exact hkey _ fun v => .await _ (.done _) (.fail _)
  | _ => exact .done _

namespace Scripted

theorem tellsAt_perform {P : Nat → Prop} (h3 : P 3) (r : Registry Scripted) (settings : Settings) :
    ∀ depth b mode args, (perform r settings depth b mode args).TellsAt P
  | 0, b, _, args => b.recipe.tellsAt_process (fun _ => .fail _) args
  | depth + 1, b, mode, args => by
    have hengine : Engine.TellsAt P ⟨r, settings, perform r settings depth⟩ :=
      tellsAt_perform h3 r settings depth
    refine b.recipe.tellsAt_process (fun template => ?_) args
    refine Process.TellsAt.bind ?_ fun e => .done _
    cases mode with
    | direct => exact Engine.TellsAt.gated (hengine.textSync h3 template)
    | declared => exact hengine.textAsync h3 template
    | undeclared => exact hengine.textAsync h3 template

/-- Nor do scripted handlers look at the debug switch. -/
theorem perform_debug (r : Registry Scripted) (settings : Settings) (debug : Bool) : ∀ depth,
    perform r { settings with debug := debug } depth = perform r settings depth
  | 0 => rfl
  | depth + 1 => by
    funext b mode args
    rw [perform, perform, perform_debug r settings debug depth]
    rfl

end Scripted

/-- The order that an operation of a session is, on the processor at `index`. -/
def Operation.order (index : Nat) : Operation → Order Scripted Result
  | .add offer => .use index (.add offer)
  | .register offer isAsync builtin => .register index offer isAsync builtin
  | .clear => .use index .clear
  | .state => .ask index fun r => .ok (Session.stateOf r)
  | .parse source => .use index (.parse source)
  | .parseAsync source => .use index (.parseAsync source)
  | .object tree => .use index (.walk tree)
  | .objectAsync tree => .use index (.walkAsync tree)
  | .holds name => .ask index fun r => .ok (.flag (r.holds name))
  | .handler name =>
    .ask index fun r => (r.findValue? name).map fun spec => .handler (spec.map Spec.handler)
  | .spec name => .ask index fun r => (r.findValue? name).map .spec
  | .matches source => .ask index fun _ => (matchesOf source).map .matches
  | .hasOpening source => .ask index fun _ => (hasOpeningIn source).map .flag
  | .attributes raw => .ask index fun _ => (attributesOf raw).map .attributes

/-- The result of an operation that an answer is. -/
def Answer.result : Answer Result → Result
  | registry names hasAsync => .state names hasAsync
  | evaluated e => .evaluated e
  | tree v => .tree v
  | told r => r

namespace Session

/-- The processors of a session, with signals given anew. -/
def processors (s : Session) : Processors Scripted Shelf :=
  ⟨s.registries, { s.shelf with signals := [] }⟩

/-- What comes of an order at a verbosity is what an operation does. -/
structure Carries (v : Verbosity) (x : Processors.Step Scripted Result Shelf) (y : Step) :
    Prop where
  answer : x.answer.map (Except.map Answer.result) = some y.outcome
  shown : x.shown = Shown.tell v {} y.journal
  registries : x.after.registries = y.session.registries
  state : { x.after.state with signals := [] } = y.session.processors.state

variable (s : Session) (index : Nat) {v : Verbosity}

theorem carries_ofRun {α : Type} {run : Run (Shelf × Shown) α} {r : Run Shelf α}
    (h : run = ⟨r.outcome, (r.state, Shown.tell v {} r.journal), []⟩) {answer : α → Answer Result}
    {result : α → Result} (hresult : ∀ a, (answer a).result = result a) :
    Carries v (s.processors.ofRun run answer) (s.ofRun r result) := by
  subst h
  refine ⟨?_, rfl, rfl, rfl⟩
  cases ho : r.outcome <;> simp [Processors.ofRun, ofRun, ho, Except.map, hresult]

theorem carries_ofChange (c : Registry.Change Scripted) :
    Carries v (s.processors.ofChange v c (s.registries.set index c.registry))
      (s.ofChange index c) := by
  refine ⟨?_, rfl, rfl, rfl⟩
  rw [Processors.ofChange, ofChange]
  cases c.fault <;> rfl

theorem carries_ask (outcome : Except Fault Result) :
    Carries v ⟨some (outcome.map .told), {}, s.processors⟩ (s.ask outcome) := by
  refine ⟨?_, rfl, rfl, rfl⟩
  cases outcome <;> rfl

/-- A session of scripted handlers does what processors do that are given its orders, at any
verbosity. -/
theorem carries_order {r : Registry Scripted} (hr : s.registries[index]? = some r) (v : Verbosity)
    (op : Operation) :
    Carries v (s.processors.step s.settings
      (fun _ r => Scripted.perform r s.settings Scripted.nestingLimit) v (op.order index))
      (s.stepWith index r op) := by
  have hp : s.processors.registries[index]? = some r := hr
  cases op <;> simp only [Operation.order, Processors.step, hp, Option.elim_some, Option.map_some]
  case add offer => exact s.carries_ofChange index _
  case register offer isAsync builtin => exact s.carries_ofChange index _
  case clear => exact s.carries_ofChange index _
  case parse source => exact s.carries_ofRun (Process.run_logging v _ _ {}) fun _ => rfl
  case parseAsync source => exact s.carries_ofRun (Process.run_logging v _ _ {}) fun _ => rfl
  case object tree => exact s.carries_ofRun (Process.run_logging v _ _ {}) fun _ => rfl
  case objectAsync tree => exact s.carries_ofRun (Engine.walkLogging_eq v _ tree _ {}) fun _ => rfl
  all_goals exact s.carries_ask _

/-- It does not look at the debug switch. -/
theorem stepWith_debug (r : Registry Scripted) (debug : Bool) (op : Operation) :
    let t : Session := { s with settings := { s.settings with debug := debug } }
    let x := t.stepWith index r op
    let y := s.stepWith index r op
    x.outcome = y.outcome ∧ x.journal = y.journal ∧
      x.session = { y.session with settings := t.settings } := by
  simp only [stepWith, Scripted.engine, Scripted.perform_debug]
  cases op <;> exact ⟨rfl, rfl, rfl⟩

end Session

end TagTemplate
