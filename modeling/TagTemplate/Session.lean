import TagTemplate.Recipe

/-!
# Sessions

A session is a number of engines that share their settings and their shelf, and a sequence
of operations on them. `Session.step` does one operation : it answers with a result or a
fault, tells what happened, and leaves the session as it is for the next one. Signals are
given anew in every operation; the counts of counting handlers are kept.
-/

namespace TagTemplate

/-- An operation on an engine. -/
inductive Operation where
  /-- Registers a handler, marked asynchronous if it is declared so. -/
  | add (offer : Offer Scripted)
  /-- Registers a handler with marks of its own. -/
  | register (offer : Offer Scripted) (isAsync builtin : Bool)
  /-- Brings the registry back to its start. -/
  | clear
  /-- Asks for the registered names. -/
  | state
  /-- Evaluates a source synchronously. -/
  | parse (source : Value)
  /-- Evaluates a source asynchronously. -/
  | parseAsync (source : Value)
  /-- Walks a tree synchronously. -/
  | object (tree : Value)
  /-- Walks a tree asynchronously. -/
  | objectAsync (tree : Value)
  /-- Asks whether a name is registered. -/
  | holds (name : Value)
  /-- Asks for the handler of a name. -/
  | handler (name : Value)
  /-- Asks for what is kept about the handler of a name. -/
  | spec (name : Value)
  /-- Asks for the matches of a source. -/
  | matches (source : Value)
  /-- Asks for the quick test on a source. -/
  | hasOpening (source : Value)
  /-- Asks for the attributes of an attribute text. -/
  | attributes (raw : Value)

/-- The result of an operation. -/
inductive Result where
  /-- The registry's names and whether it counts as asynchronous. -/
  | state (names : List Text) (hasAsync : Bool)
  /-- An evaluated text. -/
  | evaluated (e : Evaluated)
  /-- A tree. -/
  | tree (v : Value)
  /-- A yes or no. -/
  | flag (b : Bool)
  /-- The handler of a name, if it has one. -/
  | handler (h : Option (Handler Scripted))
  /-- What is kept about the handler of a name, if it has one. -/
  | spec (s : Option (Spec Scripted))
  /-- Matches. -/
  | matches (ms : List Match)
  /-- Attributes. -/
  | attributes (as : Attributes)

/-- Engines that share settings and shelf. -/
structure Session where
  /-- The settings. -/
  settings : Settings
  /-- The registries of the engines. -/
  registries : List (Registry Scripted)
  /-- What the handlers share. -/
  shelf : Shelf := {}

/-- How an engine of a session is made. -/
structure Setup where
  /-- The working directory, if one is given. -/
  cwd : Option Text := none
  /-- What is registered on top of the engine's own handlers. -/
  defaults : List (Offer Scripted) := []
  /-- Whether the working directory of the settings is left out of account. -/
  bare : Bool := false

namespace Registry

/-- The registry that a setup makes. The working directory falls back to that of the
settings. In a bare setup it does not, and the registry takes the place of one that was made
without defaults just before. -/
def ofSetup (settings : Settings) (setup : Setup) : Change Scripted :=
  if setup.bare then
    let first : Change Scripted := new (some settings.cwd) []
    first.thenDo fun _ => new (setup.cwd.filter fun d => !d.isEmpty) setup.defaults
  else new (some (setup.cwd.getD settings.cwd)) setup.defaults

end Registry

namespace Session

/-- Makes the registries of a session, one after another; the first fault ends it. -/
def makeRegistries (settings : Settings) :
    List Setup → Except Fault (List (Registry Scripted) × List Note)
  | [] => .ok ([], [])
  | setup :: rest => do
    let change := Registry.ofSetup settings setup
    if let some f := change.fault then throw f
    let (registries, notes) ← makeRegistries settings rest
    return (change.registry :: registries, change.notes ++ notes)

/-- Opens a session. -/
def start (settings : Settings) (setups : List Setup) : Except Fault (Session × Journal) := do
  let (registries, notes) ← makeRegistries settings setups
  return (⟨settings, registries, {}⟩, notes.map .note)

/-- What an operation answers, what happened and the session after it. -/
structure Step where
  /-- The result or the fault. -/
  outcome : Except Fault Result
  /-- What happened. -/
  journal : Journal
  /-- The session afterwards. -/
  session : Session

/-- The result that tells the state of a registry. -/
def stateOf (r : Registry Scripted) : Result :=
  .state r.names r.hasAsync

/-- The step of an operation that only asks. -/
def ask (s : Session) (outcome : Except Fault Result) : Step :=
  ⟨outcome, [], s⟩

/-- The step of a run. -/
def ofRun {α : Type} (s : Session) (r : Run Shelf α) (result : α → Result) : Step :=
  ⟨r.outcome.map result, r.journal, { s with shelf := r.state }⟩

/-- The step of a change to the registry at `index`. -/
def ofChange (s : Session) (index : Nat) (c : Registry.Change Scripted) : Step :=
  ⟨match c.fault with
    | some f => .error f
    | none => .ok (stateOf c.registry),
    c.notes.map .note, { s with registries := s.registries.set index c.registry }⟩

/-- Does one operation with the registry at `index`. -/
def stepWith (s : Session) (index : Nat) (registry : Registry Scripted) (op : Operation) :
    Step :=
  let engine := Scripted.engine registry s.settings
  let shelf := { s.shelf with signals := [] }
  match op with
  | .add offer => s.ofChange index (registry.add offer)
  | .register offer isAsync builtin =>
    s.ofChange index (registry.register offer isAsync builtin)
  | .clear => s.ofChange index registry.clear
  | .state => s.ask (.ok (stateOf registry))
  | .parse source => s.ofRun ((engine.parseSync source).run shelf) .evaluated
  | .parseAsync source => s.ofRun ((engine.parseAsync source).run shelf) .evaluated
  | .object tree => s.ofRun ((engine.walkSync tree).run shelf) .tree
  | .objectAsync tree => s.ofRun (engine.runWalkAsync tree shelf) .tree
  | .holds name => s.ask (.ok (.flag (registry.holds name)))
  | .handler name =>
    s.ask ((registry.findValue? name).map fun spec => .handler (spec.map Spec.handler))
  | .spec name => s.ask ((registry.findValue? name).map .spec)
  | .matches source => s.ask ((matchesOf source).map .matches)
  | .hasOpening source => s.ask ((hasOpeningIn source).map .flag)
  | .attributes raw => s.ask ((attributesOf raw).map .attributes)

/-- Does one operation on the engine at `index`; nothing happens if there is none. -/
def step (s : Session) (index : Nat) (op : Operation) : Option Step :=
  (s.registries[index]?).map fun registry => s.stepWith index registry op

end Session

end TagTemplate
