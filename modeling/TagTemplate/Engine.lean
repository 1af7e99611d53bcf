import TagTemplate.Evaluation
import TagTemplate.Registry
import TagTemplate.Settings
import TagTemplate.Tree

/-!
# The engine

An engine is a registry together with the settings and with the way the handlers from
outside are performed. It evaluates texts and walks trees, synchronously and
asynchronously. A synchronous run is refused as a whole while the registry remembers an
asynchronous handler, whether or not the input uses it.

The operations take any value as a source. One that is no text fails as soon as it is
scanned (`Value.scanned`).
-/

namespace TagTemplate

/-- The text of a value that is to be scanned. -/
def Value.scanned : Value → Except Fault Text
  | .text s => .ok s
  | .bytes _ => .error .bytesNotText
  | v => .error (.notText v.kindName)

/-- Whether a value counts as nothing where an optional text is expected. -/
def Value.isEmptyOrZero : Value → Bool
  | .null => true
  | .bool b => !b
  | .int n => n == 0
  | .float x => x.equalsInt 0
  | .text s => s.isEmpty
  | .bytes b => b.isEmpty
  | .list items => items.isEmpty
  | .tuple items => items.isEmpty
  | .dict entries => entries.isEmpty
  | .view entries => entries.isEmpty
  | .timestamp _ _ => false
  | .set _ members => members.isEmpty

/-- The matches of a source. -/
def matchesOf (source : Value) : Except Fault (List Match) := do
  let reading ← Reading.matchesOfText (← source.scanned)
  return reading.matches

/-- The quick test on a source. -/
def hasOpeningIn (source : Value) : Except Fault Bool := do
  return hasOpening (← source.scanned)

/-- The attributes of an attribute text that may be absent. -/
def attributesOf (raw : Value) : Except Fault Attributes := do
  if raw.isEmptyOrZero then return []
  Attributes.read (← raw.scanned)

/-- What an attribute's text stands for. -/
def coerceOf (source : Value) : Except Fault Value := do
  coerce (← source.scanned)

/-- Whether a value is a name. -/
def isNameValue : Value → Bool
  | .text s => isName s
  | _ => false

/-- A registry with what is needed to call its handlers. -/
structure Engine (B σ : Type) where
  /-- The handlers by name. -/
  registry : Registry B
  /-- The settings. -/
  settings : Settings
  /-- How the body of a handler from outside is performed. -/
  custom : B → Mode → Arguments → Process σ Value

namespace Engine

variable {B σ : Type}

/-- How a handler of the engine itself is performed. -/
def own (e : Engine B σ) : Builtin → Except Fault Value
  | .cwd => .ok (.text (e.registry.cwd.getD []))
  | .date => e.settings.dateNow.map .text
  | .time => e.settings.timeNow.map .text

/-- How a call is performed. -/
def perform (e : Engine B σ) (c : Call B) : Process σ Value :=
  match c.spec.handler with
  | .builtin b => .ofExcept (e.own b)
  | .custom body mode => e.custom body mode c.toArguments

/-- The synchronous evaluation of a text. -/
def textSync (e : Engine B σ) (source : Text) : Process σ Evaluated :=
  evaluateSync e.perform e.registry.find? source

/-- The asynchronous evaluation of a text. -/
def textAsync (e : Engine B σ) (source : Text) : Process σ Evaluated :=
  evaluateAsync e.perform e.registry.find? source

/-- A synchronous run, refused while an asynchronous handler is registered. -/
def gated {α : Type} (e : Engine B σ) (p : Process σ α) : Process σ α :=
  if e.registry.hasAsync then .fail .asyncRegistered else p

/-- The synchronous evaluation of a source. -/
def parseSync (e : Engine B σ) (source : Value) : Process σ Evaluated :=
  e.gated ((Process.ofExcept source.scanned).bind e.textSync)

/-- The asynchronous evaluation of a source. -/
def parseAsync (e : Engine B σ) (source : Value) : Process σ Evaluated :=
  (Process.ofExcept source.scanned).bind e.textAsync

/-- The synchronous walk through a tree. -/
def walkSync (e : Engine B σ) (tree : Value) : Process σ Value :=
  e.gated (tree.walkSync hasOpening fun s => (e.textSync s).bind fun r => .done r.text)

/-- The run of the asynchronous walk through a tree. -/
def runWalkAsync (e : Engine B σ) (tree : Value) (s : σ) : Run σ Value :=
  tree.runAsync hasOpening (fun s => (e.textAsync s).bind fun r => .done r.text) s

end Engine

end TagTemplate
