import TagTemplate.Journal
import TagTemplate.Tag.Reading

/-!
# Handlers

A handler is one of the engine's own or is supplied from outside. One from outside has a
body, of a type `B` that the engine does not look into, and hands its result over in one
of three ways (`Mode`). A `Spec` is a handler with what is kept about it under a name.
-/

namespace TagTemplate

/-- How a handler hands over its result. -/
inductive Mode where
  /-- It returns the result. -/
  | direct
  /-- It is declared to return something to be awaited for the result. -/
  | declared
  /-- It returns something to be awaited without being declared so. -/
  | undeclared
deriving Repr, DecidableEq

/-- The handlers of the engine itself. -/
inductive Builtin where
  /-- The working directory. -/
  | cwd
  /-- The current date. -/
  | date
  /-- The current time. -/
  | time
deriving Repr, DecidableEq

/-- A handler. -/
inductive Handler (B : Type) where
  /-- One of the engine's own. -/
  | builtin (b : Builtin)
  /-- One from outside. -/
  | custom (body : B) (mode : Mode)
deriving Repr

namespace Handler

variable {B : Type}

/-- Whether the handler is declared asynchronous. -/
def isDeclaredAsync : Handler B → Bool
  | builtin _ => false
  | custom _ mode => mode == .declared

/-- Whether the handler's result has to be awaited. -/
def isAwaited : Handler B → Bool
  | builtin _ => false
  | custom _ mode => mode != .direct

/-- Whether the handler is one of the engine's own. -/
def isBuiltin : Handler B → Bool
  | builtin _ => true
  | custom _ _ => false

end Handler

/-- A registered handler. -/
structure Spec (B : Type) where
  /-- The name of its tags. -/
  name : Text
  /-- The handler. -/
  handler : Handler B
  /-- Whether it counts as asynchronous. -/
  isAsync : Bool
  /-- Whether it counts as one of the engine's own. -/
  builtin : Bool
  /-- What it is for. -/
  description : Text
deriving Repr

/-- What a handler is called with. -/
structure Arguments where
  /-- The content, with the tags inside already replaced. -/
  content : Text
  /-- The attributes. -/
  attributes : Attributes
  /-- The tag as written. -/
  written : Text
deriving Repr

/-- A handler to be called and what to call it with. -/
structure Call (B : Type) extends Arguments where
  /-- The handler with its name. -/
  spec : Spec B

/-- The record of a call. -/
def Call.toRecord {B : Type} (c : Call B) : CallRecord :=
  ⟨c.spec.handler.isBuiltin, c.spec.name, c.content, c.attributes, c.written⟩

end TagTemplate
