import TagTemplate.Handler
import TagTemplate.Value.Shown

/-!
# The registry

Handlers by name, in the order in which the names were first registered. A registry starts
with the engine's own handlers, followed by the defaults it was made with, and `clear`
brings it back there. It also remembers whether an asynchronous handler has been
registered since it was last empty, even if that handler has been replaced.

Every operation answers with a `Change` : the registry afterwards, what was noted, and the
fault if it failed.
-/

namespace TagTemplate

/-- What is asked to be registered. -/
structure Offer (B : Type) where
  /-- The name, which may turn out to be no name. -/
  name : Value
  /-- The handler; nothing if what was given cannot be called. -/
  handler : Option (Handler B)
  /-- What it is for. -/
  description : Text := []

/-- Offers under keys of which the same one occurs once : a later offer takes the place of
an earlier one with the same key. -/
def Offer.distinct {B : Type} (offers : List (Offer B)) : List (Offer B) :=
  offers.foldl (fun kept o => put o kept) []
where
  /-- Puts an offer at the place of the one with the same key, or at the end. -/
  put (o : Offer B) : List (Offer B) → List (Offer B)
    | [] => [o]
    | p :: rest => if p.name.same o.name then { o with name := p.name } :: rest else p :: put o rest

/-- Handlers by name. -/
structure Registry (B : Type) where
  /-- The working directory, if one was given. -/
  cwd : Option Text
  /-- What is registered on top of the engine's own handlers. -/
  defaults : List (Offer B)
  /-- The registered handlers, in order. -/
  specs : List (Spec B)
  /-- Whether an asynchronous handler was registered since the registry was last empty. -/
  hasAsync : Bool

/-- A registry after an operation. -/
structure Registry.Change (B : Type) where
  /-- The registry as the operation leaves it. -/
  registry : Registry B
  /-- What was noted. -/
  notes : List Note
  /-- Why the operation failed, if it did. -/
  fault : Option Fault

namespace Registry

variable {B : Type}

/-! ## Looking up -/

/-- The handler registered under exactly this name. -/
def findExact? (name : Text) : List (Spec B) → Option (Spec B)
  | [] => none
  | s :: rest => if s.name = name then some s else findExact? name rest

/-- The handler registered under a name, blanks around it aside. -/
def find? (r : Registry B) (name : Text) : Option (Spec B) :=
  findExact? (trim name) r.specs

/-- The look-up by any value. Bytes name nothing, and other values that are no text cannot be
trimmed. -/
def findValue? (r : Registry B) : Value → Except Fault (Option (Spec B))
  | .text name => .ok (r.find? name)
  | .bytes _ => .ok none
  | v => .error (.noTextName v.kindName)

/-- Whether a value names a registered handler. -/
def holds (r : Registry B) : Value → Bool
  | .text name => (r.find? name).isSome
  | _ => false

/-- The registered names, in order. -/
def names (r : Registry B) : List Text :=
  r.specs.map Spec.name

/-! ## Registering -/

/-- The handlers with `spec` under its name : at the place of the one that has the name, or
at the end. -/
def putSpec (spec : Spec B) : List (Spec B) → List (Spec B)
  | [] => [spec]
  | s :: rest => if s.name = spec.name then spec :: rest else s :: putSpec spec rest

/-- Puts a handler under its name. -/
def put (r : Registry B) (spec : Spec B) : Registry B :=
  { r with specs := putSpec spec r.specs, hasAsync := r.hasAsync || spec.isAsync }

/-- The fault of a value that is no name. It shows the value as a literal, if there is one. -/
def badName (v : Value) : Fault :=
  match v.literal? with
  | some shown => .invalidName shown
  | none => .integerTooLong

/-- Registers a handler with the given marks. -/
def register (r : Registry B) (offer : Offer B) (isAsync builtin : Bool) : Change B :=
  match offer.name with
  | .text name =>
    if isName name then
      match offer.handler with
      | some handler =>
        ⟨r.put ⟨name, handler, isAsync, builtin, offer.description⟩,
          [.registered name isAsync], none⟩
      | none => ⟨r, [], some (.notCallable name)⟩
    else ⟨r, [], some (badName offer.name)⟩
  | v => ⟨r, [], some (badName v)⟩

/-- Registers a handler from outside, marked asynchronous if it is declared so. -/
def add (r : Registry B) (offer : Offer B) : Change B :=
  r.register offer (offer.handler.any Handler.isDeclaredAsync) false

/-- Does an operation after a change, unless the change failed. -/
def Change.thenDo (c : Change B) (op : Registry B → Change B) : Change B :=
  match c.fault with
  | some _ => c
  | none =>
    let next := op c.registry
    { next with notes := c.notes ++ next.notes }

/-- The engine's own handlers. -/
def builtins : List (Offer B) :=
  [⟨.ofString "cwd", some (.builtin .cwd),
      "Working directory the engine was configured with".toList⟩,
    ⟨.ofString "date", some (.builtin .date),
      "Current date, formatted per the host locale".toList⟩,
    ⟨.ofString "time", some (.builtin .time),
      "Current time, formatted per the host locale".toList⟩]

/-- Drops every handler, then registers the engine's own and the defaults. -/
def clear (r : Registry B) : Change B :=
  let empty : Change B := ⟨{ r with specs := [], hasAsync := false }, [], none⟩
  let own := builtins.foldl (fun c o => c.thenDo fun r => r.register o false true) empty
  r.defaults.foldl (fun c o => c.thenDo fun r => r.add o) own

/-- A registry with a working directory and defaults. -/
def new (cwd : Option Text) (defaults : List (Offer B)) : Change B :=
  clear ⟨cwd, defaults, [], false⟩

end Registry

end TagTemplate
