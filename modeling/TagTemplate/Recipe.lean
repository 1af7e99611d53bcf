import TagTemplate.Engine

/-!
# Handlers by recipe

A `Recipe` describes a handler as data : what it returns, raises or waits for. Recipes share
a `Shelf`, which counts the calls of counting handlers and holds the signals given so far.

`Recipe.process` is the process of a recipe's body. A recipe may expand a template of its
own with the engine that called it, so the process is given the way to expand; `Scripted.engine`
ties the knot, with a bound on how deep expansions nest.
-/

namespace TagTemplate

/-- What a handler does. -/
inductive Recipe where
  /-- It returns a value. -/
  | const (value : Value)
  /-- It returns the content. -/
  | content
  /-- It returns the content between two texts. -/
  | wrap (pre post : Text)
  /-- It returns the content with ASCII letters in upper case. -/
  | upper
  /-- It returns the content backwards. -/
  | reverse
  /-- It returns the length of the content. -/
  | length
  /-- It returns the tag as written, between angle brackets. -/
  | written
  /-- It lists the attributes with their values. -/
  | attributes
  /-- It lists the attributes with the kinds of their values. -/
  | kinds
  /-- It returns an attribute. -/
  | attributeAt (key : Text)
  /-- It returns an attribute times a value. -/
  | multiply (key : Text) (factor : Value)
  /-- It returns how often it has been called; `counter` tells counting handlers apart. -/
  | count (counter : Nat)
  /-- It raises a fault of a class, made with a value. -/
  | raise (kind : Fault.Kind) (message : Value)
  /-- It reports a failure under a name of its own. -/
  | report (name : Text) (detail : Option Text)
  /-- It fails on one content and returns every other. -/
  | failOn (bad : Text)
  /-- It returns what a template expands to. -/
  | expand (template : Text)
  /-- It gives a signal. -/
  | signal
  /-- It waits for a signal. -/
  | await
deriving Repr

/-- What handlers by recipe share. -/
structure Shelf where
  /-- How often each counting handler has been called. -/
  counts : List (Nat × Nat) := []
  /-- The signals given so far. -/
  signals : List Value := []

namespace Shelf

/-- How often a counting handler has been called. -/
def countOf (counter : Nat) (s : Shelf) : Nat :=
  (s.counts.lookup counter).getD 0

/-- The shelf after one more call of a counting handler. -/
def increment (counter : Nat) (s : Shelf) : Shelf :=
  { s with counts := (counter, s.countOf counter + 1) :: s.counts.filter (·.1 != counter) }

/-- The shelf with one more signal. -/
def give (signal : Value) (s : Shelf) : Shelf :=
  { s with signals := signal :: s.signals }

/-- Whether a signal has been given. -/
def hasSignal (signal : Value) (s : Shelf) : Bool :=
  s.signals.any fun v => v.same signal

end Shelf

/-- The greatest count of anything. -/
def countLimit : Nat := Nat.pow 2 63 - 1

/-- The length from which on a text does not fit in memory. -/
def memoryLimit : Nat := Nat.pow 2 40

/-- A text repeated `n` times, which is the empty text if `n` is not positive. -/
def repeated (s : Text) (n : Int) : Except Fault Text :=
  if n < -(countLimit + 1 : Int) ∨ (countLimit : Int) < n then .error .repeatedTooOften
  else if countLimit < n.toNat * s.length then .error .repeatedTooLong
  else if memoryLimit ≤ n.toNat * s.length then .error .outOfMemory
  else if s.isEmpty then .ok []
  else .ok (List.replicate n.toNat s).flatten

/-- The floating-point number that a number counts as. -/
def Value.asFloat? : Value → Except Fault (Option Binary64)
  | .float x => .ok (some x)
  | v =>
    match v.asInt?.map Binary64.ofInt with
    | some (.infinite _) => .error .integerTooLarge
    | y => .ok y

/-- A text times a value, which has to be an integer. -/
def timesText (s : Text) (v : Value) : Except Fault Value :=
  match v.asInt? with
  | some n => (repeated s n).map .text
  | none => .error (.raised .type
      s!"can't multiply sequence by non-int of type '{v.kindName}'".toList)

/-- The product of two values : of two numbers, or a text as many times as the other says. -/
def Value.times (v w : Value) : Except Fault Value :=
  match v, w with
  | .text s, w => timesText s w
  | v, .text s => timesText s v
  | v, w =>
    match v.asInt?, w.asInt? with
    | some m, some n => .ok (.int (m * n))
    | _, _ => do
      match ← v.asFloat?, ← w.asFloat? with
      | some x, some y => .ok (.float (x.mul y))
      | _, _ => .error (.raised .type
          s!"unsupported operand type(s) for *: '{v.kindName}' and '{w.kindName}'".toList)

namespace Recipe

/-- The texts with a separator between each two. -/
def joined (separator : Text) (ps : List Text) : Text :=
  separator.intercalate ps

/-- The process that goes on with an attribute, and fails if it is not there. -/
def withKey (key : Text) (args : Arguments) (next : Value → Process Shelf Value) :
    Process Shelf Value :=
  match args.attributes.get? key with
  | some v => next v
  | none => .fail (.missingKey key)

/-- The attribute that names a signal. -/
def signalKey : Text := ['k', 'e', 'y']

/-- The attributes with their values. -/
def listing (attributes : Attributes) : Process Shelf Value :=
  match attributes.mapM (fun a => a.2.shown?.map fun v => a.1 ++ ':' :: v) with
  | some ps => .done (.text (joined [',', ' '] ps))
  | none => .fail .integerTooLong

/-- The fault of a class that is worded by a text, or that cannot be worded where there is
none. -/
def faultOf (kind : Fault.Kind) (wording : Option Text) : Fault :=
  match wording with
  | some text => .raised kind text
  | none => .unworded kind ⟨.value, Fault.Kind.noConfusion⟩ Fault.overlongText

/-- The fault of a class that is made with a value. Its wording is the value's text, and of a key
the literal; that of a name is made together with the fault. -/
def raised (kind : Fault.Kind) (message : Value) : Fault :=
  match kind with
  | .key => faultOf .key message.literal?
  | .invalidName => message.literal?.elim .integerTooLong .invalidName
  | _ => faultOf kind message.shown?

/-- The body of a recipe. -/
def process (expand : Text → Process Shelf Text) (r : Recipe) (args : Arguments) :
    Process Shelf Value :=
  match r with
  | const v => .done v
  | content => .done (.text args.content)
  | wrap pre post => .done (.text (pre ++ args.content ++ post))
  | upper => .done (.text (args.content.map upperAscii))
  | reverse => .done (.text args.content.reverse)
  | length => .done (.int args.content.length)
  | written => .done (.text ('<' :: args.written ++ ['>']))
  | attributes => listing args.attributes
  | kinds =>
    .done (.text (joined [','] (args.attributes.map fun a => a.1 ++ '=' :: a.2.kindName.toList)))
  | attributeAt key => withKey key args .done
  | multiply key factor => withKey key args fun v => .ofExcept (v.times factor)
  | count counter =>
    .act (Shelf.increment counter) fun s => .done (.int (s.countOf counter + 1 : Nat))
  | raise kind message => .fail (raised kind message)
  | report name detail => .fail (.reported name args.written detail)
  | failOn bad =>
    if args.content = bad then .fail (.raised .value ("bad content: ".toList ++ args.content))
    else .done (.text args.content)
  | .expand template => (expand template).bind fun t => .done (.text t)
  | signal =>
    withKey signalKey args fun v =>
      .act (Shelf.give v) fun _ => .done (.ofString "signalled")
  | await =>
    withKey signalKey args fun v =>
      .await (Shelf.hasSignal v) (.done (.ofString "waited")) (.fail .neverSignalled)

end Recipe

/-- A handler by recipe with a label to know it by. -/
structure Scripted where
  /-- What it does. -/
  recipe : Recipe
  /-- How it is known. -/
  label : Text
deriving Repr

namespace Scripted

/-- How deep expansions may nest. -/
def nestingLimit : Nat := 200

/-- How a scripted handler is performed with `depth` expansions left inside each other. Its
template is expanded the way it hands over its result : synchronously if directly, and
asynchronously if it is awaited. -/
def perform (registry : Registry Scripted) (settings : Settings) :
    Nat → Scripted → Mode → Arguments → Process Shelf Value
  | 0, b, _, args => b.recipe.process (fun _ => .fail .tooDeep) args
  | depth + 1, b, mode, args =>
    let engine : Engine Scripted Shelf := ⟨registry, settings, perform registry settings depth⟩
    let expand (template : Text) : Process Shelf Text :=
      (match mode with
        | .direct => engine.gated (engine.textSync template)
        | _ => engine.textAsync template).bind fun r => .done r.text
    b.recipe.process expand args

/-- The engine of a registry of scripted handlers. -/
def engine (registry : Registry Scripted) (settings : Settings) : Engine Scripted Shelf :=
  ⟨registry, settings, perform registry settings nestingLimit⟩

end Scripted

end TagTemplate
