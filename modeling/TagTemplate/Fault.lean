import TagTemplate.Text.Quoted
import TagTemplate.Value

/-!
# Faults

Everything that can end an evaluation, a registration or a look-up. A fault is its cause;
`Fault.kind` classes it and `Fault.wording` words it, which may itself fail. A fault that a
handler ended with is reported together with the tag it was called for (`Fault.handler`), and
the report has the fault's wording in it : where there is none, the fault of the wording takes
the place of both. An abort is the one fault that is no ordinary one and passes every boundary
that contains the others.
-/

namespace TagTemplate

/-- The classes of faults. -/
inductive Fault.Kind where
  /-- A value out of the range that an operation takes. -/
  | value
  /-- A value of a kind that an operation does not take. -/
  | type
  /-- A key that is not there. -/
  | key
  /-- A position that is not there. -/
  | index
  /-- A failure of the run itself. -/
  | runtime
  /-- An operation that a value does not have. -/
  | attribute
  /-- A number beyond what an operation takes. -/
  | overflow
  /-- A result that no memory holds. -/
  | memory
  /-- Expansions nested too deep. -/
  | recursion
  /-- A general fault of tag evaluation. -/
  | tag
  /-- A name that no tag can have. -/
  | invalidName
  /-- An asynchronous handler where none is allowed. -/
  | asyncNotAllowed
  /-- A handler that failed. -/
  | handler
  /-- A setting that is not valid. -/
  | setting
  /-- An order to stop. -/
  | abort
deriving Repr, DecidableEq

/-- The causes of faults. -/
inductive Fault where
  /-- A numeral to read has more digits than the limit. -/
  | numeralTooLong (digits : Nat)
  /-- An integer to write has more digits than the limit. -/
  | integerTooLong
  /-- Something that is no text was given to be scanned. -/
  | notText (kind : String)
  /-- Bytes were given to be scanned. -/
  | bytesNotText
  /-- A name that is no text was looked up. -/
  | noTextName (kind : String)
  /-- A date or time format holds a NUL. -/
  | embeddedNul
  /-- A name, shown as a literal, that no tag can have. -/
  | invalidName (shown : Text)
  /-- What was to be registered under a name cannot be called. -/
  | notCallable (name : Text)
  /-- A synchronous run while an asynchronous handler is registered. -/
  | asyncRegistered
  /-- A handler answered a synchronous run with an awaitable. -/
  | awaitableReturned (name : Text)
  /-- A handler ended with an ordinary fault. -/
  | handler (name written : Text) (cause : Fault)
  /-- A handler reported a failure of its own making. -/
  | reported (name written : Text) (detail : Option Text)
  /-- An attribute that a handler needs is not there. -/
  | missingKey (key : Text)
  /-- A signal waited for was never given. -/
  | neverSignalled
  /-- A product is beyond every floating-point number. -/
  | integerTooLarge
  /-- A text is to be repeated more often than anything can be counted. -/
  | repeatedTooOften
  /-- A repeated text is longer than anything can be counted. -/
  | repeatedTooLong
  /-- A repeated text does not fit in memory. -/
  | outOfMemory
  /-- Expansions are nested too deep. -/
  | tooDeep
  /-- A setting is not valid. -/
  | invalidSetting
  /-- A fault of a class, with its wording. -/
  | raised (kind : Fault.Kind) (text : Text)
  /-- A fault of a class that cannot be worded : trying to raises an ordinary fault of a class,
  with a wording. -/
  | unworded (kind : Fault.Kind) (failure : {k : Fault.Kind // k ≠ .abort}) (text : Text)
deriving Repr, DecidableEq

namespace Fault

/-- The class of a fault. -/
def kind : Fault → Kind
  | numeralTooLong _ | integerTooLong | embeddedNul => .value
  | notText _ | bytesNotText | notCallable _ => .type
  | noTextName _ => .attribute
  | invalidName _ => .invalidName
  | asyncRegistered | awaitableReturned _ => .asyncNotAllowed
  | handler .. | reported .. => .handler
  | missingKey _ => .key
  | neverSignalled => .runtime
  | integerTooLarge | repeatedTooOften | repeatedTooLong => .overflow
  | outOfMemory => .memory
  | tooDeep => .recursion
  | invalidSetting => .setting
  | raised k _ | unworded k _ _ => k

/-- Whether a fault is an ordinary one, which a boundary contains. -/
def isOrdinary (f : Fault) : Bool :=
  f.kind != .abort

/-- Whether a fault already names the tag whose handler failed. -/
def namesHandler (f : Fault) : Bool :=
  f.kind == .handler

/-- The limit on numerals, as messages give it. -/
def limitText : String :=
  s!"Exceeds the limit ({digitLimit} digits) for integer string conversion"

/-- The way out of the limit, as messages give it. -/
def limitAdvice : String :=
  "; use sys.set_int_max_str_digits() to increase the limit"

/-- The beginning of every message about a handler that failed. -/
def handlerText (name written : Text) : Text :=
  "Handler for '".toList ++ name ++ "' failed on ".toList ++ quoted written

/-- What is said of an integer that is too long to be written. -/
def overlongText : Text :=
  (limitText ++ limitAdvice).toList

/-- The wording of a fault, or the fault that is raised in its place. -/
def wording : Fault → Except Fault Text
  | numeralTooLong n => .ok s!"{limitText}: value has {n} digits{limitAdvice}".toList
  | integerTooLong => .ok overlongText
  | notText kind => .ok s!"expected string or bytes-like object, got '{kind}'".toList
  | bytesNotText => .ok "cannot use a string pattern on a bytes-like object".toList
  | noTextName kind => .ok s!"'{kind}' object has no attribute 'strip'".toList
  | embeddedNul => .ok "embedded null character".toList
  | invalidName shown => .ok ("Invalid shortcode name: ".toList ++ shown)
  | notCallable name => .ok ("Handler for '".toList ++ name ++ "' is not callable".toList)
  | asyncRegistered =>
    .ok "Synchronous parsing is not possible when async shortcodes are present".toList
  | awaitableReturned name =>
    .ok ("Handler for '".toList ++ name ++
      "' returned an awaitable during synchronous parsing".toList)
  | handler name written cause =>
    cause.wording.map fun text => handlerText name written ++ ": ".toList ++ text
  | reported name written none => .ok (handlerText name written)
  | reported name written (some detail) =>
    .ok (handlerText name written ++ ": ".toList ++ detail)
  | missingKey key => .ok (quoted key)
  | neverSignalled => .ok "never signalled".toList
  | integerTooLarge => .ok "int too large to convert to float".toList
  | repeatedTooOften => .ok "cannot fit 'int' into an index-sized integer".toList
  | repeatedTooLong => .ok "repeated string is too long".toList
  | outOfMemory => .ok []
  | tooDeep => .ok "maximum recursion depth exceeded".toList
  | invalidSetting => .ok []
  | raised _ text => .ok text
  | unworded _ failure text => .error (.raised failure text)

/-- What is told of a fault : its wording, or that it has none. -/
def message (f : Fault) : Text :=
  match f.wording with
  | .ok text => text
  | .error _ => "<exception str() failed>".toList

/-- Whether a handler's fault is reported together with the tag : an ordinary one that names no
tag yet and can be worded. -/
def isReportable (f : Fault) : Bool :=
  f.isOrdinary && !f.namesHandler && f.wording.isOk

/-- A handler's fault as the evaluation reports it : an ordinary one together with the tag,
unless it names one already. Where the fault cannot be worded, neither can the report be made,
and what surfaces is the fault that is raised on the way. -/
def ofHandler (name written : Text) (f : Fault) : Fault :=
  if f.isOrdinary && !f.namesHandler then
    match f.wording with
    | .ok _ => .handler name written f
    | .error failure => failure
  else f

end Fault

end TagTemplate
