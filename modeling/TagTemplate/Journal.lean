import TagTemplate.Fault
import TagTemplate.Tag.Attribute

/-!
# The journal

What a run leaves behind besides its result : notes about its progress, the entries of a
tree that were dropped, and the calls of handlers. A run writes all of them; which notes
are shown is decided afterwards, from the verbosity and the debug switch
(`Verbosity.shows`). Dropped entries are always shown.
-/

namespace TagTemplate

/-- A note on the progress of a run. -/
inductive Note where
  /-- Tags were found in a text of some length. -/
  | found (count length : Nat)
  /-- A tag without a handler stays as text. -/
  | unknown (name : Text)
  /-- A handler is called for a tag. -/
  | calling (name written : Text)
  /-- A handler was registered. -/
  | registered (name : Text) (isAsync : Bool)
  /-- A stage of the command line reports, to readers of at least some verbosity. -/
  | progress (level : Nat) (text : Text)
deriving Repr, DecidableEq

namespace Note

/-- The least verbosity at which a note is shown. -/
def level : Note → Nat
  | progress n _ => n
  | _ => 3

/-- The wording of a note. -/
def message : Note → Text
  | found count length =>
    s!"Found {count} shortcode(s) in {length} characters".toList
  | unknown name => "No handler for '".toList ++ name ++ "', leaving it as text".toList
  | calling name written =>
    "Calling handler '".toList ++ name ++ "' for ".toList ++ quoted written
  | registered name isAsync =>
    "Registered shortcode '".toList ++ name ++ "'".toList ++
      (if isAsync then " (async)".toList else [])
  | progress _ text => text

end Note

/-- A call of a handler, as it is recorded when the handler's body starts. -/
structure CallRecord where
  /-- Whether the handler is one of the engine's own. -/
  builtin : Bool
  /-- The name it is registered under. -/
  name : Text
  /-- The content, with the tags inside already replaced. -/
  content : Text
  /-- The attributes. -/
  attributes : Attributes
  /-- The tag as written. -/
  written : Text
deriving Repr

/-- What happens in a run. -/
inductive Event where
  /-- A note. -/
  | note (n : Note)
  /-- An entry of a tree was dropped because of a fault. -/
  | dropped (label : Text) (fault : Fault)
  /-- The body of a handler started. -/
  | called (call : CallRecord)
deriving Repr

/-- Everything that happened in a run, in order. -/
abbrev Journal := List Event

namespace Journal

/-- The calls of handlers other than the engine's own. -/
def calls (j : Journal) : List CallRecord :=
  j.filterMap fun
    | .called c => if c.builtin then none else some c
    | _ => none

end Journal

/-- A line of a log. -/
inductive LogLine where
  /-- A note. -/
  | note (n : Note)
  /-- A dropped entry. -/
  | dropped (label : Text) (fault : Fault)
deriving Repr, DecidableEq

namespace LogLine

/-- The text of a line. -/
def message : LogLine → Text
  | note n => n.message
  | dropped label _ => "Error processing ".toList ++ label

end LogLine

/-- How much of a journal is shown : everything with the debug switch, else what a connected
verbosity admits. -/
structure Verbosity where
  /-- The verbosity of the program that is connected, if one is. -/
  connected : Option Int
  /-- The debug switch. -/
  debug : Bool
deriving Repr, DecidableEq

namespace Verbosity

/-- Whether notes of a level are shown. -/
def shows (v : Verbosity) (level : Nat) : Bool :=
  v.debug || v.connected.any fun n => (level : Int) ≤ n

/-- The line that an event adds to the log, if it adds one. -/
def line? (v : Verbosity) : Event → Option LogLine
  | .note n => if v.shows n.level then some (.note n) else none
  | .dropped label fault => some (.dropped label fault)
  | .called _ => none

/-- The log of a run. -/
def log (v : Verbosity) (j : Journal) : List LogLine :=
  j.filterMap v.line?

end Verbosity

end TagTemplate
