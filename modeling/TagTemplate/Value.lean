import TagTemplate.Number.Binary64
import TagTemplate.Timestamp

/-!
# Values

What handlers return, what attributes hold and what trees are made of. A mapping keeps its
entries in order; its keys are pairwise different as keys, where two keys are the same if
they are equal as numbers whatever their kinds (`Value.same`). `putEntry` gives a key its
last value at its first place.

Timestamps and sets are objects, of which a tree may hold one in several places : their `mark`
tells which object they are. It counts only where a format names an object that it writes again.
-/

namespace TagTemplate

/-- A dynamic value. -/
inductive Value where
  /-- The absent value. -/
  | null
  /-- A truth value. -/
  | bool (b : Bool)
  /-- An integer of any size. -/
  | int (n : Int)
  /-- A floating-point number. -/
  | float (x : Binary64)
  /-- A text. -/
  | text (s : Text)
  /-- A string of bytes. -/
  | bytes (b : List UInt8)
  /-- A list. -/
  | list (items : List Value)
  /-- A tuple. -/
  | tuple (items : List Value)
  /-- A mapping. -/
  | dict (entries : List (Value × Value))
  /-- A read-only view of a mapping. -/
  | view (entries : List (Value × Value))
  /-- A day or a moment. -/
  | timestamp (mark : Nat) (t : Timestamp)
  /-- A set. -/
  | set (mark : Nat) (members : List Value)
deriving Repr

instance : Inhabited Value := ⟨.null⟩

namespace Value

/-- The text of a literal. -/
def ofString (s : String) : Value :=
  .text s.toList

/-- The name of a value's kind, as messages give it. -/
def kindName : Value → String
  | null => "NoneType"
  | bool _ => "bool"
  | int _ => "int"
  | float _ => "float"
  | text _ => "str"
  | bytes _ => "bytes"
  | list _ => "list"
  | tuple _ => "tuple"
  | dict _ => "dict"
  | view _ => "mappingproxy"
  | timestamp _ t => if t.clock.isSome then "datetime" else "date"
  | set _ _ => "set"

/-- The integer that a truth value or an integer counts as. -/
def asInt? : Value → Option Int
  | bool b => some (if b then 1 else 0)
  | int n => some n
  | _ => none

mutual

/-- Whether two values are the same as keys. Numbers are compared by their size, whatever
their kinds; not a number is the same as nothing. -/
def same : Value → Value → Bool
  | null, null => true
  | text s, text t => s == t
  | bytes a, bytes b => a == b
  | float x, float y => x.equal y
  | float x, v => v.asInt?.any x.equalsInt
  | tuple as, tuple bs => sameItems as bs
  | timestamp _ s, timestamp _ t => s.same t
  | u, float y => u.asInt?.any y.equalsInt
  | u, v =>
    match u.asInt?, v.asInt? with
    | some m, some n => m == n
    | _, _ => false

/-- Whether two lists of values are the same, place by place. -/
def sameItems : List Value → List Value → Bool
  | [], [] => true
  | a :: as, b :: bs => same a b && sameItems as bs
  | _, _ => false

end

/-- The entries with `key` bound to `value` : a key that is there keeps its place and its
own form, a new one goes to the end. -/
def putEntry (key value : Value) : List (Value × Value) → List (Value × Value)
  | [] => [(key, value)]
  | (k, v) :: rest =>
    if same k key then (k, value) :: rest else (k, v) :: putEntry key value rest

/-- The mapping that the bindings make, one after another. -/
def ofBindings (bindings : List (Value × Value)) : List (Value × Value) :=
  bindings.foldl (fun entries b => putEntry b.1 b.2 entries) []

/-- The value bound to a text key. -/
def lookup? (name : Text) : List (Value × Value) → Option Value
  | [] => none
  | (k, v) :: rest => if same k (.text name) then some v else lookup? name rest

end Value

end TagTemplate
