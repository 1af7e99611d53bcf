import TagTemplate.Value.Shown

/-!
# Writing JSON

`Json.write?` writes a value as JSON. A `Layout` says how : on one line, or with every item
and member on a line of its own. Tuples are written as arrays and views as objects. Only
bytes have no JSON form.
-/

namespace TagTemplate

namespace Json

/-- How the parts of an array or object are set apart. -/
structure Layout where
  /-- The number of spaces per level if every part has a line of its own. -/
  indent : Option Nat

/-- Everything on one line. -/
def Layout.line : Layout := ⟨none⟩

/-- Every part on a line of its own. -/
def Layout.indented : Layout := ⟨some 2⟩

/-- The line break before a part at some level. -/
def Layout.break (l : Layout) (level : Nat) : Text :=
  match l.indent with
  | none => []
  | some n => '\n' :: List.replicate (n * level) ' '

/-- What stands between two parts. -/
def Layout.separator (l : Layout) : Text :=
  if l.indent.isSome then [','] else [',', ' ']

/-- Floating-point numbers are laid out like literals, with JSON's words for infinity and for
not a number. -/
def floatNotation : FloatNotation :=
  { shownFloat with infinity := "Infinity".toList, notANumber := "NaN".toList }

/-- One character of a string. -/
def stringChar (c : Char) : Text :=
  if c = '"' ∨ c = '\\' then ['\\', c]
  else if c = '\n' then ['\\', 'n']
  else if c = '\r' then ['\\', 'r']
  else if c = '\t' then ['\\', 't']
  else if c = '\x08' then ['\\', 'b']
  else if c = '\x0c' then ['\\', 'f']
  else if c < ' ' then '\\' :: 'u' :: hexPadded 4 c.toNat
  else [c]

/-- A text as a string. -/
def string (s : Text) : Text :=
  '"' :: s.flatMap stringChar ++ ['"']

/-- The parts of an array or object at some level, between brackets. -/
def enclose (l : Layout) (level : Nat) (opening closing : Char) (parts : List Text) : Text :=
  if parts.isEmpty then [opening, closing]
  else
    let separated := (l.separator ++ l.break (level + 1)).intercalate parts
    opening :: l.break (level + 1) ++ separated ++ l.break level ++ [closing]

/-- A key as the text of a member's name. -/
def keyText? : Value → Option Text
  | .text s => some s
  | .null => some "null".toList
  | .bool b => some (if b then "true" else "false").toList
  | .int n => some (intDigits n)
  | .float x => some (floatNotation.write x)
  | _ => none

mutual

/-- A value at some level. -/
def writeAt? (l : Layout) (level : Nat) : Value → Option Text
  | .null => some "null".toList
  | .bool b => some (if b then "true" else "false").toList
  | .int n => some (intDigits n)
  | .float x => some (floatNotation.write x)
  | .text s => some (string s)
  | .bytes _ | .timestamp _ _ | .set _ _ => none
  | .list items => (itemsAt? l (level + 1) items).map (enclose l level '[' ']')
  | .tuple items => (itemsAt? l (level + 1) items).map (enclose l level '[' ']')
  | .dict entries => (membersAt? l (level + 1) entries).map (enclose l level '\x7b' '\x7d')
  | .view entries => (membersAt? l (level + 1) entries).map (enclose l level '\x7b' '\x7d')

/-- The items of an array at some level. -/
def itemsAt? (l : Layout) (level : Nat) : List Value → Option (List Text)
  | [] => some []
  | v :: rest => do
    let p ← writeAt? l level v
    let ps ← itemsAt? l level rest
    return p :: ps

/-- The members of an object at some level. -/
def membersAt? (l : Layout) (level : Nat) : List (Value × Value) → Option (List Text)
  | [] => some []
  | (k, v) :: rest => do
    let key ← keyText? k
    let p ← writeAt? l level v
    let ps ← membersAt? l level rest
    return (string key ++ ':' :: ' ' :: p) :: ps

end

/-- A value as JSON. -/
def write? (l : Layout) (v : Value) : Option Text :=
  writeAt? l 0 v

end Json

end TagTemplate
