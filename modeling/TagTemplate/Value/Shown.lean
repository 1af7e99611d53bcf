import TagTemplate.Number.Shortest
import TagTemplate.Text.Quoted
import TagTemplate.Value

/-!
# Values as text

`Value.shown?` is the text that takes the place of a tag whose handler returned the value :
a text stands for itself, a timestamp is written in its usual form, a view as the mapping it is
of, and everything else as a literal (`Value.literal?`), in which texts are quoted and
timestamps are the calls that make them. `Value.spliced?` is the same except that the absent
value leaves nothing behind. A literal exists unless some integer in the value is too long for
a numeral, so each of them answers `none` in that case only.
-/

namespace TagTemplate

/-- Floating-point literals are positional from `1e-4` up to `1e16`, and exponents have at
least two digits. -/
def shownFloat : FloatNotation where
  positionalFrom := -4
  exponentialFrom := 16
  exponentWidth := 2
  fractionBeforeMark := false
  infinity := "inf".toList
  notANumber := "nan".toList

/-- The pieces with a comma and a space between each two. -/
def commaSeparated : List Text → Text
  | [] => []
  | [p] => p
  | p :: q :: rest => p ++ ", ".toList ++ commaSeparated (q :: rest)

/-- A tuple of one piece has a comma after it. -/
def tupled : List Text → Text
  | [p] => '(' :: p ++ [',', ')']
  | ps => '(' :: commaSeparated ps ++ [')']

namespace Value

mutual

/-- The value as a literal, unless it holds an integer that is too long. -/
def literal? : Value → Option Text
  | null => some "None".toList
  | bool b => some (if b then "True" else "False").toList
  | int n => intDigits? n
  | float x => some (shownFloat.write x)
  | text s => some (quoted s)
  | bytes b => some (quotedBytes b)
  | list items => do
    let ps ← literals? items
    return '[' :: commaSeparated ps ++ [']']
  | tuple items => do
    let ps ← literals? items
    return tupled ps
  | dict entries => do
    let ps ← entryLiterals? entries
    return '{' :: commaSeparated ps ++ ['}']
  | view entries => do
    let ps ← entryLiterals? entries
    return "mappingproxy(\x7b".toList ++ commaSeparated ps ++ ['}', ')']
  | timestamp _ t => some t.literal
  | set _ [] => some ['s', 'e', 't', '(', ')']
  | set _ members => do
    let ps ← literals? members
    return '{' :: commaSeparated ps ++ ['}']

/-- The literals of a list of values. -/
def literals? : List Value → Option (List Text)
  | [] => some []
  | v :: rest => do
    let p ← literal? v
    let ps ← literals? rest
    return p :: ps

/-- The literals of a mapping's entries, key and value separated by a colon. -/
def entryLiterals? : List (Value × Value) → Option (List Text)
  | [] => some []
  | (k, v) :: rest => do
    let p ← literal? k
    let q ← literal? v
    let ps ← entryLiterals? rest
    return (p ++ ':' :: ' ' :: q) :: ps

end

/-- The value as text : a text is itself, a timestamp has its usual form, a view shows as the
mapping it is of, and anything else is its literal. -/
def shown? : Value → Option Text
  | text s => some s
  | timestamp _ t => some t.text
  | view entries => (dict entries).literal?
  | v => v.literal?

/-- The text that a handler's result leaves in place of its tag. -/
def spliced? : Value → Option Text
  | null => some []
  | v => v.shown?

end Value

end TagTemplate
