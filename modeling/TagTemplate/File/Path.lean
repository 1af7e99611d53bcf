import TagTemplate.Text.Blank

/-!
# Paths

A path is its root, if it has one, and its parts. Empty parts and parts that are a single
dot are left out when a path is read, and two dots are kept. The suffix of a path is the
part of its name from the last dot on, unless the dot is the first or the last character.
-/

namespace TagTemplate

/-- A path of a file system. -/
structure Path where
  /-- The slashes it starts at : none, one, or the two that are told apart from one. -/
  root : Text
  /-- The names on the way. -/
  parts : List Text
deriving Repr, DecidableEq

namespace Path

/-- The pieces of a text between slashes; `piece` is the current one, in reverse. -/
def pieces (piece : Text) : Text → List Text
  | [] => [piece.reverse]
  | '/' :: s => piece.reverse :: pieces [] s
  | c :: s => pieces (c :: piece) s

/-- The root of a path text. -/
def rootOf (s : Text) : Text :=
  let slashes := s.takeWhile (· == '/')
  if slashes.length = 2 then slashes else slashes.take 1

/-- The path that a text names. -/
def ofText (s : Text) : Path :=
  ⟨rootOf s, (pieces [] s).filter fun p => !p.isEmpty && p != ['.']⟩

/-- A path as text. -/
def toText (p : Path) : Text :=
  if p.root.isEmpty && p.parts.isEmpty then ['.']
  else p.root ++ ['/'].intercalate p.parts

/-- The path `q` as seen from `p`. -/
def join (p q : Path) : Path :=
  if q.root.isEmpty then ⟨p.root, p.parts ++ q.parts⟩ else q

/-- The last part. -/
def name (p : Path) : Text :=
  p.parts.getLast?.getD []

/-- The path without its last part. -/
def parent (p : Path) : Path :=
  ⟨p.root, p.parts.dropLast⟩

/-- The suffix of the name, with its dot. -/
def suffix (p : Path) : Text :=
  let tail := p.name.reverse.takeWhile (· != '.')
  if tail.isEmpty || p.name.length ≤ tail.length + 1 then [] else '.' :: tail.reverse

end Path

/-- The formats of sources. -/
inductive Format where
  /-- Plain text. -/
  | text
  /-- JSON. -/
  | json
  /-- YAML. -/
  | yaml
deriving Repr, DecidableEq

namespace Format

/-- The name of a format. -/
def name : Format → String
  | text => "text"
  | json => "json"
  | yaml => "yaml"

/-- The formats by suffix. -/
def suffixes : List (String × Format) :=
  [(".json", .json), (".yaml", .yaml), (".yml", .yaml)]

/-- The format that a path's suffix tells, in any case; plain text if it tells none. -/
def ofPath (p : Path) : Format :=
  let suffix := p.suffix.map lowerAscii
  ((suffixes.find? fun s => s.1.toList = suffix).map Prod.snd).getD .text

end Format

end TagTemplate
