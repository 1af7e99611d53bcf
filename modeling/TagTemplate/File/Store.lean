import TagTemplate.File.Path
import TagTemplate.Text.Quoted
import TagTemplate.Text.Utf8

/-!
# Files

A `FileStore` holds the directories and files of a machine under their absolute paths, and
the directory from which relative paths start. Looking, reading, making directories and writing
either succeed or leave the store as it is and say why (`FileFault`). No path may hold a NUL,
and neither a path nor a name on it may be too long.
-/

namespace TagTemplate

/-- What a path can be found to be. -/
inductive FileKind where
  /-- A directory. -/
  | directory
  /-- A regular file. -/
  | file
deriving Repr, DecidableEq

/-- Why an operation on a path fails. -/
inductive FileFault.Cause where
  /-- There is nothing. -/
  | notFound
  /-- There is something already. -/
  | exists
  /-- Something on the way is no directory. -/
  | notDirectory
  /-- It is a directory. -/
  | isDirectory
  /-- The path or a name on it is too long. -/
  | nameTooLong
  /-- The path holds a NUL. -/
  | embeddedNul
  /-- Any other cause. -/
  | other (text : String)
deriving Repr, DecidableEq

/-- An operation on a path that failed. -/
structure FileFault where
  /-- Why. -/
  cause : FileFault.Cause
  /-- The path. -/
  path : Text
deriving Repr, DecidableEq

/-- The wording of a fault. -/
def FileFault.message (f : FileFault) : Text :=
  match f.cause with
  | .notFound => "[Errno 2] No such file or directory: ".toList ++ quoted f.path
  | .exists => "[Errno 17] File exists: ".toList ++ quoted f.path
  | .notDirectory => "[Errno 20] Not a directory: ".toList ++ quoted f.path
  | .isDirectory => "[Errno 21] Is a directory: ".toList ++ quoted f.path
  | .nameTooLong => "[Errno 36] File name too long: ".toList ++ quoted f.path
  | .embeddedNul => "embedded null byte".toList
  | .other text => text.toList

/-- The most bytes that a name on a path may have. -/
def nameLimit : Nat := 255

/-- The number of bytes that a whole path stays below. -/
def pathLimit : Nat := 4096

/-- The number of bytes of a text. -/
def byteLength (s : Text) : Nat :=
  (Utf8.encode s).length

/-- The parts of an absolute path. -/
abbrev Place := List Text

/-- What is at a place. -/
inductive FileEntry where
  /-- A directory. -/
  | directory
  /-- A file with its bytes. -/
  | file (bytes : List UInt8)
deriving Repr, DecidableEq

/-- The files of a machine. -/
structure FileStore where
  /-- What is at each place; the root is always there. -/
  entries : List (Place × FileEntry)
  /-- Where relative paths start. -/
  current : Place
deriving Repr

namespace FileStore

/-- What is at a place. -/
def entry? (s : FileStore) (place : Place) : Option FileEntry :=
  if place.isEmpty then some .directory else s.entries.lookup place

/-- The place reached from `place` along parts. Every place on the way must be a directory;
two dots lead back. -/
def walk (s : FileStore) (place : Place) : List Text → Except FileFault.Cause Place
  | [] => .ok place
  | part :: rest =>
    match s.entry? place with
    | some .directory =>
      if part = ['.', '.'] then walk s place.dropLast rest
      else if nameLimit < byteLength part then .error .nameTooLong
      else walk s (place ++ [part]) rest
    | some (.file _) => .error .notDirectory
    | none => .error .notFound

/-- The place that a path names. -/
def locate (s : FileStore) (p : Path) : Except FileFault Place :=
  let written := p.toText
  let place : Except FileFault.Cause Place :=
    if Char.ofNat 0 ∈ written then .error .embeddedNul
    else if pathLimit ≤ byteLength written then .error .nameTooLong
    else s.walk (if p.root.isEmpty then s.current else []) p.parts
  place.mapError fun cause => ⟨cause, written⟩

/-- What a path is, if anything. A path that nothing can be found under is nothing, unless that
is for its length. -/
def kind (s : FileStore) (p : Path) : Except FileFault (Option FileKind) :=
  match s.locate p with
  | .error f => if f.cause = .nameTooLong then .error f else .ok none
  | .ok place =>
    .ok ((s.entry? place).map fun
      | .directory => .directory
      | .file _ => .file)

/-- The bytes of a file. -/
def read (s : FileStore) (p : Path) : Except FileFault (List UInt8) := do
  match s.entry? (← s.locate p) with
  | some (.file bytes) => .ok bytes
  | some .directory => .error ⟨.isDirectory, p.toText⟩
  | none => .error ⟨.notFound, p.toText⟩

/-- The entries with an entry at a place. -/
def put (place : Place) (entry : FileEntry) : List (Place × FileEntry) → List (Place × FileEntry)
  | [] => [(place, entry)]
  | (q, e) :: rest => if q = place then (q, entry) :: rest else (q, e) :: put place entry rest

/-- The store with a file written, made anew or in place of what the file held. -/
def write (s : FileStore) (p : Path) (bytes : List UInt8) : Except FileFault FileStore := do
  let place ← s.locate p
  match s.entry? place with
  | some .directory => .error ⟨.isDirectory, p.toText⟩
  | _ => .ok { s with entries := put place (.file bytes) s.entries }

/-- The store with a directory at a path whose parent is there. -/
def makeDirectory (s : FileStore) (p : Path) : Except FileFault FileStore := do
  let place ← s.locate p
  match s.entry? place with
  | some .directory => .ok s
  | some (.file _) => .error ⟨.exists, p.toText⟩
  | none => .ok { s with entries := put place .directory s.entries }

/-- The store with a directory at a path, and with those on the way to it : only if the path's
parent is not there, that one is made first, in the same way. -/
def makeDirectories (s : FileStore) (p : Path) : Except FileFault FileStore :=
  match s.makeDirectory p with
  | .ok t => .ok t
  | .error f =>
    if _h : f.cause = .notFound ∧ p.parts ≠ [] then
      (s.makeDirectories p.parent).bind fun t => t.makeDirectory p
    else .error f
termination_by p.parts.length
decreasing_by
  simp only [Path.parent, List.length_dropLast]
  have := List.length_pos_iff.mpr _h.2
  omega

/-- The absolute path that a path names, with two dots followed back. -/
def resolve (s : FileStore) (p : Path) : Path :=
  let start : Place := if p.root.isEmpty then s.current else []
  ⟨['/'], p.parts.foldl (fun place part =>
    if part = ['.', '.'] then place.dropLast else place ++ [part]) start⟩

/-- The regular files, with their bytes. -/
def files (s : FileStore) : List (Place × List UInt8) :=
  s.entries.filterMap fun
    | (place, .file bytes) => some (place, bytes)
    | _ => none

end FileStore

end TagTemplate
