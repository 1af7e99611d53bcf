import TagTemplate.Command.Expand

/-!
# The program

Makes the run of a script on the files of this machine. Paths are looked at only through
opening and reading them : what cannot be opened is not there, and what can be opened but
not read is a directory.
-/

namespace TagTemplate

namespace Program

/-- What something opened is. -/
def kindOfHandle (handle : IO.FS.Handle) : IO FileKind := do
  try
    let _ ← handle.read 1
    return .file
  catch _ => return .directory

/-- What a path of this machine is. -/
def kindOf (path : String) : IO (Option FileKind) := do
  if path.contains (Char.ofNat 0) then return none
  try return some (← kindOfHandle (← IO.FS.Handle.mk path .read))
  catch _ => return none

/-- What an operation answers, or why it failed. -/
def attempt {α : Type} (path : String) (operation : IO α) : IO (Except FileFault α) := do
  if path.contains (Char.ofNat 0) then return .error ⟨.embeddedNul, path.toList⟩
  try return .ok (← operation)
  catch e => return .error ⟨.other (toString e), path.toList⟩

/-- The fault of an operation, if it has one. -/
def faultOf {α : Type} : Except FileFault α → Option FileFault
  | .ok _ => none
  | .error f => some f

/-- The absolute path of a path, or the path itself if it has none. -/
def absolute (path : String) : IO String := do
  try return toString (← IO.FS.realPath path)
  catch _ => return path

/-- Shows a line of the log. -/
def tell (line : LogLine) : IO Unit :=
  let level := match line with
    | .note _ => "DEBUG"
    | .dropped _ _ => "ERROR"
  let reason := match line with
    | .note _ => ""
    | .dropped _ f => s!" ({String.ofList f.message})"
  IO.eprintln s!"{level} │ {String.ofList line.message}{reason}"

/-- Makes the run of a script. -/
def run {α : Type} (verbosity : Verbosity) : Script α → IO Ending
  | .done _ => return .exit 0
  | .stop e => return e
  | .emit e p => do
    if let some line := verbosity.line? e then tell line
    run verbosity p
  | .print .output text p => do
    IO.print (String.ofList text)
    run verbosity p
  | .print .error text p => do
    IO.eprint (String.ofList text)
    run verbosity p
  | .kind path k => do
    run verbosity (k (.ok (← kindOf (String.ofList path.toText))))
  | .resolve path k => do
    run verbosity (k (.ofText (← absolute (String.ofList path.toText)).toList))
  | .read path k => do
    let name := String.ofList path.toText
    run verbosity (k ((← attempt name (IO.FS.readBinFile name)).map fun b => b.toList))
  | .makeDirectories path k => do
    let name := String.ofList path.toText
    run verbosity (k (faultOf (← attempt name (IO.FS.createDirAll name))))
  | .write path bytes k => do
    let name := String.ofList path.toText
    run verbosity (k (faultOf (← attempt name (IO.FS.writeBinFile name ⟨bytes.toArray⟩))))

/-- The variables of the environment. -/
def environment : IO (List (Text × Text)) := do
  let bytes ← try IO.FS.readBinFile "/proc/self/environ" catch _ => pure ByteArray.empty
  let text := (Utf8.decode bytes.toList).toOption.getD []
  let assignments := text.splitOn (Char.ofNat 0)
  return assignments.map fun v => (v.takeWhile (· != '='), (v.dropWhile (· != '=')).drop 1)

/-- The exit status of an ending; a fault that nothing contained is told. -/
def status : Ending → IO UInt32
  | .exit n => return n.toUInt32
  | .fault f => do
    IO.eprintln (String.ofList f.message)
    return 1
  | .fileFault f => do
    IO.eprintln (String.ofList f.message)
    return 1

end Program

end TagTemplate

/-- Expands the tags of a file. -/
def main (arguments : List String) : IO UInt32 := do
  let arguments := arguments.map String.toList
  let frontend := TagTemplate.Command.Frontend.usual
  match TagTemplate.Settings.load .still (← TagTemplate.Program.environment) [] with
  | .error f => TagTemplate.Program.status (.fault f)
  | .ok settings =>
    let verbosity := TagTemplate.Command.verbosity frontend settings arguments
    let script := TagTemplate.Command.script frontend settings arguments
    let ending ← TagTemplate.Program.run verbosity script
    TagTemplate.Program.status ending
