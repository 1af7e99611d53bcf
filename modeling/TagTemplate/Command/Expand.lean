import TagTemplate.Command.Options
import TagTemplate.Command.Script
import TagTemplate.Engine
import TagTemplate.Json.Reader
import TagTemplate.Json.Writer
import TagTemplate.Yaml.Reader
import TagTemplate.Yaml.Writer

/-!
# The command line

A run expands the tags of one file with the engine's own handlers and writes the result to
another directory in the same format. `Command.script` is that run : it checks the paths,
reads the source, expands it, writes the result and reports. A text is expanded as a whole;
JSON and YAML are walked as trees.

What comes before a run is up to a front end : what the arguments come to, and the stage that
provides the directories (`Frontend`). The one that is run is `Frontend.usual`.

Nothing is written to a file before everything that can fail has succeeded, except that the
write itself may fail.
-/

namespace TagTemplate

namespace Command

open CommandLine (Given Options Parsed)
open Script (Prepares)

/-- The name and version. -/
def versionText : Text := "atcode 1.0.0\n".toList

/-- What a verbose run shows first. -/
def title : Text :=
  ("\n         _                 _\n" ++
    "   __ _| |_ ___ ___   __| | ___\n" ++
    "  / _` | __/ __/ _ \\ / _` |/ _ \\\n" ++
    " | (_| | || (_| (_) | (_| |  __/\n" ++
    "  \\__,_|\\__\\___\\___/ \\__,_|\\___|\n" ++
    "\n  Shortcode template engine\n").toList

/-- Where a run reads and writes, and what it knows before it reads. -/
structure Plan where
  /-- The input file. -/
  source : Path
  /-- The output file. -/
  target : Path
  /-- The format of both. -/
  format : Format
  /-- The working directory for `[@cwd]`. -/
  cwd : Text

/-- The fault of a directory that is struck out. -/
def noDirectory : Fault :=
  .raised .type "expected str, bytes or os.PathLike object, not list".toList

/-- The fault of an input file that is struck out. -/
def noInputFile : Fault :=
  .raised .type "unsupported operand type(s) for /: 'PosixPath' and 'list'".toList

/-- The text of a value; a run cannot go on without one. -/
def textOf (value : Given) (missing : Fault) : Script Text :=
  match value with
  | .text s => .done s
  | .nothing => .stop (.fault missing)

/-! ## Before a run -/

/-- What stands before the runs of a command line. -/
structure Frontend where
  /-- What arguments come to. -/
  parse : List Text → Parsed
  /-- The stage that provides the directories of input and output, as they are given. -/
  directories : Given → Given → Script (Path × Path)
  /-- It may make directories, and writes no file. -/
  prepares_directories : ∀ input output, (directories input output).Prepares fun _ => True

/-- The directories of a run : the output directory is made, and both must be there. -/
def directories (input output : Given) : Script (Path × Path) := do
  let inputdir := Path.ofText (← textOf input noDirectory)
  let outputdir := Path.ofText (← textOf output noDirectory)
  let notDirectory (p : Path) : Script Unit :=
    .exitWith 1 ("Not a directory: ".toList ++ p.toText ++ ['\n'])
  if (← .kindOf outputdir) = some .file then notDirectory outputdir
  .ensureDirectory outputdir
  if (← .kindOf inputdir) != some .directory then notDirectory inputdir
  return (inputdir, outputdir)

theorem prepares_textOf (value : Given) (missing : Fault) :
    (textOf value missing).Prepares fun s => value = .text s := by
  cases value with
  | text s => exact .done rfl
  | nothing => exact .stop Ending.noConfusion

/-- The directories are those that are named. -/
theorem prepares_directories (input output : Given) : (directories input output).Prepares fun d =>
    ∃ inputdir outputdir, input = .text inputdir ∧ output = .text outputdir ∧
      d = (.ofText inputdir, .ofText outputdir) := by
  have hexit (p : Path) : (Script.exitWith 1 ("Not a directory: ".toList ++ p.toText ++ ['\n']) :
      Script Unit).Prepares fun _ => True := .exitWith Nat.one_ne_zero _
  refine (prepares_textOf _ _).bind fun inputdir hi =>
    (prepares_textOf _ _).bind fun outputdir ho =>
      (Prepares.kindOf _).bind fun _ _ => (hexit _).ite ?_
  exact (Prepares.ensureDirectory _).bind fun _ _ => (Prepares.kindOf _).bind fun _ _ =>
    (hexit _).ite (.done ⟨inputdir, outputdir, hi, ho, rfl⟩)

/-- The front end that is run. -/
def Frontend.usual : Frontend where
  parse := CommandLine.parse
  directories := Command.directories
  prepares_directories input output := (Command.prepares_directories input output).imp
    fun _ _ => trivial

/-! ## The stages of a run -/

/-- The output file's name : the input file's if none or an empty one is given. -/
def targetName (o : Options) (inputFile : Text) : Text :=
  match o.outputFile with
  | some (.text name) => if name.isEmpty then inputFile else name
  | _ => inputFile

/-- The working directory for `[@cwd]`, and as the log shows it : the input directory if none is
given, and an empty one if it is struck out. -/
def workingDirectory (o : Options) (inputdir : Path) : Script (Text × Text) :=
  match o.cwd with
  | some (.text cwd) => .done (cwd, cwd)
  | some .nothing => .done ([], "[]".toList)
  | none => do
    let cwd := (← .absolute inputdir).toText
    return (cwd, cwd)

/-- Checks the paths. -/
def check (o : Options) (inputdir outputdir : Path) : Script Plan := do
  if 2 ≤ o.verbosity then .note 2 title
  .note 2 "Checking environment...".toList
  let inputFile ← textOf o.inputFile noInputFile
  let source := inputdir.join (.ofText inputFile)
  if (← .kindOf source) != some .file then
    .exitWith 1 ("Error: Input file not found: ".toList ++ source.toText ++ ['\n'])
  let format := Format.ofPath source
  .note 2 ("Input file: ".toList ++ source.toText ++ s!" ({format.name})".toList)
  let (cwd, shownCwd) ← workingDirectory o inputdir
  .note 2 ("[@cwd] resolves to: ".toList ++ shownCwd)
  let target := outputdir.join (.ofText (targetName o inputFile))
  .ensureDirectory target.parent
  .note 2 ("Output file: ".toList ++ target.toText)
  return ⟨source, target, format, cwd⟩

/-- The source as a tree : a text is one leaf. -/
def parse (format : Format) (text : Text) : Script Value :=
  let unparsable : Script Value :=
    .exitWith 1 s!"Error parsing {format.name} input: not well formed\n".toList
  match format with
  | .text => .done (.text text)
  | .json =>
    match Json.read (some digitLimit) text with
    | .ok v => .done v
    | .error .malformed => unparsable
    | .error (.numeralTooLong n) => .stop (.fault (.numeralTooLong n))
  | .yaml =>
    match Yaml.read text with
    | .ok v => .done v
    | .error f => f.escaping?.elim unparsable fun f => .stop (.fault f)

/-- Reads the source. Every kind of line end is read as a line feed. -/
def readSource (plan : Plan) : Script Value := do
  .note 1 "Reading source file...".toList
  let unreadable (message : Text) : Script Text :=
    .exitWith 1 ("Error reading input file: ".toList ++ message ++ ['\n'])
  let text ← match ← .bytesOf plan.source with
    | .error f => unreadable f.message
    | .ok bytes =>
      match Utf8.decode bytes with
      | .error f => unreadable f.message.toList
      | .ok text => pure (unifyLineEnds text)
  .note 2 (s!"Read {text.length} characters from ".toList ++ plan.source.name)
  parse plan.format text

/-- A source after expansion. -/
structure Expanded where
  /-- The tree; a single leaf for a text. -/
  tree : Value
  /-- The number of tags in a text. -/
  count : Option Nat

/-- The engine of a run, with no handlers from outside. -/
def engine (settings : Settings) (registry : Registry Empty) : Engine Empty Unit :=
  ⟨registry, settings, fun body => body.elim⟩

/-- The end of a run whose expansion failed : a handler's failure in a text is an error of
the source. -/
def expansionFailed (format : Format) (f : Fault) : Script Expanded :=
  if format = .text ∧ f.namesHandler then
    match f.wording with
    | .ok text => .exitWith 1 ("Expansion error: ".toList ++ text ++ ['\n'])
    | .error failure => .stop (.fault failure)
  else .stop (.fault f)

/-- The summary of an expansion. -/
def summary (format : Format) (e : Expanded) : Text :=
  let count := match e.count with
    | some n => Value.int n
    | none => .null
  "Expansion complete: ".toList ++
    ((Value.dict [(.ofString "status", .bool true), (.ofString "format", .ofString format.name),
      (.ofString "match_count", count)]).literal?).getD []

/-- Expands the source. -/
def expand (settings : Settings) (plan : Plan) (source : Value) : Script Expanded := do
  .note 1 "Expanding shortcodes...".toList
  let made : Registry.Change Empty := Registry.new (some plan.cwd) []
  .tell (made.notes.map .note)
  let engine := engine settings made.registry
  let run : Run Unit Expanded := Process.run (match plan.format with
    | .text => (engine.parseSync source).bind fun e =>
      .done ⟨.text e.text, some e.found.length⟩
    | _ => (engine.walkSync source).bind fun v => .done ⟨v, none⟩) ()
  .tell run.journal
  match run.outcome with
  | .error f => expansionFailed plan.format f
  | .ok expanded =>
    .note 2 (summary plan.format expanded)
    return expanded

/-- The text of an expanded source. A tree may hold an integer that is too long to write. -/
def render (format : Format) (e : Expanded) : Script Text :=
  match format with
  | .text => .done (e.tree.shown?.getD [])
  | .json => .done ((Json.write? .indented e.tree).getD [] ++ ['\n'])
  | .yaml => (Yaml.write? e.tree).elim (.stop (.fault .integerTooLong)) .done

/-- Writes the result. A path that cannot be one at all is not an error of writing. -/
def writeResult (plan : Plan) (text : Text) : Script Unit := do
  match ← .tryWrite plan.target (Utf8.encode text) with
  | some f =>
    if f.cause = .embeddedNul then .stop (.fileFault f)
    else .exitWith 1 ("Error writing output file: ".toList ++ f.message ++ ['\n'])
  | none => .note 2 ("Wrote ".toList ++ plan.target.toText)

/-- Reports the result. -/
def report (plan : Plan) (e : Expanded) : Script Unit := do
  .note 1 "\n✓ Expansion successful!".toList
  .note 1 ("  Output: ".toList ++ plan.target.toText)
  if let some n := e.count then .note 1 s!"  Shortcodes: {n}".toList

/-- One run with its options. -/
def expandFile (frontend : Frontend) (settings : Settings) (o : Options) : Script Unit := do
  let (inputdir, outputdir) ← frontend.directories o.inputdir o.outputdir
  let plan ← check o inputdir outputdir
  let source ← readSource plan
  let expanded ← expand settings plan source
  writeResult plan (← render plan.format expanded)
  report plan expanded

/-- The run that arguments ask for. -/
def script (frontend : Frontend) (settings : Settings) (arguments : List Text) : Script Unit :=
  match frontend.parse arguments with
  | .run o => expandFile frontend settings o
  | .version => .print .output versionText (.stop (.exit 0))
  | .help => .stop (.exit 0)
  | .wrong => .exitWith 2 "usage: atcode --inputFile INPUTFILE inputdir outputdir\n".toList

/-- The verbosity that arguments ask for; a run that shows nothing has none. -/
def verbosity (frontend : Frontend) (settings : Settings) (arguments : List Text) : Verbosity :=
  match frontend.parse arguments with
  | .run o => ⟨some o.verbosity, settings.debug⟩
  | _ => ⟨none, settings.debug⟩

end Command

end TagTemplate
