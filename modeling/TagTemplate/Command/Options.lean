import TagTemplate.Text.Digit

/-!
# The options of the command line

`CommandLine.parse` reads the arguments of a run : two directories, an input file, and
optionally an output file, a working directory and a verbosity. Long options may be cut
short as long as only one is meant, and may carry their value after an equals sign; short
ones may be run together. An argument that looks like an option is not taken as a value.
Everything after a lone pair of hyphens is a directory, and a second such pair in the place of a
value is struck out (`Given.nothing`).

Asking for help or for the version is answered at once; everything else that is wrong is a
wrong usage.
-/

namespace TagTemplate

namespace CommandLine

/-! ## One argument -/

/-- The options there are. -/
inductive Switch where
  /-- Asks for help. -/
  | help
  /-- The input file. -/
  | inputFile
  /-- The output file. -/
  | outputFile
  /-- The working directory. -/
  | cwd
  /-- Raises the verbosity. -/
  | verbosity
  /-- Asks for the version. -/
  | version
  /-- Asks for a record of the input, which no run keeps. -/
  | inputRecord
  /-- Asks for a record of the output, which no run keeps. -/
  | outputRecord
deriving Repr, DecidableEq

/-- Whether an option has a value. -/
def Switch.takesValue : Switch → Bool
  | inputFile | outputFile | cwd => true
  | _ => false

/-- The options as they are written. -/
def spellings : List (String × Switch) :=
  [("-h", .help), ("--help", .help), ("--inputFile", .inputFile), ("--outputFile", .outputFile),
    ("--cwd", .cwd), ("-v", .verbosity), ("--verbosity", .verbosity), ("-V", .version),
    ("--version", .version), ("--saveinputmeta", .inputRecord),
    ("--saveoutputmeta", .outputRecord)]

/-- The option with a spelling. -/
def spelled? (s : Text) : Option Switch :=
  (spellings.find? fun p => p.1.toList = s).map Prod.snd

/-- The options whose long spelling begins with a text. -/
def abbreviated (s : Text) : List Switch :=
  (spellings.filter fun p => s.isPrefixOf p.1.toList).map Prod.snd

/-- The pair of hyphens after which no argument is an option. -/
def separator : Text := ['-', '-']

/-- What an argument is. -/
inductive Argument where
  /-- A value or a directory. -/
  | plain (s : Text)
  /-- The lone pair of hyphens, with everything after it. -/
  | separated (rest : List Text)
  /-- A long option, with the value after an equals sign if there is one. -/
  | long (switch : Switch) (value : Option Text)
  /-- A short option, with what is run together with it. -/
  | short (switch : Switch) (rest : Text)
  /-- Something that looks like an option and is none. -/
  | unknown
  /-- The beginning of more than one long option. -/
  | ambiguous
deriving Repr, DecidableEq

/-- Whether a text is one or more decimal digits of any script. -/
def isNumber (s : Text) : Bool :=
  !s.isEmpty && s.all fun c => (digitValue? c).isSome

/-- Whether a text is a negative number, which is a value and no option. A line feed may follow
it. -/
def isNegativeNumber : Text → Bool
  | '-' :: s =>
    let s := if s.getLast? = some '\n' then s.dropLast else s
    let whole := s.takeWhile fun c => (digitValue? c).isSome
    isNumber s || ((s.drop whole.length).head? = some '.' && isNumber (s.drop (whole.length + 1)))
  | _ => false

/-- What an argument is that looks like an option but is not spelled like one. -/
def Argument.ofOther (s : Text) : Argument :=
  if isNegativeNumber s || ' ' ∈ s then .plain s else .unknown

/-- What a long option without an exact spelling is. -/
def Argument.ofAbbreviation (s : Text) : Argument :=
  let stem := s.takeWhile (· != '=')
  let value := if '=' ∈ s then some ((s.dropWhile (· != '=')).drop 1) else none
  match spelled? stem, abbreviated stem with
  | some switch, _ => .long switch value
  | none, [] => .ofOther s
  | none, [switch] => .long switch value
  | none, _ => .ambiguous

/-- What an argument that is no separator is, if none comes before it. -/
def Argument.ofText (s : Text) : Argument :=
  match s with
  | '-' :: '-' :: _ =>
    match spelled? s with
    | some switch => .long switch none
    | none => .ofAbbreviation s
  | '-' :: c :: rest =>
    match spelled? ['-', c] with
    | some switch => .short switch rest
    | none => .ofOther s
  | _ => .plain s

/-- What the arguments are, up to the first separator. -/
def classify : List Text → List Argument
  | [] => []
  | s :: rest => if s = separator then [.separated rest] else .ofText s :: classify rest

/-! ## All arguments -/

/-- A value as it is given. -/
inductive Given where
  /-- A text. -/
  | text (s : Text)
  /-- A pair of hyphens, which is struck out. -/
  | nothing
deriving Repr, DecidableEq

/-- The value that a text gives where a pair of hyphens is struck out. -/
def Given.ofText (s : Text) : Given :=
  if s = separator then .nothing else .text s

/-- What a run is asked to do. -/
structure Options where
  /-- The directory of the input file. -/
  inputdir : Given
  /-- The directory of the output file. -/
  outputdir : Given
  /-- The input file. -/
  inputFile : Given
  /-- The output file, if it has another name than the input file. -/
  outputFile : Option Given
  /-- The working directory, if one is given. -/
  cwd : Option Given
  /-- The verbosity. -/
  verbosity : Nat
deriving Repr, DecidableEq

/-- What the arguments come to. -/
inductive Parsed where
  /-- A run. -/
  | run (options : Options)
  /-- An answer to the question for the version. -/
  | version
  /-- An answer to the question for help. -/
  | help
  /-- Wrong usage. -/
  | wrong
deriving Repr, DecidableEq

/-- What has been read so far. -/
structure Partial where
  /-- The directories. -/
  directories : List Given := []
  /-- The input file. -/
  inputFile : Option Given := none
  /-- The output file. -/
  outputFile : Option Given := none
  /-- The working directory. -/
  cwd : Option Given := none
  /-- The verbosity. -/
  verbosity : Nat := 1
  /-- Whether something was found that belongs nowhere. -/
  hasExtra : Bool := false

/-- What is read after an option with its value. -/
def Partial.set (p : Partial) (switch : Switch) (value : Given) : Partial :=
  match switch with
  | .inputFile => { p with inputFile := some value }
  | .outputFile => { p with outputFile := some value }
  | .cwd => { p with cwd := some value }
  | _ => p

/-- Whether a directory is still to come. -/
def Partial.isOpen (p : Partial) : Bool :=
  p.directories.length < 2

/-- What is read after a value in the place of a directory. -/
def Partial.addDirectory (p : Partial) (value : Given) : Partial :=
  if p.isOpen then { p with directories := p.directories ++ [value] }
  else { p with hasExtra := true }

/-- What everything that was read comes to. -/
def Partial.finish (p : Partial) : Parsed :=
  match p.directories, p.inputFile with
  | [inputdir, outputdir], some inputFile =>
    if p.hasExtra then .wrong
    else .run ⟨inputdir, outputdir, inputFile, p.outputFile, p.cwd, p.verbosity⟩
  | _, _ => .wrong

/-- The short options that are run together with one; nothing if a character among them is
none. -/
def cluster? (switch : Switch) : Text → Option (List Switch)
  | [] => some [switch]
  | c :: rest => do
    let next ← spelled? ['-', c]
    return switch :: (← cluster? next rest)

/-- The short options of an argument, of which an equals sign may set off the first. -/
def switches? (switch : Switch) : Text → Option (List Switch)
  | ['='] => none
  | '=' :: rest => cluster? switch rest
  | rest => cluster? switch rest

/-- What options without values come to, one after another : an answer if one of them asks
for it, or else what has been read after them. -/
def Partial.turn (p : Partial) : List Switch → Parsed ⊕ Partial
  | [] => .inr p
  | .help :: _ => .inl .help
  | .version :: _ => .inl .version
  | .verbosity :: rest => { p with verbosity := p.verbosity + 1 }.turn rest
  | .inputRecord :: rest | .outputRecord :: rest => p.turn rest
  | _ :: _ => .inl .wrong

/-- What is read after the separator with everything that follows it. The separator goes with
the directory before it, or else with the next one; with neither it belongs nowhere. Every
directory after the one it goes with is struck out if it is a separator again. -/
def Partial.addSeparated (p : Partial) (afterDirectory : Bool) (rest : List Text) : Partial :=
  let add (p : Partial) (s : Text) : Partial := p.addDirectory (.ofText s)
  match afterDirectory, rest with
  | true, rest => rest.foldl add p
  | false, [] => { p with hasExtra := true }
  | false, s :: rest => rest.foldl add (p.addDirectory (.text s))

/-- What the rest of the arguments comes to. `afterDirectory` tells whether the argument before
was a directory. -/
def parseFrom (p : Partial) (afterDirectory : Bool) : List Argument → Parsed
  | [] => p.finish
  | .plain s :: rest => parseFrom (p.addDirectory (.text s)) p.isOpen rest
  | .separated texts :: _ => (p.addSeparated afterDirectory texts).finish
  | .long switch value :: rest =>
    if switch.takesValue then
      match value, rest with
      | some v, rest => parseFrom (p.set switch (.ofText v)) false rest
      | none, .plain v :: rest => parseFrom (p.set switch (.text v)) false rest
      | none, _ => .wrong
    else if value.isSome then .wrong
    else
      match p.turn [switch] with
      | .inl parsed => parsed
      | .inr p => parseFrom p false rest
  | .short switch together :: rest =>
    match switches? switch together with
    | none => .wrong
    | some switches =>
      match p.turn switches with
      | .inl parsed => parsed
      | .inr p => parseFrom p false rest
  | .unknown :: rest => parseFrom { p with hasExtra := true } false rest
  | .ambiguous :: _ => .wrong

/-- What the arguments of a run come to. -/
def parse (arguments : List Text) : Parsed :=
  let classified := classify arguments
  if .ambiguous ∈ classified then .wrong else parseFrom {} false classified

end CommandLine

end TagTemplate
