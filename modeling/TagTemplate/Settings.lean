import TagTemplate.Fault
import TagTemplate.Text.Utf8

/-!
# Settings

The working directory that `[@cwd]` falls back to, the formats of date and time, and the
debug switch. `Settings.load` takes them from environment variables, whose names are the
setting's name after a mark, and from explicit values, which go first. Names are read in any
case. Unknown variables are passed over; an unknown explicit name or a value that does not fit
is a fault.

What a format gives now is up to a time source, which the settings come with. The one that is
there if no other is given has no clock (`TimeSource.still`).
-/

namespace TagTemplate

/-! ## Date and time -/

/-- What stands for the time. -/
structure TimeSource where
  /-- What a format of dates or times gives now. -/
  now : Text → Except Fault Text
  /-- It fails only with faults that a handler's may be. -/
  isReportable_of_now : ∀ {format f}, now format = .error f → f.isReportable = true

namespace TimeSource

/-- The format with each doubled percent sign made single, and every other directive as it is
written. -/
def fillFormat : Text → Text
  | '%' :: '%' :: s => '%' :: fillFormat s
  | c :: s => c :: fillFormat s
  | [] => []

/-- The time source without a clock, which fills in no directive but the doubled percent sign. -/
def still : TimeSource where
  now format := if Char.ofNat 0 ∈ format then .error .embeddedNul else .ok (fillFormat format)
  isReportable_of_now {format f} h := by
    split at h
    · cases h
      rfl
    · cases h

end TimeSource

/-! ## Settings -/

/-- The settings of a program. -/
structure Settings where
  /-- The working directory, if no other is given. -/
  cwd : Text := []
  /-- The format of dates. -/
  dateFormat : Text := ['%', 'x']
  /-- The format of times. -/
  timeFormat : Text := ['%', 'X']
  /-- Whether everything is shown in the log. -/
  debug : Bool := false
  /-- What stands for the time. -/
  time : TimeSource := .still

namespace Settings

/-- The date now. -/
def dateNow (settings : Settings) : Except Fault Text :=
  settings.time.now settings.dateFormat

/-- The time of day now. -/
def timeNow (settings : Settings) : Except Fault Text :=
  settings.time.now settings.timeFormat

/-! ## Loading -/

/-- The settings by name. -/
inductive Name where
  /-- `cwd` -/
  | cwd
  /-- `date_format` -/
  | dateFormat
  /-- `time_format` -/
  | timeFormat
  /-- `debug_mode` -/
  | debug
deriving Repr, DecidableEq

/-- The names as they are written. -/
def named : List (String × Name) :=
  [("cwd", .cwd), ("date_format", .dateFormat), ("time_format", .timeFormat),
    ("debug_mode", .debug)]

/-- The setting of a name, in any case. -/
def name? (s : Text) : Option Name :=
  (named.find? fun p => p.1.toList = s.map lowerAscii).map Prod.snd

/-- What opens the name of an environment variable that holds a setting. -/
def environmentMark : Text := "atcode_".toList

/-- The setting that an environment variable holds. -/
def settingOf? (s : Text) : Option Name :=
  let s := s.map lowerAscii
  if environmentMark.isPrefixOf s then name? (s.drop environmentMark.length) else none

/-- The texts that mean yes. -/
def yesWords : List String := ["1", "on", "t", "true", "y", "yes"]

/-- The texts that mean no. -/
def noWords : List String := ["0", "off", "f", "false", "n", "no"]

/-- The truth value that a word stands for. -/
def wordFlag? (s : Text) : Option Bool :=
  let s := s.map lowerAscii
  if yesWords.any fun w => w.toList = s then some true
  else if noWords.any fun w => w.toList = s then some false
  else none

/-- The text that a value stands for : its own, or the one its bytes encode. -/
def text? : Value → Option Text
  | .text s => some s
  | .bytes b => (Utf8.decode b).toOption
  | _ => none

/-- The truth value that a value stands for : a word for it, or one or zero. -/
def flag? (v : Value) : Option Bool :=
  match text? v with
  | some s => wordFlag? s
  | none =>
    if v.same (.int 1) then some true else if v.same (.int 0) then some false else none

/-- The settings with one of them set. -/
def set (settings : Settings) (name : Name) (value : Value) : Option Settings :=
  match name with
  | .cwd => (text? value).map fun s => { settings with cwd := s }
  | .dateFormat => (text? value).map fun s => { settings with dateFormat := s }
  | .timeFormat => (text? value).map fun s => { settings with timeFormat := s }
  | .debug => (flag? value).map fun b => { settings with debug := b }

/-- The settings that the environment and explicit values give, with a time source. A variable
that an explicit value overrides is not looked at, and of names that differ in case the last one
counts. -/
def load (time : TimeSource) (environment : List (Text × Text))
    (explicit : List (Text × Value)) : Except Fault Settings := do
  let given ← explicit.mapM fun (n, v) =>
    match name? n with
    | some name => .ok (name, v)
    | none => .error .invalidSetting
  let found := environment.filterMap fun (n, s) => (settingOf? n).map fun name => (name, s)
  let values (name : Name) : Option Value :=
    ((given.reverse.find? fun p => p.1 = name).map Prod.snd).or
      ((found.reverse.find? fun p => p.1 = name).map fun p => .text p.2)
  named.foldlM (fun settings p =>
    match (values p.2).map (settings.set p.2) with
    | some (some settings) => .ok settings
    | some none => .error .invalidSetting
    | none => .ok settings) { time }

end Settings

end TagTemplate
