import Mathlib
import TagTemplate.Proofs.Atomicity
import TagTemplate.Proofs.Sessions

/-!
# The command line at any verbosity

The verbosity of a run of the command line is among its arguments, and with it comes one note that
is not made at all below a verbosity of 2. So runs at two verbosities are runs of two scripts, which
agree but for notes of level 2 and more (`Script.filter_check`). Leaving notes out changes nothing
else of a run (`Script.account_filter`), on whatever machine.

Together with what holds of sessions this is `same_but_for_logs` : neither the verbosity that is
connected nor the debug switch changes anything but the log, and the logs are excerpts of the one in
which all is shown.
-/

namespace TagTemplate

/-! ## Arguments that raise the verbosity -/

namespace CommandLine

/-- What arguments come to, with a verbosity that is one higher. -/
def Parsed.raise : Parsed → Parsed
  | .run o => .run { o with verbosity := o.verbosity + 1 }
  | p => p

/-- What has been read so far, with a verbosity that is one higher. -/
def Partial.raise (p : Partial) : Partial :=
  { p with verbosity := p.verbosity + 1 }

variable (p : Partial)

theorem addDirectory_raise (value : Given) :
    p.raise.addDirectory value = (p.addDirectory value).raise := by
  by_cases h : p.isOpen = true
  · have h' : p.raise.isOpen = true := h
    rw [Partial.addDirectory, Partial.addDirectory, if_pos h, if_pos h']
    rfl
  · have h' : ¬p.raise.isOpen = true := h
    rw [Partial.addDirectory, Partial.addDirectory, if_neg h, if_neg h']
    rfl

theorem set_raise (switch : Switch) (value : Given) :
    p.raise.set switch value = (p.set switch value).raise := by
  cases switch <;> rfl

theorem foldl_raise (texts : List Text) :
    texts.foldl (fun p s => p.addDirectory (.ofText s)) p.raise =
      (texts.foldl (fun p s => p.addDirectory (.ofText s)) p).raise := by
  induction texts generalizing p with
  | nil => rfl
  | cons s texts ih => rw [List.foldl_cons, List.foldl_cons, addDirectory_raise, ih]

theorem addSeparated_raise (afterDirectory : Bool) (texts : List Text) :
    p.raise.addSeparated afterDirectory texts = (p.addSeparated afterDirectory texts).raise := by
  cases afterDirectory with
  | true => exact foldl_raise p texts
  | false =>
    cases texts with
    | nil => rfl
    | cons s texts =>
      simp only [Partial.addSeparated, addDirectory_raise, foldl_raise]

theorem finish_raise : p.raise.finish = p.finish.raise := by
  unfold Partial.finish Partial.raise
  dsimp only
  split
  · split <;> rfl
  · rfl

theorem turn_raise (switches : List Switch) :
    p.raise.turn switches = (p.turn switches).map Parsed.raise Partial.raise := by
  induction switches generalizing p with
  | nil => rfl
  | cons switch switches ih =>
    cases switch with
    | verbosity => exact ih _
    | inputRecord => exact ih p
    | outputRecord => exact ih p
    | _ => rfl

theorem parseFrom_raise (afterDirectory : Bool) (arguments : List Argument) :
    parseFrom p.raise afterDirectory arguments =
      (parseFrom p afterDirectory arguments).raise := by
  fun_induction parseFrom p afterDirectory arguments with
  | case1 p after => exact finish_raise p
  | case2 p after s rest ih =>
    rw [parseFrom, addDirectory_raise]
    exact ih
  | case3 p after texts rest => rw [parseFrom, addSeparated_raise, finish_raise]
  | case4 p after switch h v rest ih =>
    simp only [parseFrom, h, if_true, set_raise]
    exact ih
  | case5 p after switch h v rest ih =>
    simp only [parseFrom, h, if_true, set_raise]
    exact ih
  | case6 p after switch rest h hrest =>
    rw [parseFrom, if_pos h]
    · rfl
    · exact hrest
  | case7 p after switch value rest h hvalue =>
    unfold parseFrom
    rw [if_neg h, if_pos hvalue]
    rfl
  | case8 p after switch value rest h hvalue parsed hturn =>
    unfold parseFrom
    rw [if_neg h, if_neg hvalue, turn_raise, hturn]
    rfl
  | case9 p after switch value rest h hvalue q hturn ih =>
    conv_lhs => unfold parseFrom
    rw [if_neg h, if_neg hvalue, turn_raise, hturn]
    exact ih
  | case10 p after switch together rest hnone =>
    simp only [parseFrom, hnone]
    rfl
  | case11 p after switch together rest switches hsome parsed hturn =>
    simp only [parseFrom, hsome, turn_raise, hturn, Sum.map_inl]
  | case12 p after switch together rest switches hsome q hturn ih =>
    simp only [parseFrom, hsome, turn_raise, hturn, Sum.map_inr]
    exact ih
  | case13 p after rest ih => exact ih
  | case14 p after rest => rfl

/-- One more `-v` in front raises the verbosity by one and changes nothing else. -/
theorem parse_cons_verbosity (arguments : List Text) :
    parse (['-', 'v'] :: arguments) = (parse arguments).raise := by
  have hclassify : classify (['-', 'v'] :: arguments) =
      .short .verbosity [] :: classify arguments := rfl
  unfold parse
  simp only [hclassify, List.mem_cons, reduceCtorEq, false_or]
  split
  next => rfl
  next => exact parseFrom_raise {} false _

end CommandLine

/-! ## Runs on a machine -/

namespace Script

variable {M F α β : Type}

/-- What a run on a machine leaves. -/
structure Account (M : Type) where
  /-- How it ended. -/
  ending : Ending
  /-- What it printed for results. -/
  output : Text
  /-- What it printed for errors. -/
  error : Text
  /-- What happened. -/
  journal : Journal
  /-- The state of the machine. -/
  state : M

/-- The run of a script on a machine, with all that it leaves. -/
def account (m : Machine M F) : Script α → M → Account M
  | done _, s => ⟨.exit 0, [], [], [], s⟩
  | stop e, s => ⟨e, [], [], [], s⟩
  | emit e p, s =>
    let r := p.account m s
    { r with journal := e :: r.journal }
  | print .output text p, s =>
    let r := p.account m s
    { r with output := text ++ r.output }
  | print .error text p, s =>
    let r := p.account m s
    { r with error := text ++ r.error }
  | kind path k, s => (k (m.kind s path)).account m s
  | resolve path k, s => (k (m.resolve s path)).account m s
  | read path k, s => (k (m.read s path)).account m s
  | makeDirectories path k, s =>
    (k (m.makeDirectories s path).1).account m (m.makeDirectories s path).2
  | write path bytes k, s => (k (m.write s path bytes).1).account m (m.write s path bytes).2

/-- What a run leaves that shows all that happens at once. -/
structure Played (M : Type) where
  /-- How it ended. -/
  ending : Ending
  /-- What it printed for results. -/
  output : Text
  /-- What it printed for errors. -/
  error : Text
  /-- What is seen of it. -/
  shown : Shown
  /-- The state of the machine. -/
  state : M

/-- The run of a script on a machine that looks at the verbosity for every event. `t` is what is
seen before. -/
def play (m : Machine M F) (v : Verbosity) : Script α → M → Shown → Played M
  | done _, s, t => ⟨.exit 0, [], [], t, s⟩
  | stop e, s, t => ⟨e, [], [], t, s⟩
  | emit e p, s, t => p.play m v s (t.add v e)
  | print .output text p, s, t =>
    let r := p.play m v s t
    { r with output := text ++ r.output }
  | print .error text p, s, t =>
    let r := p.play m v s t
    { r with error := text ++ r.error }
  | kind path k, s, t => (k (m.kind s path)).play m v s t
  | resolve path k, s, t => (k (m.resolve s path)).play m v s t
  | read path k, s, t => (k (m.read s path)).play m v s t
  | makeDirectories path k, s, t =>
    (k (m.makeDirectories s path).1).play m v (m.makeDirectories s path).2 t
  | write path bytes k, s, t =>
    (k (m.write s path bytes).1).play m v (m.write s path bytes).2 t

/-- What is seen of a run is its journal. -/
theorem play_eq (m : Machine M F) (v : Verbosity) (p : Script α) (s : M) (t : Shown) :
    p.play m v s t = let r := p.account m s
      ⟨r.ending, r.output, r.error, t.tell v r.journal, r.state⟩ := by
  induction p generalizing s t with
  | done a => rfl
  | stop e => rfl
  | emit e p ih => exact ih s (t.add v e)
  | print stream text p ih => cases stream <;> simp only [play, account, ih]
  | kind path k ih => exact ih _ s t
  | resolve path k ih => exact ih _ s t
  | read path k ih => exact ih _ s t
  | makeDirectories path k ih => exact ih _ _ t
  | write path bytes k ih => exact ih _ _ t

/-- A report shown at a verbosity. -/
def Report.played (v : Verbosity) (r : Report) : Played FileStore :=
  ⟨r.ending, r.output, r.error, Shown.tell v {} r.journal, r.store⟩

/-- A store is a machine. -/
theorem account_machine (p : Script α) (s : FileStore) :
    p.account FileStore.machine s = let r := p.runIn s
      ⟨r.ending, r.output, r.error, r.journal, r.store⟩ := by
  induction p generalizing s with
  | done a => rfl
  | stop e => rfl
  | emit e p ih => simp only [account, runIn, ih]
  | print stream text p ih => cases stream <;> simp only [account, runIn, ih]
  | kind path k ih => exact ih _ s
  | resolve path k ih => exact ih _ s
  | read path k ih => exact ih _ s
  | makeDirectories path k ih => exact ih _ _
  | write path bytes k ih => exact ih _ _

theorem play_machine (v : Verbosity) (p : Script α) (s : FileStore) :
    p.play FileStore.machine v s {} = (p.runIn s).played v := by
  rw [play_eq, account_machine]
  rfl

/-! ## Scripts without some of their events -/

/-- The script without the events for which `keep` is false. -/
def filter (keep : Event → Bool) : Script α → Script α
  | done a => done a
  | stop e => stop e
  | emit e p => if keep e then emit e (p.filter keep) else p.filter keep
  | print stream text p => print stream text (p.filter keep)
  | kind path k => kind path fun r => (k r).filter keep
  | resolve path k => resolve path fun r => (k r).filter keep
  | read path k => read path fun r => (k r).filter keep
  | makeDirectories path k => makeDirectories path fun r => (k r).filter keep
  | write path bytes k => write path bytes fun r => (k r).filter keep

variable (keep : Event → Bool)

/-- What is left out is missing in the journal, and nothing else changes. -/
theorem account_filter (m : Machine M F) (p : Script α) (s : M) :
    (p.filter keep).account m s =
      { p.account m s with journal := (p.account m s).journal.filter keep } := by
  induction p generalizing s with
  | done a => rfl
  | stop e => rfl
  | emit e p ih => cases he : keep e <;> simp [filter, account, he, ih]
  | print stream text p ih => cases stream <;> simp only [filter, account, ih]
  | kind path k ih => exact ih _ s
  | resolve path k ih => exact ih _ s
  | read path k ih => exact ih _ s
  | makeDirectories path k ih => exact ih _ _
  | write path bytes k ih => exact ih _ _

theorem filter_bind (p : Script α) (next : α → Script β) :
    (p.bind next).filter keep = (p.filter keep).bind fun a => (next a).filter keep := by
  induction p with
  | done a => rfl
  | stop e => rfl
  | emit e p ih => cases he : keep e <;> simp [filter, bind, he, ih]
  | print stream text p ih => exact congrArg (Script.print stream text) ih
  | kind path k ih => exact congrArg (Script.kind path) (funext ih)
  | resolve path k ih => exact congrArg (Script.resolve path) (funext ih)
  | read path k ih => exact congrArg (Script.read path) (funext ih)
  | makeDirectories path k ih => exact congrArg (Script.makeDirectories path) (funext ih)
  | write path bytes k ih => exact congrArg (Script.write path bytes) (funext ih)

/-! ## The levels of notes -/

/-- Whatever a machine answers, the script writes only notes whose level has `P`. -/
inductive TellsAt (P : Nat → Prop) : Script α → Prop
  | done (a : α) : TellsAt P (.done a)
  | stop (e : Ending) : TellsAt P (.stop e)
  | emit {e : Event} (he : e.HasLevel P) {p : Script α} (h : TellsAt P p) : TellsAt P (.emit e p)
  | print (stream : Stream) (text : Text) {p : Script α} (h : TellsAt P p) :
    TellsAt P (.print stream text p)
  | kind (path : Path) {k : Except FileFault (Option FileKind) → Script α}
    (h : ∀ r, TellsAt P (k r)) : TellsAt P (.kind path k)
  | resolve (path : Path) {k : Path → Script α} (h : ∀ r, TellsAt P (k r)) :
    TellsAt P (.resolve path k)
  | read (path : Path) {k : Except FileFault (List UInt8) → Script α} (h : ∀ r, TellsAt P (k r)) :
    TellsAt P (.read path k)
  | makeDirectories (path : Path) {k : Option FileFault → Script α} (h : ∀ r, TellsAt P (k r)) :
    TellsAt P (.makeDirectories path k)
  | write (path : Path) (bytes : List UInt8) {k : Option FileFault → Script α}
    (h : ∀ r, TellsAt P (k r)) : TellsAt P (.write path bytes k)

namespace TellsAt

variable {P : Nat → Prop}

theorem bind {p : Script α} {next : α → Script β} (hp : p.TellsAt P)
    (hnext : ∀ a, (next a).TellsAt P) : (p.bind next).TellsAt P := by
  induction hp with
  | done a => exact hnext a
  | stop e => exact .stop e
  | emit he _ ih => exact .emit he ih
  | print stream text _ ih => exact .print stream text ih
  | kind path _ ih => exact .kind path ih
  | resolve path _ ih => exact .resolve path ih
  | read path _ ih => exact .read path ih
  | makeDirectories path _ ih => exact .makeDirectories path ih
  | write path bytes _ ih => exact .write path bytes ih

theorem ite {c : Prop} [Decidable c] {p : Script Unit} {next : Unit → Script β}
    (hp : p.TellsAt P) (hnext : (next ()).TellsAt P) :
    (if c then p.bind next else next ()).TellsAt P := by
  split
  · exact hp.bind fun _ => hnext
  · exact hnext

theorem note {level : Nat} (h : P level) (text : Text) : (Script.note level text).TellsAt P := by
  have hnote : (Event.note (.progress level text)).HasLevel P := h
  exact .emit hnote (.done ())

theorem tell : ∀ {j : Journal}, (∀ e ∈ j, e.HasLevel P) → (Script.tell j).TellsAt P
  | [], _ => .done ()
  | _ :: _, h => .emit (List.forall_mem_cons.mp h).1 (tell (List.forall_mem_cons.mp h).2)

theorem exitWith (status : Nat) (text : Text) :
    (Script.exitWith status text : Script α).TellsAt P :=
  .print _ _ (.stop _)

theorem account {p : Script α} (h : p.TellsAt P) (m : Machine M F) (s : M) :
    ∀ e ∈ (p.account m s).journal, e.HasLevel P := by
  induction h generalizing s with
  | done a => simp [Script.account]
  | stop e => simp [Script.account]
  | emit he _ ih => exact List.forall_mem_cons.mpr ⟨he, ih s⟩
  | print stream text _ ih => cases stream <;> exact ih s
  | kind path _ ih => exact ih _ s
  | resolve path _ ih => exact ih _ s
  | read path _ ih => exact ih _ s
  | makeDirectories path _ ih => exact ih _ _
  | write path bytes _ ih => exact ih _ _

end TellsAt

/-- A script that prepares a run writes no notes. -/
theorem Prepares.tellsAt {Q : α → Prop} {P : Nat → Prop} {p : Script α} (h : p.Prepares Q) :
    p.TellsAt P := by
  induction h with
  | done _ => exact .done _
  | stop _ => exact .stop _
  | print stream text _ ih => exact .print stream text ih
  | kind path _ ih => exact .kind path ih
  | resolve path _ ih => exact .resolve path ih
  | read path _ ih => exact .read path ih
  | makeDirectories path _ ih => exact .makeDirectories path ih

end Script

/-! ## The stages of a run -/

namespace Command

open CommandLine (Given Options Parsed)
open Script (Prepares TellsAt)

variable {M F : Type}

theorem tellsAt_workingDirectory {P : Nat → Prop} (o : Options) (inputdir : Path) :
    (workingDirectory o inputdir).TellsAt P := by
  unfold workingDirectory
  split
  · exact .done _
  · exact .done _
  · exact .resolve _ fun _ => .done _

theorem tellsAt_check (o : Options) (inputdir outputdir : Path) :
    (check o inputdir outputdir).TellsAt (· ≤ 3) := by
  have hnote (text : Text) : (Script.note 2 text).TellsAt (· ≤ 3) := .note (by decide) text
  rw [check]
  refine .ite (hnote _) ?_
  refine (hnote _).bind fun _ => (prepares_textOf _ _).tellsAt.bind fun inputFile =>
    (Prepares.kindOf _).tellsAt.bind fun _ => .ite (.exitWith _ _) ?_
  exact (hnote _).bind fun _ => (tellsAt_workingDirectory o _).bind fun cwd =>
    (hnote _).bind fun _ => (Prepares.ensureDirectory _).tellsAt.bind fun _ =>
      (hnote _).bind fun _ => .done _

theorem tellsAt_parse {P : Nat → Prop} (format : Format) (text : Text) :
    (parse format text).TellsAt P := by
  cases format with
  | text => exact .done _
  | json =>
    simp only [parse]
    split
    · exact .done _
    · exact .exitWith _ _
    · exact .stop _
  | yaml =>
    simp only [parse]
    split
    · exact .done _
    next f _ =>
      cases f.escaping? with
      | none => exact .exitWith _ _
      | some f => exact .stop _

theorem tellsAt_readSource (plan : Plan) : (readSource plan).TellsAt (· ≤ 3) := by
  refine (TellsAt.note (by decide) _).bind fun _ => .read _ fun r => ?_
  have hrest (text : Text) : (Script.bind (Script.note 2
      (s!"Read {text.length} characters from ".toList ++ plan.source.name)) fun _ =>
        parse plan.format text).TellsAt (· ≤ 3) :=
    (TellsAt.note (by decide) _).bind fun _ => tellsAt_parse _ _
  simp only [Script.bind]
  split
  · exact (TellsAt.exitWith _ _).bind hrest
  · split
    · exact (TellsAt.exitWith _ _).bind hrest
    · exact hrest _

theorem tellsAt_engineIn (P : Nat → Prop) (settings : Settings) (cwd : Text) :
    (engineIn settings cwd).TellsAt P :=
  fun body => body.elim

theorem hasLevel_expansionRun {P : Nat → Prop} (h3 : P 3) (settings : Settings) (plan : Plan)
    (v : Value) : ∀ e ∈ (expansionRun settings plan v).journal, e.HasLevel P := by
  have hengine := tellsAt_engineIn P settings plan.cwd
  unfold expansionRun
  split
  · exact ((hengine.parseSync h3 v).bind fun e => .done _).run ()
  · exact ((hengine.walkSync h3 v).bind fun w => .done _).run ()

theorem tellsAt_expand (settings : Settings) (plan : Plan) (v : Value) :
    (expand settings plan v).TellsAt (· ≤ 3) := by
  have hmade : ∀ e ∈ (Registry.new (some plan.cwd) ([] : List (Offer Empty))).notes.map Event.note,
      e.HasLevel (· ≤ 3) := (Registry.quiet_clear _).events (by decide)
  have hrun : ∀ e ∈ (expansionRun settings plan v).journal, e.HasLevel (· ≤ 3) :=
    hasLevel_expansionRun (by decide) settings plan v
  rw [expand_eq]
  refine (TellsAt.note (by decide) _).bind fun _ => (TellsAt.tell hmade).bind fun _ =>
    (TellsAt.tell hrun).bind fun _ => ?_
  split
  · unfold expansionFailed
    split
    · split
      · exact .exitWith _ _
      · exact .stop _
    · exact .stop _
  · exact (TellsAt.note (by decide) _).bind fun _ => .done _

theorem tellsAt_render {P : Nat → Prop} (format : Format) (e : Expanded) :
    (render format e).TellsAt P := by
  cases format with
  | text => exact .done _
  | json => exact .done _
  | yaml =>
    simp only [render]
    cases Yaml.write? e.tree with
    | none => exact .stop _
    | some t => exact .done t

theorem tellsAt_writeResult (plan : Plan) (text : Text) :
    (writeResult plan text).TellsAt (· ≤ 3) := by
  refine .write _ _ fun r => ?_
  simp only [Script.bind]
  split
  · split
    · exact .stop _
    · exact .exitWith _ _
  · exact .note (by decide) _

theorem tellsAt_report (plan : Plan) (e : Expanded) : (report plan e).TellsAt (· ≤ 3) := by
  refine (TellsAt.note (by decide) _).bind fun _ => (TellsAt.note (by decide) _).bind fun _ => ?_
  cases e.count with
  | none => exact .done _
  | some n => exact .note (by decide) _

/-- All that is noted in a run of the command line is of level 3 or less. -/
theorem tellsAt_script (frontend : Frontend) (settings : Settings) (arguments : List Text) :
    (script frontend settings arguments).TellsAt (· ≤ 3) := by
  unfold script
  split
  next o _ =>
    exact (frontend.prepares_directories _ _).tellsAt.bind fun d =>
      (tellsAt_check o d.1 d.2).bind fun plan => (tellsAt_readSource plan).bind fun v =>
        (tellsAt_expand settings plan v).bind fun e => (tellsAt_render _ e).bind fun text =>
          (tellsAt_writeResult plan text).bind fun _ => tellsAt_report plan e
  next => exact .print _ _ (.stop _)
  next => exact .stop _
  next => exact .exitWith _ _

/-! ## Runs at two verbosities -/

end Command

/-- The event is no note, or one that is shown at a verbosity below 2. -/
def Event.isBrief : Event → Bool
  | .note n => n.level < 2
  | _ => true

theorem call?_of_not_isBrief {e : Event} (h : e.isBrief = false) : e.call? = none := by
  cases e with
  | note n => rfl
  | _ => cases h

theorem line?_of_not_isBrief {v : Verbosity} (hv : v.shows 2 = false) {e : Event}
    (h : e.isBrief = false) : v.line? e = none := by
  cases e with
  | note n =>
    have hlevel : 2 ≤ n.level := Nat.le_of_not_lt fun hlt => by simp [Event.isBrief, hlt] at h
    cases hn : v.shows n.level with
    | true => rw [Verbosity.shows_of_le hn hlevel] at hv; cases hv
    | false => simp [Verbosity.line?, hn]
  | _ => cases h

/-- What is made of brief events only. -/
theorem filterMap_isBrief {β : Type} {f : Event → Option β}
    (h : ∀ e, Event.isBrief e = false → f e = none) (j : Journal) :
    (j.filter Event.isBrief).filterMap f = j.filterMap f := by
  rw [List.filterMap_filter]
  refine List.filterMap_congr fun e _ => ?_
  cases he : e.isBrief with
  | true => rfl
  | false => simp [h e he]

namespace Script

variable {M F α : Type}

/-- All that a run leaves but its log. -/
def Played.effects (x : Played M) : Ending × Text × Text × List CallRecord × M :=
  (x.ending, x.output, x.error, x.shown.calls, x.state)

/-- Runs at the verbosities `v` and `w` differ in their logs only. -/
structure Played.Alike (v w : Verbosity) (x y : Played M) : Prop where
  /-- They end alike, print the same, make the same calls and leave the same files. -/
  effects : x.effects = y.effects
  /-- Without the debug switch, the log at `v` has the errors and the notes that `v` shows of the
  log at a verbosity of 3 or more. -/
  lines : v.debug = false → w.debug = false → w.shows 3 = true →
    x.shown.log = y.shown.log.filter v.admits

/-- Scripts that are the same but for notes that `v` may leave out. -/
theorem alike_play {p q : Script α} {v w : Verbosity}
    (hbrief : p.filter Event.isBrief = q.filter Event.isBrief) (hq : q.TellsAt (· ≤ 3))
    (hsame : v.debug = false → v.shows 2 = true → w.debug = false → w.shows 2 = true → p = q)
    (m : Machine M F) (s : M) : (p.play m v s {}).Alike v w (q.play m w s {}) := by
  have haccount := (account_filter Event.isBrief m p s).symm.trans
    ((congrArg (account m · s) hbrief).trans (account_filter Event.isBrief m q s))
  simp only [play_eq, Shown.tell_eq, List.nil_append]
  generalize hx : p.account m s = x at haccount
  generalize hy : q.account m s = y at haccount
  simp only [Account.mk.injEq] at haccount
  obtain ⟨hending, houtput, herror, hj, hstate⟩ := haccount
  refine ⟨?_, fun hv hw hshows => ?_⟩
  · have hcalls : x.journal.filterMap Event.call? = y.journal.filterMap Event.call? := by
      rw [← filterMap_isBrief (fun _ => call?_of_not_isBrief), hj,
        filterMap_isBrief fun _ => call?_of_not_isBrief]
    simp only [Played.effects, hending, houtput, herror, hcalls, hstate]
  · have hlevels : ∀ e ∈ y.journal, e.HasLevel fun n => w.shows n = true := fun e he =>
      (hq.account m s e (hy ▸ he)).imp fun n hn => Verbosity.shows_of_le hshows hn
    show v.log x.journal = (w.log y.journal).filter v.admits
    rw [← Verbosity.log_eq_filter hlevels]
    cases h : v.shows 2 with
    | true =>
      rw [← hx, ← hy, hsame hv h hw (Verbosity.shows_of_le hshows (by decide))]
    | false =>
      rw [Verbosity.log, ← filterMap_isBrief (fun _ => line?_of_not_isBrief h), hj,
        filterMap_isBrief fun _ => line?_of_not_isBrief h]
      rfl

end Script

namespace Command

open CommandLine (Options Parsed)

/-- The title is left out at a verbosity below 2. -/
theorem filter_title {α : Type} (c : Prop) [Decidable c] (next : Unit → Script α) :
    (if c then (Script.note 2 title).bind next else next ()).filter Event.isBrief =
      (next ()).filter Event.isBrief := by
  split <;> rfl

theorem filter_check (o : Options) (n : Nat) (inputdir outputdir : Path) :
    (check { o with verbosity := n } inputdir outputdir).filter Event.isBrief =
      (check o inputdir outputdir).filter Event.isBrief := by
  rw [check, check]
  refine (filter_title _ _).trans (Eq.trans ?_ (filter_title _ _).symm)
  rfl

theorem check_of_le {o : Options} {n : Nat} (hn : 2 ≤ n) (ho : 2 ≤ o.verbosity)
    (inputdir outputdir : Path) :
    check { o with verbosity := n } inputdir outputdir = check o inputdir outputdir := by
  rw [check, check, if_pos hn, if_pos ho]
  rfl

/-- The stages after the paths were checked. -/
def proceed (settings : Settings) (plan : Plan) : Script Unit :=
  (readSource plan).bind fun v => (expand settings plan v).bind fun e =>
    (render plan.format e).bind fun text => (writeResult plan text).bind fun _ => report plan e

variable {frontend : Frontend} {settings : Settings} {o : Options}

/-- No stage looks at the debug switch, and only the check looks at the verbosity. -/
theorem expandFile_eq_check (frontend : Frontend) (settings : Settings) (debug : Bool)
    (o : Options) (n : Nat) :
    expandFile frontend { settings with debug := debug } { o with verbosity := n } =
      (frontend.directories o.inputdir o.outputdir).bind fun d =>
        (check { o with verbosity := n } d.1 d.2).bind fun plan => proceed settings plan :=
  rfl

theorem filter_expandFile (debug : Bool) (n : Nat) :
    (expandFile frontend { settings with debug := debug } { o with verbosity := n }).filter
        Event.isBrief = (expandFile frontend settings o).filter Event.isBrief := by
  rw [expandFile_eq_check, expandFile_eq_check frontend settings settings.debug o o.verbosity]
  simp only [Script.filter_bind, filter_check]

theorem expandFile_of_le {debug : Bool} {n : Nat} (hn : 2 ≤ n) (ho : 2 ≤ o.verbosity) :
    expandFile frontend { settings with debug := debug } { o with verbosity := n } =
      expandFile frontend settings o := by
  rw [expandFile_eq_check, expandFile_eq_check frontend settings settings.debug o o.verbosity]
  simp only [check_of_le hn ho]

end Command

/-- What arguments come to, with another verbosity. -/
def CommandLine.Parsed.withVerbosity (n : Nat) : CommandLine.Parsed → CommandLine.Parsed
  | .run o => .run { o with verbosity := n }
  | p => p

namespace Command

open CommandLine (Parsed)

/-- The arguments ask for the same, their verbosities aside. -/
def Frontend.AskSame (frontend : Frontend) (a b : List Text) : Prop :=
  (frontend.parse a).withVerbosity 0 = (frontend.parse b).withVerbosity 0

/-- Arguments may ask for any higher verbosity. -/
theorem Frontend.askSame_replicate (n : Nat) (arguments : List Text) :
    Frontend.usual.AskSame (List.replicate n ['-', 'v'] ++ arguments) arguments := by
  induction n with
  | zero => rfl
  | succ n ih =>
    refine Eq.trans ?_ ih
    rw [List.replicate_succ, List.cons_append]
    generalize List.replicate n ['-', 'v'] ++ arguments = rest
    change (CommandLine.parse (['-', 'v'] :: rest)).withVerbosity 0 =
      (CommandLine.parse rest).withVerbosity 0
    rw [CommandLine.parse_cons_verbosity]
    cases CommandLine.parse rest <;> rfl

variable {M F : Type} {frontend : Frontend} {a b : List Text}

theorem Frontend.AskSame.cases (h : frontend.AskSame a b) :
    (∃ o n, frontend.parse a = .run { o with verbosity := n } ∧ frontend.parse b = .run o) ∨
      frontend.parse a = frontend.parse b ∧ ∀ o, frontend.parse a ≠ .run o := by
  rw [AskSame] at h
  cases ha : frontend.parse a <;> cases hb : frontend.parse b <;> rw [ha, hb] at h
  case run.run o p =>
    refine .inl ⟨p, o.verbosity, ?_, rfl⟩
    obtain ⟨o1, o2, o3, o4, o5, o6⟩ := o
    obtain ⟨p1, p2, p3, p4, p5, p6⟩ := p
    simp_all [Parsed.withVerbosity]
  case version.version => exact .inr ⟨rfl, nofun⟩
  case help.help => exact .inr ⟨rfl, nofun⟩
  case wrong.wrong => exact .inr ⟨rfl, nofun⟩
  all_goals cases h

/-- The run for arguments on a machine, at the verbosity that they ask for. -/
def playOn (m : Machine M F) (frontend : Frontend) (settings : Settings) (arguments : List Text)
    (s : M) : Script.Played M :=
  (script frontend settings arguments).play m (verbosity frontend settings arguments) s {}

theorem script_of_not_run (hab : frontend.parse a = frontend.parse b)
    (hrun : ∀ o, frontend.parse a ≠ .run o) (settings settings' : Settings) :
    script frontend settings' a = script frontend settings b := by
  rw [script, script, hab]
  cases hb : frontend.parse b with
  | run o => exact absurd (hab.trans hb) (hrun o)
  | _ => rfl

theorem alike_playOn (settings : Settings) (debug : Bool) (h : frontend.AskSame a b)
    (m : Machine M F) (s : M) :
    Script.Played.Alike (verbosity frontend { settings with debug := debug } a)
      (verbosity frontend settings b) (playOn m frontend { settings with debug := debug } a s)
      (playOn m frontend settings b s) := by
  refine Script.alike_play ?_ (tellsAt_script frontend settings b)
    (fun hv hshows hw hshows' => ?_) m s
  · rcases h.cases with ⟨o, n, ha, hb⟩ | ⟨hab, hrun⟩
    · simp only [script, ha, hb]
      exact filter_expandFile debug n
    · rw [script_of_not_run hab hrun]
  · rcases h.cases with ⟨o, n, ha, hb⟩ | ⟨hab, hrun⟩
    · -- Both verbosities are 2 at least, so that both scripts show the title.
      simp only [verbosity, ha, hb, Verbosity.shows] at hv hshows hw hshows'
      simp only [hv, hw, Bool.false_or, Option.any_some, decide_eq_true_eq] at hshows hshows'
      simp only [script, ha, hb]
      exact expandFile_of_le (by omega) (by omega)
    · exact script_of_not_run hab hrun _ _

end Command

/-! ## Sessions and runs -/

/-- Whatever the verbosities `V i` and `W i` that are connected during the orders of a session, and
whatever the debug switch then is, every order is answered alike, makes the same calls and leaves
the same processors, whether or not it fails. If handlers write no notes above level 3, the log of
an order at `V i` is an excerpt of its log at `W i` where that shows level 3 : with the debug switch
all of it, else the errors and the notes of a level up to the verbosity. Below 3 these are only the
errors, if handlers write no notes but those of engines.

Runs of the command line that ask for the same, but for the verbosity, end alike, print the same,
make the same calls and leave the same files, with any front end and on any machine, and so on a
store, whatever the debug switch is. Without it, the log at one verbosity has the errors and the
notes of a level up to it of the log at one of 3 or more. -/
theorem same_but_for_logs (settings : Settings) :
    (∀ {B R σ : Type}
      (custom : List (Registry B) → Registry B → B → Mode → Arguments → Process σ Value)
      (V W : Nat → Verbosity) (ps : Processors B σ) (os : List (Order B R)),
      let xs := ps.run settings custom V os
      let ys := ps.run settings custom W os
      xs.map Processors.Step.effects = ys.map Processors.Step.effects ∧
        (Processors.HandlersTellAt custom (· ≤ 3) → ∀ i x y, xs[i]? = some x → ys[i]? = some y →
          (W i).shows 3 = true →
            Excerpt (V i) (Processors.HandlersTellAt custom (· = 3)) x.shown.log y.shown.log)) ∧
    ∀ (frontend : Command.Frontend) (debug : Bool) (a b : List Text), frontend.AskSame a b →
      let v := Command.verbosity frontend { settings with debug := debug } a
      let w := Command.verbosity frontend settings b
      (∀ {M F : Type} (m : Machine M F) (s : M), Script.Played.Alike v w
        (Command.playOn m frontend { settings with debug := debug } a s)
        (Command.playOn m frontend settings b s)) ∧
      ∀ store : FileStore, Script.Played.Alike v w
        (((Command.script frontend { settings with debug := debug } a).runIn store).played v)
        (((Command.script frontend settings b).runIn store).played w) := by
  constructor
  · intro B R σ custom V W ps os xs ys
    exact ⟨ps.effects_run settings custom V W os,
      fun htells i x y hx hy hw => ps.excerpt_run settings htells V W os hx hy hw⟩
  · intro frontend debug a b hsame v w
    refine ⟨fun m s => Command.alike_playOn settings debug hsame m s, fun store => ?_⟩
    rw [← Script.play_machine, ← Script.play_machine]
    exact Command.alike_playOn settings debug hsame FileStore.machine store

/-- Nothing but errors is shown. -/
def stillness (_ : Nat) : Verbosity :=
  ⟨some 0, false⟩

/-- All that the engine notes is shown. -/
def talk (_ : Nat) : Verbosity :=
  ⟨some 3, false⟩

theorem same_but_for_logs_sample :
    let custom := fun (_ : List (Registry Scripted)) r =>
      Scripted.perform r {} Scripted.nestingLimit
    let made (V : Nat → Verbosity) : Processors.Step Scripted Result Shelf :=
      Processors.step {} custom (V 0) ⟨[], {}⟩ (.make none [])
    let a := Command.sampleArguments "t.json".toList
    let b := List.replicate 2 ['-', 'v'] ++ a
    (Processors.HandlersTellAt custom (· ≤ 3) ∧ Processors.HandlersTellAt custom (· = 3)) ∧
      (made stillness).shown.log = (made talk).shown.log.filter LogLine.isError ∧
        (made talk).shown.log.length = 3 ∧ Command.Frontend.usual.AskSame a b ∧
          Command.verbosity .usual {} a = ⟨some 1, false⟩ ∧
          Command.verbosity .usual {} b = ⟨some 3, false⟩ ∧
          let x := ((Command.script .usual {} a).runIn Command.sampleStore).played ⟨some 1, false⟩
          let y := ((Command.script .usual {} b).runIn Command.sampleStore).played ⟨some 3, false⟩
          x.effects = y.effects ∧
            x.shown.log = y.shown.log.filter (Verbosity.admits ⟨some 1, false⟩) := by
  intro custom made a b
  have htells (P : Nat → Prop) (h3 : P 3) : Processors.HandlersTellAt custom P :=
    fun _ r => Scripted.tellsAt_perform h3 r {} Scripted.nestingLimit
  have hsame : Command.Frontend.usual.AskSame a b := (Command.Frontend.askSame_replicate 2 a).symm
  have hv : Command.verbosity .usual {} a = ⟨some 1, false⟩ := by decide +kernel
  have hw : Command.verbosity .usual {} b = ⟨some 3, false⟩ := by decide +kernel
  obtain ⟨hsessions, hruns⟩ := same_but_for_logs {}
  obtain ⟨-, hlogs⟩ := hsessions (R := Result) custom stillness talk ⟨[], {}⟩ [.make none []]
  have hexcerpt := hlogs (htells _ (by decide)) 0 (made stillness) (made talk) rfl rfl rfl
  have halike := (hruns .usual false a b hsame).2 Command.sampleStore
  rw [hv, hw] at halike
  exact ⟨⟨htells _ (by decide), htells _ rfl⟩, hexcerpt.errors (htells _ rfl) rfl, rfl, hsame, hv,
    hw, halike.effects, halike.lines rfl rfl rfl⟩

end TagTemplate
