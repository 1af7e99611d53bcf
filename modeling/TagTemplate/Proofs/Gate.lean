import TagTemplate.Proofs.History
import TagTemplate.Proofs.Isolation
import TagTemplate.Session

/-!
# The gate before synchronous runs

A synchronous run is refused while the registry remembers an asynchronous handler. What it
remembers is known from the history of the registry (`Registry.InUse`), and in the registry of a
processor that is what handlers are declared to be : whichever way a handler gets there, its
declaration is looked at again (`Registry.detected_since`).

The refusal is the gate's alone. An evaluation fails by itself only where a numeral is too long
(`Evaluation.FailsOnNumerals`), and what a handler fails with is reported together with the tag, so
a run that was let through never ends the way a refused one does (`ne_asyncRegistered_textSync`).
-/

namespace TagTemplate

variable {B σ α β : Type}

/-! ## How runs fail that are let through -/

/-- Whether a fault is that a numeral is too long. -/
def Fault.isNumeral : Fault → Bool
  | .numeralTooLong _ | .integerTooLong => true
  | _ => false

namespace Evaluation

/-- The evaluation fails by itself only where a numeral is too long. -/
inductive FailsOnNumerals : Evaluation B α → Prop
  | done (a : α) : FailsOnNumerals (.done a)
  | fail {f : Fault} (h : f.isNumeral = true) : FailsOnNumerals (.fail f)
  | note (n : Note) {e : Evaluation B α} (h : FailsOnNumerals e) : FailsOnNumerals (.note n e)
  | call (c : Call B) {resume : Value → Evaluation B α} (h : ∀ v, FailsOnNumerals (resume v)) :
    FailsOnNumerals (.call c resume)

theorem FailsOnNumerals.bind {e : Evaluation B α} {next : α → Evaluation B β}
    (he : e.FailsOnNumerals) (hnext : ∀ a, (next a).FailsOnNumerals) :
    (e.bind next).FailsOnNumerals := by
  induction he with
  | done a => exact hnext a
  | fail h => exact .fail h
  | note n _ ih => exact .note n ih
  | call c _ ih => exact .call c ih

theorem failsOnNumerals_splice (v : Value) : (splice v : Evaluation B Text).FailsOnNumerals := by
  cases h : v.spliced? with
  | none => rw [splice_of_none h]; exact .fail rfl
  | some t => rw [splice_of_some h]; exact .done t

end Evaluation

theorem keeps_failsOnNumerals (look : Text → Option (Spec B)) :
    Evaluation.Keeps look fun _ e => e.FailsOnNumerals where
  done := .done
  fail _ := .fail rfl
  note n _ h := .note n h
  call _ := .call _ Evaluation.failsOnNumerals_splice
  bind he hnext := he.bind hnext

/-- A driven evaluation fails by itself or because an answer does. -/
theorem fault_drive_cases {answer : Call B → Process σ Value} {e : Evaluation B α}
    (he : e.FailsOnNumerals) {s : σ} {f : Fault}
    (hf : ((e.drive answer).run s).outcome = .error f) :
    f.isNumeral = true ∨ ∃ c t, ((answer c).run t).outcome = .error f := by
  induction he generalizing s with
  | done a => cases hf
  | fail h =>
    obtain rfl := Except.error.inj hf
    exact .inl h
  | note n _ ih => exact ih hf
  | call c _ ih =>
    rw [Evaluation.drive, Process.run_bind, Run.bind] at hf
    cases ho : ((answer c).run s).outcome with
    | error g =>
      rw [ho] at hf
      obtain rfl := Except.error.inj hf
      exact .inr ⟨c, s, ho⟩
    | ok v =>
      rw [ho] at hf
      exact ih v hf

theorem Fault.ofHandler_ne_asyncRegistered (name written : Text) (f : Fault) :
    f.ofHandler name written ≠ .asyncRegistered := by
  rcases f.ofHandler_cases name written with ⟨-, -, -, hf⟩ | ⟨-, -, hw⟩ | ⟨hpassed, hf⟩
  · rw [hf]; nofun
  · obtain ⟨kind, text, -, hf⟩ := Fault.eq_raised_of_wording hw
    rw [hf]
    nofun
  · rw [hf]
    rintro rfl
    rcases hpassed with h | h <;> cases h

/-- An answer to a synchronous call fails in another way than the gate. -/
theorem Call.ne_asyncRegistered_answerSync (perform : Call B → Process σ Value) (c : Call B)
    (s : σ) : ((c.answerSync perform).run s).outcome ≠ .error .asyncRegistered := by
  cases ha : c.spec.handler.isAwaited with
  | true => rw [Call.run_answerSync_of_isAwaited _ _ _ ha]; nofun
  | false =>
    rw [Call.run_answerSync _ _ _ ha, Call.run_answerAsync, Call.run_bodyProcess]
    cases ho : ((perform c).run s).outcome with
    | ok v => simp [Except.mapError]
    | error f => simpa [Except.mapError] using Fault.ofHandler_ne_asyncRegistered _ _ f

theorem InTurn.run_eq {evaluateText : Text → Process σ Text} {s t : σ} {xs : List (LeafRun σ)}
    (h : InTurn evaluateText s xs t) :
    ∀ x ∈ xs, x.run = (evaluateText x.leaf.text).run x.before := by
  induction h with
  | nil s => simp
  | cons leaf s _ ih => exact List.forall_mem_cons.mpr ⟨rfl, ih⟩

namespace Engine

variable (e : Engine B σ)

theorem ne_asyncRegistered_textSync (source : Text) (s : σ) :
    ((e.textSync source).run s).outcome ≠ .error .asyncRegistered := by
  intro hf
  rcases fault_drive_cases (kept_evaluate (keeps_failsOnNumerals _) source) hf with h | ⟨c, t, h⟩
  · cases h
  · exact c.ne_asyncRegistered_answerSync e.perform t h

/-- The run of `leafText` is that of the evaluation, but for its result. -/
theorem run_leafText (source : Text) (s : σ) :
    (e.leafText source).run s = ⟨((e.textSync source).run s).outcome.map Evaluated.text,
      ((e.textSync source).run s).state, ((e.textSync source).run s).journal⟩ := by
  rw [leafText, Process.run_bind, Run.bind]
  cases ((e.textSync source).run s).outcome <;> simp [Process.run, Except.map]

theorem ne_asyncRegistered_leafText (source : Text) (s : σ) :
    ((e.leafText source).run s).outcome ≠ .error .asyncRegistered := by
  intro hf
  rw [run_leafText] at hf
  refine e.ne_asyncRegistered_textSync source s ?_
  cases ho : ((e.textSync source).run s).outcome with
  | ok r => rw [ho] at hf; cases hf
  | error f => rw [ho] at hf; exact congrArg _ (Except.error.inj hf)

/-- No synchronous walk fails the way the gate does. -/
theorem ne_asyncRegistered_walk (tree : Value) (s : σ) :
    ((Value.walkSync hasOpening e.leafText tree).run s).outcome ≠ .error .asyncRegistered := by
  intro hf
  obtain ⟨xs, hturns⟩ := takesTurns_walk e.leafText tree s
  rcases hturns.faults _ hf with h | ⟨x, hx, hout⟩
  · cases h
  · rw [hturns.turn.run_eq x hx] at hout
    exact e.ne_asyncRegistered_leafText _ _ hout

/-- No more does the evaluation of a source that need not be a text. -/
theorem ne_asyncRegistered_source (source : Value) (s : σ) :
    (((Process.ofExcept source.scanned).bind e.textSync).run s).outcome ≠
      .error .asyncRegistered := by
  rw [Process.run_bind, Run.bind]
  cases source with
  | text t => exact e.ne_asyncRegistered_textSync t s
  | _ => nofun

end Engine

/-! ## The calls of runs that are let through -/

theorem exists_look_of_mem_executions {look : Text → Option (Spec B)}
    {answer : Call B → Process σ Value} {e : Evaluation B α} (he : e.Proper look) (s : σ) :
    ∀ x ∈ e.executions answer s, ∃ name, look name = some x.call.spec := by
  induction he generalizing s with
  | done a => simp [Evaluation.executions]
  | fail h => simp [Evaluation.executions]
  | note n _ ih => exact ih s
  | @call c resume hname _ _ ih =>
    rw [Evaluation.executions, List.forall_mem_cons]
    refine ⟨hname, ?_⟩
    cases ((answer c).run s).outcome with
    | ok v => exact ih v _
    | error f => simp

namespace Engine

variable (e : Engine B σ)

/-- The evaluation of a text calls registered handlers only. -/
theorem spec_mem_of_mem_calls (d : Driver) (source : Text) (s : σ) :
    ∀ x ∈ e.calls d source s, x.call.spec ∈ e.registry.specs := by
  intro x hx
  obtain ⟨name, hname⟩ := exists_look_of_mem_executions (proper_evaluate _ source) s x hx
  exact Registry.mem_of_find? hname

theorem made_leafText (source : Text) (s : σ) :
    Made (Call.answerSync e.perform) s (e.calls .sync source s) ((e.leafText source).run s) := by
  obtain ⟨hseq, heff⟩ := made_textBy e .sync source s
  rw [run_leafText]
  exact ⟨hseq, heff⟩

end Engine

/-- What synchronous runs of an engine from the state `s` come to, where `declared` says that a
handler declared asynchronous was registered. -/
structure Guards (e : Engine B σ) (s : σ) (declared : Prop) : Prop where
  /-- An evaluation is refused exactly in that case. -/
  parse : ∀ source, ((e.parseSync source).run s).outcome = .error .asyncRegistered ↔ declared
  /-- So is a walk. -/
  walk : ∀ tree, ((e.walkSync tree).run s).outcome = .error .asyncRegistered ↔ declared
  /-- Where runs are refused, nothing happens and the state stays as it is. -/
  refuses : declared →
    (∀ source, (e.parseSync source).run s = ⟨.error .asyncRegistered, s, []⟩) ∧
      ∀ tree, (e.walkSync tree).run s = ⟨.error .asyncRegistered, s, []⟩
  /-- The calls of an evaluation are of registered handlers that are not declared asynchronous. -/
  parseCalls : ∀ source, ∃ xs : List (Execution B σ),
    Made (Call.answerSync e.perform) s xs ((e.parseSync source).run s) ∧
      ∀ x ∈ xs, x.call.spec ∈ e.registry.specs ∧ x.call.spec.handler.isDeclaredAsync = false
  /-- So are the calls of a walk, which are made in the evaluations of its texts. -/
  walkCalls : ∀ tree, ∃ xs : List (LeafRun σ),
    InTurn e.leafText s xs ((e.walkSync tree).run s).state ∧
      ((e.walkSync tree).run s).journal.calls = xs.flatMap (fun x => x.run.journal.calls) ∧
      ∀ x ∈ xs, ∃ ys : List (Execution B σ), Made (Call.answerSync e.perform) x.before ys x.run ∧
        ∀ y ∈ ys, y.call.spec ∈ e.registry.specs ∧ y.call.spec.handler.isDeclaredAsync = false

section Guards

variable {e : Engine B σ} (s : σ)

theorem guards_of_hasAsync (h : e.registry.hasAsync = true) {declared : Prop} (hd : declared) :
    Guards e s declared := by
  have hparse (source) : (e.parseSync source).run s = ⟨.error .asyncRegistered, s, []⟩ := by
    rw [Engine.parseSync, Engine.gated, if_pos h]
    rfl
  have hwalk (tree) : (e.walkSync tree).run s = ⟨.error .asyncRegistered, s, []⟩ := by
    rw [Engine.walkSync, Engine.gated, if_pos h]
    rfl
  constructor
  · exact fun source => iff_of_true (by rw [hparse]) hd
  · exact fun tree => iff_of_true (by rw [hwalk]) hd
  · exact fun _ => ⟨hparse, hwalk⟩
  · exact fun source => ⟨[], by rw [hparse]; exact ⟨.nil s, rfl⟩, by simp⟩
  · exact fun tree => ⟨[], by rw [hwalk]; exact .nil s, by rw [hwalk]; rfl, by simp⟩

theorem guards_of_quiet (h : e.registry.hasAsync = false)
    (hquiet : ∀ spec ∈ e.registry.specs, spec.handler.isDeclaredAsync = false) {declared : Prop}
    (hd : ¬declared) : Guards e s declared := by
  have hnot : ¬e.registry.hasAsync = true := by simp [h]
  have hcalls (source t) : ∀ y ∈ e.calls .sync source t,
      y.call.spec ∈ e.registry.specs ∧ y.call.spec.handler.isDeclaredAsync = false :=
    fun y hy => ⟨e.spec_mem_of_mem_calls .sync source t y hy,
      hquiet _ (e.spec_mem_of_mem_calls .sync source t y hy)⟩
  have hparse (source) : e.parseSync source =
      (Process.ofExcept source.scanned).bind e.textSync := if_neg hnot
  have hwalk (tree) : e.walkSync tree = Value.walkSync hasOpening e.leafText tree := if_neg hnot
  constructor
  · exact fun source => iff_of_false (hparse source ▸ e.ne_asyncRegistered_source source s) hd
  · exact fun tree => iff_of_false (hwalk tree ▸ e.ne_asyncRegistered_walk tree s) hd
  · exact fun h => absurd h hd
  · intro source
    rw [hparse]
    cases source with
    | text t => exact ⟨_, made_textBy e .sync t s, hcalls t s⟩
    | _ => exact ⟨[], ⟨.nil s, rfl⟩, by simp⟩
  · intro tree
    obtain ⟨xs, hturn, hjournal, -⟩ := takesTurns_walk e.leafText tree s
    rw [hwalk]
    refine ⟨xs, hturn, hjournal, fun x hx => ?_⟩
    rw [hturn.run_eq x hx]
    exact ⟨_, e.made_leafText _ _, hcalls _ _⟩

end Guards

/-! ## Processors -/

/-- What a processor is asked for. -/
inductive Use (B : Type) where
  /-- It registers a handler. -/
  | add (offer : Offer B)
  /-- It brings its registry back to its start. -/
  | clear
  /-- It evaluates a source synchronously. -/
  | parse (source : Value)
  /-- It evaluates a source asynchronously. -/
  | parseAsync (source : Value)
  /-- It walks a tree synchronously. -/
  | walk (tree : Value)
  /-- It walks a tree asynchronously. -/
  | walkAsync (tree : Value)

/-- The request that a use makes of the registry, if it makes one. -/
def Use.request? : Use B → Option (Registry.Request B)
  | .add offer => some (.add offer)
  | .clear => some .clear
  | _ => none

/-- A registry that is in use, and what its handlers keep between runs. -/
structure Processor (B σ : Type) where
  registry : Registry B
  state : σ

namespace Processor

variable (settings : Settings) (custom : Registry B → B → Mode → Arguments → Process σ Value)

/-- The engine of a processor. How a handler's body is performed may depend on what is registered,
since a handler may use the processor that called it. -/
def engine (p : Processor B σ) : Engine B σ :=
  ⟨p.registry, settings, custom p.registry⟩

/-- The processor after a use, which may have failed. -/
def use (p : Processor B σ) : Use B → Processor B σ
  | .add offer => { p with registry := (p.registry.add offer).registry }
  | .clear => { p with registry := p.registry.clear.registry }
  | .parse source =>
    { p with state := (((p.engine settings custom).parseSync source).run p.state).state }
  | .parseAsync source =>
    { p with state := (((p.engine settings custom).parseAsync source).run p.state).state }
  | .walk tree =>
    { p with state := (((p.engine settings custom).walkSync tree).run p.state).state }
  | .walkAsync tree =>
    { p with state := ((p.engine settings custom).runWalkAsync tree p.state).state }

/-- The processor after uses. -/
def after (p : Processor B σ) (uses : List (Use B)) : Processor B σ :=
  uses.foldl (use settings custom) p

/-- Runs leave the registry as it is. -/
theorem registry_after (p : Processor B σ) (uses : List (Use B)) :
    (p.after settings custom uses).registry = p.registry.after (uses.filterMap Use.request?) := by
  induction uses generalizing p with
  | nil => rfl
  | cons u uses ih =>
    have hrest := ih (p.use settings custom u)
    cases u <;> exact hrest

end Processor

/-- The operation of a session that a use is. -/
def Use.operation : Use Scripted → Operation
  | .add offer => .add offer
  | .clear => .clear
  | .parse source => .parse source
  | .parseAsync source => .parseAsync source
  | .walk tree => .object tree
  | .walkAsync tree => .objectAsync tree

/-- A session does with the registry at `index` what a processor of scripted handlers does. -/
theorem Session.stepWith_operation (s : Session) (index : Nat) (r : Registry Scripted)
    (u : Use Scripted) :
    let p : Processor Scripted Shelf := ⟨r, { s.shelf with signals := [] }⟩
    let q := p.use s.settings (fun r => Scripted.perform r s.settings Scripted.nestingLimit) u
    (s.stepWith index r u.operation).session =
      match u.request? with
      | some _ => { s with registries := s.registries.set index q.registry }
      | none => { s with shelf := q.state } := by
  cases u <;> rfl

namespace Registry

/-- Whether handlers are marked asynchronous exactly as they are declared. -/
def Detected (specs : List (Spec B)) : Prop :=
  ∀ s ∈ specs, s.isAsync = s.handler.isDeclaredAsync

theorem handler_of_spec? {o : Offer B} {isAsync builtin : Bool} {s : Spec B}
    (h : o.spec? isAsync builtin = some s) : o.handler = some s.handler ∧ s.isAsync = isAsync := by
  unfold Offer.spec? at h
  split at h
  next name handler _ hhandler =>
    split at h
    next =>
      obtain rfl := Option.some.inj h
      exact ⟨hhandler, rfl⟩
    next => cases h
  next => cases h

theorem isAsync_of_added? {o : Offer B} {s : Spec B} (h : o.added? = some s) :
    s.isAsync = s.handler.isDeclaredAsync := by
  obtain ⟨hhandler, hasync⟩ := handler_of_spec? h
  rw [hasync, hhandler]
  rfl

variable {defaults : List (Offer B)}

theorem detected_starters : Detected (starters defaults) := by
  intro s hs
  rcases List.mem_append.mp hs with hs | hs
  · obtain ⟨o, ho, hspec⟩ := List.mem_filterMap.mp hs
    obtain ⟨hhandler, hasync⟩ := handler_of_spec? hspec
    have hown : ∀ o ∈ (builtins : List (Offer B)), ∃ b, o.handler = some (.builtin b) := by
      simp [builtins]
    obtain ⟨b, hb⟩ := hown o ho
    rw [hasync, Option.some.inj (hhandler.symm.trans hb)]
    rfl
  · obtain ⟨o, -, hspec⟩ := List.mem_filterMap.mp hs
    exact isAsync_of_added? hspec

/-- The uses of a processor keep to the declarations. -/
theorem detected_since (uses : List (Use B)) :
    Detected (since defaults (uses.filterMap Use.request?)) := by
  suffices key : ∀ history, Detected history → Detected ((uses.filterMap Use.request?).foldl
      (fun history q => q.extend (starters defaults) history) history) from
    key _ detected_starters
  induction uses with
  | nil => exact fun _ h => h
  | cons u uses ih =>
    intro history h
    cases u with
    | add offer =>
      refine ih _ fun s hs => ?_
      rcases List.mem_append.mp hs with hs | hs
      · exact h s hs
      · exact isAsync_of_added? (Option.mem_toList.mp hs)
    | clear => exact ih _ detected_starters
    | _ => exact ih _ h

end Registry

/-- However a processor was used since it was made, its synchronous runs are refused exactly if a
handler declared asynchronous was registered since its registry was last empty, the defaults among
them; that holds from every state, and so of the runs that handlers start as well. A refused run
does nothing and leaves the processor as it is, and one that is let through calls no handler that is
declared asynchronous. -/
theorem guards_after (cwd : Option Text) (defaults : List (Offer B))
    (hnew : (Registry.new cwd defaults).fault = none) (settings : Settings)
    (custom : Registry B → B → Mode → Arguments → Process σ Value) (start : σ)
    (uses : List (Use B)) :
    let p : Processor B σ :=
      Processor.after settings custom ⟨(Registry.new cwd defaults).registry, start⟩ uses
    let declared := ∃ spec ∈ Registry.since defaults (uses.filterMap Use.request?),
      spec.handler.isDeclaredAsync = true
    (∀ s, Guards (p.engine settings custom) s declared) ∧
      (declared → (∀ source, p.use settings custom (.parse source) = p) ∧
        ∀ tree, p.use settings custom (.walk tree) = p) := by
  intro p declared
  have hinuse := Registry.inUse_after hnew (uses.filterMap Use.request?)
  rw [← Processor.registry_after settings custom ⟨_, start⟩] at hinuse
  have hdetected : Registry.Detected (Registry.since defaults (uses.filterMap Use.request?)) :=
    Registry.detected_since uses
  have hflag : p.registry.hasAsync = true ↔ declared := by
    refine hinuse.flag.trans (exists_congr fun s => and_congr_right fun hs => ?_)
    rw [hdetected s hs]
  have hguards : ∀ s, Guards (p.engine settings custom) s declared := by
    intro s
    cases h : p.registry.hasAsync with
    | true => exact guards_of_hasAsync s h (hflag.mp h)
    | false =>
      refine guards_of_quiet s h (fun spec hspec => ?_) (by rw [← hflag, h]; simp)
      rw [← hdetected spec (hinuse.held spec hspec)]
      exact hinuse.quiet h spec hspec
  refine ⟨hguards, fun hd => ⟨fun source => ?_, fun tree => ?_⟩⟩
  · rw [Processor.use, ((hguards p.state).refuses hd).1 source]
  · rw [Processor.use, ((hguards p.state).refuses hd).2 tree]

/-- An asynchronous default whose name is taken for a direct handler, between runs. -/
def replacingUses : List (Use Unit) :=
  [.walk (.list [.ofString "[@date]"]), .clear, .parse (.ofString "[@date]"),
    .add ⟨.ofString "date", some (.custom () .direct), []⟩, .parseAsync (.ofString "[@date]")]

theorem guards_after_replacing : (Registry.new none Registry.overriding).fault = none ∧
    let p : Processor Unit Nat := Processor.after {} (fun _ _ _ _ => .done .null)
      ⟨(Registry.new none Registry.overriding).registry, 0⟩ replacingUses
    (∀ source, p.use {} (fun _ _ _ _ => .done .null) (.parse source) = p) ∧
      ∀ tree, ((p.engine {} fun _ _ _ _ => .done .null).walkSync tree).run p.state =
        ⟨.error .asyncRegistered, p.state, []⟩ := by
  have hnew : (Registry.new none Registry.overriding).fault = none := rfl
  obtain ⟨hguards, huse⟩ := guards_after none Registry.overriding hnew {}
    (fun _ _ _ _ => .done .null) 0 replacingUses
  have hdate : (Registry.since Registry.overriding (replacingUses.filterMap Use.request?))[3]? =
      some ⟨['d', 'a', 't', 'e'], .custom () .declared, true, false, []⟩ := rfl
  have hdeclared : ∃ spec ∈ Registry.since Registry.overriding
      (replacingUses.filterMap Use.request?), spec.handler.isDeclaredAsync = true :=
    ⟨_, List.mem_of_getElem? hdate, rfl⟩
  exact ⟨hnew, (huse hdeclared).1, ((hguards _).refuses hdeclared).2⟩

end TagTemplate
