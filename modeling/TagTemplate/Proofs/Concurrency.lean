import TagTemplate.Proofs.Schedules
import TagTemplate.Proofs.Walk

/-!
# All texts at once

The asynchronous walk runs the texts of a tree at once. If what handlers do is told by their
arguments (`Engine.Functional`), it does not matter in which order, and not whether results are
awaited : an evaluation always ends as the one with the handlers made direct does, with the same
effects (`Process.Agree`, `agree_drive`).

The processes that are run at once are then the parts of the walk that takes the entries in order
(`Parts`), and putting their results in place gives what that walk ends with. This is by induction
on the tree (`parts_entry`); a text at the root has no boundary, and its fault is the tree's
(`makes_text`). Processes that always end in one way do so in every order, so that every order makes
the same tree.
-/

namespace TagTemplate

variable {B σ α β : Type}

/-! ## Processes that do the same -/

namespace Process

/-- Both processes always end in one way, with an ordinary fault if any, and have the same
effects. -/
def Agree (p q : Process σ α) : Prop :=
  ∃ o j, Contained o ∧ p.Always o j ∧ q.Always o j

namespace Agree

variable {p q : Process σ α}

theorem ofExcept {o : Except Fault α} (h : Contained o) :
    (Process.ofExcept o : Process σ α).Agree (Process.ofExcept o) :=
  ⟨o, [], h, .ofExcept o, .ofExcept o⟩

theorem done (a : α) : (Process.done a : Process σ α).Agree (.done a) :=
  .ofExcept (contained_ok a)

theorem fail {f : Fault} (h : f.isOrdinary = true) :
    (Process.fail f : Process σ α).Agree (.fail f) :=
  ofExcept (contained_error h)

theorem emit (e : Event) (h : p.Agree q) : (Process.emit e p).Agree (.emit e q) := by
  obtain ⟨o, j, ho, hp, hq⟩ := h
  exact ⟨o, _, ho, hp.emit e, hq.emit e⟩

/-- What is awaited does the same as what is not. -/
theorem pause (h : p.Agree q) : (Process.pause p).Agree q := by
  obtain ⟨o, j, ho, hp, hq⟩ := h
  exact ⟨o, j, ho, hp.pause, hq⟩

theorem andThen (h : p.Agree q) {next next' : Except Fault α → Process σ β}
    (hnext : ∀ o, Contained o → (next o).Agree (next' o)) :
    (p.andThen next).Agree (q.andThen next') := by
  obtain ⟨o, j, ho, hp, hq⟩ := h
  obtain ⟨o', j', ho', hp', hq'⟩ := hnext o ho
  exact ⟨o', _, ho', hp.andThen hp', hq.andThen hq'⟩

theorem bind (h : p.Agree q) {next next' : α → Process σ β}
    (hnext : ∀ a, (next a).Agree (next' a)) : (p.bind next).Agree (q.bind next') :=
  h.andThen fun o ho => by
    cases o with
    | ok a => exact hnext a
    | error f => exact fail (ho f rfl)

theorem mapFault (h : p.Agree q) {change : Fault → Fault}
    (hchange : ∀ f, f.isOrdinary = true → (change f).isOrdinary = true) :
    (p.mapFault change).Agree (q.mapFault change) :=
  h.andThen fun o ho => by
    cases o with
    | ok a => exact done a
    | error f => exact fail (hchange f (ho f rfl))

end Agree

end Process

/-- Evaluations agree when the calls of handlers that were found are answered so that the answers
agree. -/
theorem agree_drive {look : Text → Option (Spec B)} {answer answer' : Call B → Process σ Value}
    {e : Evaluation B α} (he : e.Proper look)
    (h : ∀ c : Call B, (∃ name, look name = some c.spec) → (answer c).Agree (answer' c)) :
    (e.drive answer).Agree (e.drive answer') := by
  induction he with
  | done a => exact .done a
  | fail hf => exact .fail hf
  | note n _ ih => exact ih.emit _
  | call hname _ _ ih => exact (h _ hname).bind ih

/-! ## Handlers that are functions of their arguments -/

namespace Engine

variable {e : Engine B σ}

/-- What a registered handler from outside ends with, which is no abort, and the effects it has are
told by its arguments : by no state, and not by how it hands over its result. -/
def Functional (e : Engine B σ) : Prop :=
  ∀ spec ∈ e.registry.specs, ∀ body mode, spec.handler = .custom body mode → ∀ args,
    (e.custom body mode args).Agree (e.custom body .direct args)

/-- The text that the asynchronous evaluation of a text ends with. -/
def leafTextAsync (e : Engine B σ) (source : Text) : Process σ Text :=
  (e.textAsync source).bind fun r => .done r.text

/-- A text that the walk passes over might as well be evaluated. -/
theorem leafTextAsync_of_plain (e : Engine B σ) {s : Text} (hs : hasOpening s = false) :
    e.leafTextAsync s = .done s := by
  rw [leafTextAsync, textAsync, evaluateAsync, evaluate_of_plain _ hs]
  rfl

namespace Functional

variable (h : e.Functional)

include h

theorem perform {c : Call B} (hc : c.spec ∈ e.registry.specs) :
    (e.perform c).Agree (e.direct.perform { c with spec := c.spec.direct }) := by
  obtain ⟨args, spec⟩ := c
  have hspec := h spec hc
  obtain ⟨name, handler, isAsync, builtin, description⟩ := spec
  cases handler with
  | builtin b => exact .ofExcept (e.contained_own b)
  | custom body mode => exact hspec body mode rfl args

/-- A call that is awaited, if it has to be, and the same call of the handler made direct. -/
theorem answer {c : Call B} (hc : c.spec ∈ e.registry.specs) :
    (c.answerAsync e.perform).Agree
      (Call.answerSync e.direct.perform { c with spec := c.spec.direct }) := by
  have hbody : (c.bodyProcess e.perform).Agree
      (Call.bodyProcess e.direct.perform { c with spec := c.spec.direct }) := by
    have hrecord : Call.toRecord { c with spec := c.spec.direct } = c.toRecord := by
      simp only [Call.toRecord, Spec.direct, Handler.isBuiltin_direct]
    rw [Call.bodyProcess, Call.bodyProcess, hrecord]
    exact ((h.perform hc).mapFault fun f hf => f.isOrdinary_ofHandler _ _ hf).emit _
  have hdirect : (c.spec.direct).handler.isAwaited = false := Handler.isAwaited_direct _
  simp only [Call.answerAsync, Call.answerSync, hdirect]
  refine Process.Agree.emit _ ?_
  split
  next => exact hbody.pause
  next => exact hbody

theorem text (source : Text) : (e.leafTextAsync source).Agree (e.direct.leafText source) := by
  have htext : (e.textAsync source).Agree (e.direct.textSync source) := by
    rw [textSync_direct]
    refine agree_drive (proper_evaluate _ source) fun c hname => ?_
    obtain ⟨name, hname⟩ := hname
    exact h.answer (Registry.mem_of_find? hname)
  exact htext.bind fun r => .done r.text

end Functional

end Engine

/-! ## Parts of a walk -/

/-- The processes `jobs` are what can be run at once in place of `p`. All of them always end with
results, and `p` always ends with what `collect` makes of these, whatever other results follow, and
has the effects of the processes one after another. -/
def Parts (jobs : List (Process σ (Option Value))) (p : Process σ α)
    (collect : List (Option Value) → α × List (Option Value)) : Prop :=
  ∃ (rs : List (Option Value × Journal)) (a : α),
    Crew.AlwaysAll jobs (rs.map fun r => (.ok r.1, r.2)) ∧
      p.Always (.ok a) (rs.flatMap Prod.snd) ∧
      ∀ more, collect (rs.map Prod.fst ++ more) = (a, more)

namespace Parts

variable {jobs jobs' : List (Process σ (Option Value))} {p : Process σ α}
  {collect : List (Option Value) → α × List (Option Value)}

theorem done (a : α) : Parts (σ := σ) [] (.done a) fun results => (a, results) :=
  ⟨[], a, .nil, .done rfl, fun _ => rfl⟩

theorem bind {next : α → Process σ β}
    {collect' : α → List (Option Value) → β × List (Option Value)} (h : Parts jobs p collect)
    (hnext : ∀ a, Parts jobs' (next a) (collect' a)) :
    Parts (jobs ++ jobs') (p.bind next) fun results =>
      collect' (collect results).1 (collect results).2 := by
  obtain ⟨rs, a, hjobs, hp, hcollect⟩ := h
  obtain ⟨rs', b, hjobs', hq, hcollect'⟩ := hnext a
  refine ⟨rs ++ rs', b, ?_, ?_, fun more => ?_⟩
  · rw [List.map_append]
    exact List.rel_append hjobs hjobs'
  · rw [List.flatMap_append]
    exact hp.andThen hq
  · simp only [List.map_append, List.append_assoc, hcollect, hcollect']

theorem map (h : Parts jobs p collect) (f : α → β) :
    Parts jobs (p.bind fun a => .done (f a)) fun results =>
      (f (collect results).1, (collect results).2) := by
  simpa using h.bind fun a => done (f a)

theorem keep (h : Parts jobs p collect) (label : Text) :
    Parts jobs (p.keep label) fun results => (some (collect results).1, (collect results).2) := by
  obtain ⟨rs, a, hjobs, hp, hcollect⟩ := h
  exact ⟨rs, some a, hjobs, hp.keep_ok label, fun more => by simp only [hcollect]⟩

/-- An entry that is one process is its own part. -/
theorem single {p q : Process σ Value} (h : p.Agree q) (label : Text) :
    Parts [p.keep label] (q.keep label) fun results => (results.headD none, results.tail) := by
  obtain ⟨o, j, ho, hp, hq⟩ := h
  have hparts : ∀ r k, (p.keep label).Always (.ok r) k → (q.keep label).Always (.ok r) k →
      Parts [p.keep label] (q.keep label) fun results => (results.headD none, results.tail) :=
    fun r k hr hk => ⟨[(r, k)], r, .cons hr .nil, by simpa using hk, fun _ => rfl⟩
  cases o with
  | ok v => exact hparts _ _ (hp.keep_ok label) (hq.keep_ok label)
  | error f => exact hparts _ _ (hp.keep_error (ho f rfl) label) (hq.keep_error (ho f rfl) label)

end Parts

/-! ## Trees -/

section Trees

variable {test : Text → Bool} {evaluateText evaluateText' : Text → Process σ Text}

theorem fill_text_of_pass {text : Text} (h : test text = true) :
    (Value.text text).fill test = fun results => (results.headD none, results.tail) := by
  funext results
  simp only [Value.fill, h, if_true]

theorem fill_text_of_not_pass {text : Text} (h : test text = false) :
    (Value.text text).fill test = fun results => (some (.text text), results) := by
  funext results
  simp [Value.fill, h]

theorem fill_dict_of_shown {entries : List (Value × Value)}
    (h : (Value.keyLabels? entries).isSome = true) : (Value.dict entries).fill test =
      fun results => (some (.dict (Value.fillEntries test entries results).1),
        (Value.fillEntries test entries results).2) := by
  funext results
  simp only [Value.fill, h, if_true]

theorem fill_dict_of_not_shown {entries : List (Value × Value)}
    (h : (Value.keyLabels? entries).isSome = false) : (Value.dict entries).fill test =
      fun results => (results.headD none, results.tail) := by
  funext results
  simp [Value.fill, h]

theorem parts_text (h : ∀ text, (evaluateText text).Agree (evaluateText' text))
    (label text : Text) :
    Parts (Value.entryJobs test evaluateText label (.text text))
      ((Value.walkSync test evaluateText' (.text text)).keep label)
      ((Value.text text).fill test) := by
  cases ho : test text with
  | true =>
    simp only [Value.entryJobs, Value.walkSync, ho, if_true, fill_text_of_pass ho]
    exact .single ((h text).bind fun t => .done (.text t)) label
  | false =>
    simp only [Value.entryJobs, Value.walkSync, ho, Bool.false_eq_true, if_false,
      fill_text_of_not_pass ho]
    exact (Parts.done _).keep label

/-- A mapping whose keys can be shown has the parts that its entries have. -/
theorem parts_dict {entries : List (Value × Value)} (hk : Value.entryKeysShown entries = true)
    (label : Text) (h : Parts (Value.mappingJobs test evaluateText entries)
      (Value.walkEntriesSync test evaluateText' entries) (Value.fillEntries test entries)) :
    Parts (Value.entryJobs test evaluateText label (.dict entries))
      ((Value.walkSync test evaluateText' (.dict entries)).keep label)
      ((Value.dict entries).fill test) := by
  have hkeys := Value.isSome_keyLabels? hk
  simp only [Value.entryJobs, Value.walkSync, hkeys, if_true, fill_dict_of_shown hkeys]
  exact (h.map Value.dict).keep label

-- By recursion on the tree. That the keys can be shown is needed of mappings : one with a key that
-- cannot be has a single process, which fails before any entry, where the walk in order fails late.
mutual

/-- The processes of an entry are the parts of its walk. -/
theorem parts_entry (h : ∀ text, (evaluateText text).Agree (evaluateText' text)) (label : Text) :
    ∀ v : Value, v.keysShown = true →
      Parts (Value.entryJobs test evaluateText label v)
        ((Value.walkSync test evaluateText' v).keep label) (v.fill test)
  | .text text, _ => parts_text h label text
  | .list items, hk => ((parts_items h 0 items hk).map Value.list).keep label
  | .tuple items, hk => ((parts_items h 0 items hk).map Value.tuple).keep label
  | .dict entries, hk => parts_dict hk label (parts_entries h entries hk)
  | .view entries, hk => parts_dict hk label (parts_entries h entries hk)
  | .null, _ | .bool _, _ | .int _, _ | .float _, _ | .bytes _, _ | .timestamp _ _, _
  | .set _ _, _ => (Parts.done _).keep label

/-- The processes of items from a place on are the parts of their walk. -/
theorem parts_items (h : ∀ text, (evaluateText text).Agree (evaluateText' text)) (index : Nat) :
    ∀ items : List Value, Value.itemKeysShown items = true →
      Parts (Value.itemJobs test evaluateText index items)
        (Value.walkItemsSync test evaluateText' index items) (Value.fillItems test items)
  | [], _ => .done []
  | v :: rest, hk => by
    obtain ⟨hv, hrest⟩ := Value.itemKeysShown_cons hk
    exact (parts_entry h (Value.itemLabel index) v hv).bind fun kept =>
      (parts_items h (index + 1) rest hrest).map fun vs => kept.toList ++ vs

/-- The processes of a mapping's entries are the parts of their walk. -/
theorem parts_entries (h : ∀ text, (evaluateText text).Agree (evaluateText' text)) :
    ∀ entries : List (Value × Value), Value.entryKeysShown entries = true →
      Parts (Value.mappingJobs test evaluateText entries)
        (Value.walkEntriesSync test evaluateText' entries) (Value.fillEntries test entries)
  | [], _ => .done []
  | (k, v) :: rest, hk => by
    obtain ⟨label, hlabel, hv, hrest⟩ := Value.entryKeysShown_cons hk
    simp only [Value.walkEntriesSync, Value.mappingJobs, hlabel, Option.getD_some]
    exact (parts_entry h label v hv).bind fun kept =>
      (parts_entries h rest hrest).map fun es => (kept.map fun w => (k, w)).toList ++ es

end

/-! ## Roots -/

theorem ofEndings_ok (test : Text → Bool) (tree : Value) (results : List (Option Value)) :
    Value.ofEndings test tree (results.map .ok) =
      .ok ((tree.fill test results).1.getD .null) := by
  have hall : (results.map .ok : List (Except Fault (Option Value))).mapM id = .ok results := by
    induction results with
    | nil => rfl
    | cons r results ih => rw [List.map_cons, List.mapM_cons, ih]; rfl
  rw [Value.ofEndings, hall]
  rfl

/-- What the processes `jobs` always end with makes the tree that `p` always ends with, and the
effects are the same. -/
def Makes (test : Text → Bool) (tree : Value) (jobs : List (Process σ (Option Value)))
    (p : Process σ Value) : Prop :=
  ∃ rs : List (Except Fault (Option Value) × Journal), Crew.AlwaysAll jobs rs ∧
    p.Always (Value.ofEndings test tree (rs.map Prod.fst)) (rs.flatMap Prod.snd)

theorem Parts.makes {tree : Value} {jobs : List (Process σ (Option Value))} {p : Process σ Value}
    {collect : List (Option Value) → Value × List (Option Value)} (h : Parts jobs p collect)
    (hfill : ∀ results, (tree.fill test results).1 = some (collect results).1) :
    Makes test tree jobs p := by
  obtain ⟨rs, a, hjobs, hp, hcollect⟩ := h
  have hends : (rs.map fun r => ((.ok r.1, r.2) : Except Fault (Option Value) × Journal)).map
      Prod.fst = (rs.map Prod.fst).map .ok := by simp
  have hall := hcollect []
  rw [List.append_nil] at hall
  refine ⟨_, hjobs, ?_⟩
  rw [hends, ofEndings_ok, hfill, hall, List.flatMap_map]
  exact hp

/-- A text at the root has no boundary : its fault is the tree's. -/
theorem makes_text (h : ∀ text, (evaluateText text).Agree (evaluateText' text)) (text : Text) :
    Makes test (.text text) (Value.rootJobs test evaluateText (.text text))
      (Value.walkSync test evaluateText' (.text text)) := by
  cases ho : test text with
  | true =>
    have hleaf : (Value.leafProcess evaluateText text).Agree
        (Value.leafProcess evaluateText' text) := (h text).bind fun t => .done (Value.text t)
    obtain ⟨o, j, -, hp, hq⟩ := hleaf
    simp only [Value.rootJobs, Value.walkSync, ho, if_true]
    cases o with
    | ok v =>
      have hend : Value.ofEndings test (.text text) [.ok (some v)] = .ok v :=
        (ofEndings_ok test (.text text) [some v]).trans (by simp [Value.fill, ho])
      refine ⟨[(.ok (some v), j ++ [])], .cons (hp.andThen (.done rfl)) .nil, ?_⟩
      simpa [hend] using hq
    | error f =>
      have hend : Value.ofEndings test (.text text) [.error f] = .error f := rfl
      refine ⟨[(.error f, j ++ [])], .cons (hp.andThen (.fail rfl)) .nil, ?_⟩
      simpa [hend] using hq
  | false =>
    simp only [Value.rootJobs, Value.walkSync, ho, Bool.false_eq_true, if_false]
    exact (Parts.done (Value.text text)).makes fun results => by simp [Value.fill, ho]

theorem makes_root (h : ∀ text, (evaluateText text).Agree (evaluateText' text)) {tree : Value}
    (hk : tree.keysShown = true) :
    Makes test tree (Value.rootJobs test evaluateText tree)
      (Value.walkSync test evaluateText' tree) := by
  have hdict : ∀ entries, Value.entryKeysShown entries = true →
      Makes test (.dict entries) (Value.rootJobs test evaluateText (.dict entries))
        (Value.walkSync test evaluateText' (.dict entries)) := by
    intro entries hk
    have hkeys := Value.isSome_keyLabels? hk
    simp only [Value.rootJobs, Value.walkSync, hkeys, if_true]
    exact ((parts_entries h entries hk).map Value.dict).makes fun results => by
      simp only [Value.fill, hkeys, if_true]
  cases tree with
  | text text => exact makes_text h text
  | list items => exact ((parts_items h 0 items hk).map Value.list).makes fun _ => rfl
  | tuple items => exact ((parts_items h 0 items hk).map Value.tuple).makes fun _ => rfl
  | dict entries => exact hdict entries hk
  | view entries => exact hdict entries hk
  | _ => exact (Parts.done _).makes fun _ => rfl

end Trees

/-! ## The asynchronous walk of an engine -/

namespace Journal

theorem calls_effects (j : Journal) : j.effects.calls = j.calls := by
  rw [calls, effects, List.filterMap_filter, calls]
  congr 1
  funext e
  cases e <;> rfl

theorem drops_effects (j : Journal) : j.effects.drops = j.drops := by
  rw [drops, effects, List.filterMap_filter, drops]
  congr 1
  funext e
  cases e <;> rfl

variable {i j : Journal}

theorem calls_perm (h : i.effects.Perm j.effects) : i.calls.Perm j.calls := by
  rw [← calls_effects i, ← calls_effects j]
  exact h.filterMap _

theorem drops_perm (h : i.effects.Perm j.effects) : i.drops.Perm j.drops := by
  rw [← drops_effects i, ← drops_effects j]
  exact h.filterMap _

end Journal

/-- If what handlers do is told by their arguments, the processes of a tree whose keys can be shown
make the same tree in whatever order their steps are taken, or fail with the same fault : what the
walk that takes the entries in order makes of it, from any state, with the handlers made direct. The
same calls are made and the same entries are dropped for the same faults, if not in the same order.
The walk of the engine takes one of these orders. -/
theorem walkAsync_of_schedule (e : Engine B σ) (h : e.Functional) (tree : Value)
    (hk : tree.keysShown = true) (s t : σ) :
    let jobs := tree.rootJobs hasOpening e.leafTextAsync
    let r := (tree.walkSync hasOpening e.direct.leafText).run t
    (∃ o, Crew.Schedule jobs s o ∧
        e.runWalkAsync tree s = ⟨tree.ofEndings hasOpening o.endings, o.state, o.journal⟩) ∧
      ∀ o, Crew.Schedule jobs s o →
        tree.ofEndings hasOpening o.endings = r.outcome ∧
          o.journal.effects.Perm r.journal.effects ∧ o.journal.calls.Perm r.journal.calls ∧
          o.journal.drops.Perm r.journal.drops := by
  intro jobs r
  refine ⟨⟨Crew.run jobs s, Crew.schedule_run jobs s, rfl⟩, fun o ho => ?_⟩
  obtain ⟨rs, hjobs, hwalk⟩ := makes_root h.text hk
  obtain ⟨hends, hperm⟩ := ho.of_always hjobs
  obtain ⟨hout, heffects⟩ := hwalk.run t
  rw [← heffects] at hperm
  exact ⟨by rw [hends]; exact hout.symm, hperm, Journal.calls_perm hperm,
    Journal.drops_perm hperm⟩

/-- An engine whose handlers count their calls and pause before they end : `u` with its content, and
`b` with a fault. -/
def pausingEngine : Engine Bool Nat where
  registry := ⟨none, [], [⟨['u'], .custom true .declared, true, false, []⟩,
    ⟨['b'], .custom false .undeclared, false, false, []⟩], true⟩
  settings := {}
  custom body _ args := .act (· + 1) fun _ => .pause
    (if body then .done (.text args.content) else .fail .bytesNotText)

/-- A list with a text that fails, before a mapping with texts that pause. -/
def pausingTree : Value :=
  .list [.ofString "[@u]a[/@u][@b]", .dict [(.ofString "k", .ofString "[@u][@u]b[/@u][/@u]"),
    (.int 1, .ofString "[@u]c[/@u]")]]

theorem walkAsync_of_schedule_pausing : pausingEngine.Functional ∧
    pausingTree.keysShown = true ∧
      ∃ o, Crew.Schedule (pausingTree.rootJobs hasOpening pausingEngine.leafTextAsync) 0 o ∧
        pausingTree.ofEndings hasOpening o.endings =
            ((pausingTree.walkSync hasOpening pausingEngine.direct.leafText).run 7).outcome ∧
          o.journal.drops.Perm
            ((pausingTree.walkSync hasOpening pausingEngine.direct.leafText).run
              7).journal.drops := by
  have h : pausingEngine.Functional := by
    intro spec _ body mode _ args
    cases body with
    | true =>
      exact ⟨.ok (.text args.content), [], contained_ok _,
        .act _ fun _ => .pause (.done rfl), .act _ fun _ => .pause (.done rfl)⟩
    | false =>
      exact ⟨.error .bytesNotText, [], contained_error rfl,
        .act _ fun _ => .pause (.fail rfl), .act _ fun _ => .pause (.fail rfl)⟩
  have hk : pausingTree.keysShown = true := by decide +kernel
  obtain ⟨⟨o, ho, -⟩, hall⟩ := walkAsync_of_schedule pausingEngine h pausingTree hk 0 7
  obtain ⟨hend, -, -, hdrops⟩ := hall o ho
  exact ⟨h, hk, o, ho, hend, hdrops⟩

end TagTemplate
