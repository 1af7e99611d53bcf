import TagTemplate.Recipe
import TagTemplate.Proofs.Concurrency
import TagTemplate.Proofs.Isolation
import TagTemplate.Proofs.Signals

/-!
# Entries that wait for one another

The asynchronous walk of a tree evaluates its texts at once. If its handlers do nothing but signal
keys to each other and wait for them (`Engine.Heeds`), the evaluations heed signals, and so do the
processes of the tree, one for each text that the walk looks into (`rootJobs_eq`). None of them
holds up another : it waits for keys only, and which keys are signalled is told by the texts and not
by their places in the tree (`keysIn_rootJobs_iff`). What the processes end with then makes the tree
with the texts replaced by what they come to alone (`fill_eq`, by induction on the tree).

Handlers by recipe heed signals unless they count their calls or order to stop (`Scripted.heeds`).
-/

namespace TagTemplate

variable {B K σ α β : Type}

/-! ## Evaluations -/

theorem heeds_drive {has : K → σ → Bool} {look : Text → Option (Spec B)}
    {answer : Call B → Process σ Value} {e : Evaluation B α} (he : e.Proper look)
    (h : ∀ c : Call B, (∃ name, look name = some c.spec) →
      (answer c).Heeds has Process.GivesUp) : (e.drive answer).Heeds has Process.GivesUp := by
  induction he with
  | done a => exact .done a
  | fail hf => exact .fail hf
  | note n _ ih => exact .emit _ ih
  | call hname _ _ ih => exact (h _ hname).bind ih

namespace Engine

variable {e : Engine B σ} {has : K → σ → Bool}

/-- The registered handlers from outside heed the signals that `has` tells of, and fail if a wait is
refused. -/
def Heeds (has : K → σ → Bool) (e : Engine B σ) : Prop :=
  ∀ spec ∈ e.registry.specs, ∀ body mode, spec.handler = .custom body mode → ∀ args,
    (e.custom body mode args).Heeds has Process.GivesUp

namespace Heeds

variable (h : e.Heeds has)

include h

theorem perform {c : Call B} (hc : c.spec ∈ e.registry.specs) :
    (e.perform c).Heeds has Process.GivesUp := by
  obtain ⟨args, spec⟩ := c
  have hspec := h spec hc
  obtain ⟨name, handler, isAsync, builtin, description⟩ := spec
  cases handler with
  | builtin b => exact Process.heeds_ofExcept (e.contained_own b)
  | custom body mode => exact hspec body mode rfl args

theorem answer {c : Call B} (hc : c.spec ∈ e.registry.specs) (d : Driver) :
    (d.answer e.perform c).Heeds has Process.GivesUp := by
  have hbody : (c.bodyProcess e.perform).Heeds has Process.GivesUp :=
    .emit _ ((h.perform hc).mapFault fun f hf => f.isOrdinary_ofHandler _ _ hf)
  cases d with
  | sync =>
    rw [Driver.answer, Call.answerSync]
    refine .emit _ ?_
    split
    next => exact .fail rfl
    next => exact hbody
  | async =>
    rw [Driver.answer, Call.answerAsync]
    refine .emit _ ?_
    split
    next => exact .pause hbody
    next => exact hbody

/-- So does the evaluation of every text. -/
theorem textBy (d : Driver) (source : Text) : (e.textBy d source).Heeds has Process.GivesUp := by
  rw [e.textBy_eq]
  refine heeds_drive (proper_evaluate _ source) fun c hname => ?_
  obtain ⟨name, hname⟩ := hname
  exact h.answer (Registry.mem_of_find? hname) d

theorem leafTextAsync (source : Text) : (e.leafTextAsync source).Heeds has Process.GivesUp :=
  (h.textBy .async source).bind fun r => .done r.text

end Heeds

end Engine

/-! ## Handlers by recipe -/

theorem Shelf.hasSignal_give (k v : Value) (s : Shelf) :
    (s.give v).hasSignal k = (v.same k || s.hasSignal k) := by
  rw [Shelf.hasSignal, Shelf.give, List.any_cons, Shelf.hasSignal]

theorem contained_map {o : Except Fault α} (h : Contained o) (f : α → β) :
    Contained (o.map f) := by
  cases o with
  | ok a => exact contained_ok _
  | error f => exact contained_error (h f rfl)

theorem contained_timesText (s : Text) (v : Value) : Contained (timesText s v) := by
  rw [timesText]
  split
  next n =>
    refine contained_map ?_ Value.text
    rw [repeated]
    split_ifs
    · exact contained_error rfl
    · exact contained_error rfl
    · exact contained_error rfl
    · exact contained_ok _
    · exact contained_ok _
  next => exact contained_error rfl

theorem contained_bind {o : Except Fault α} {next : α → Except Fault β} (h : Contained o)
    (hnext : ∀ a, Contained (next a)) : Contained (o >>= next) := by
  cases o with
  | ok a => exact hnext a
  | error f => exact contained_error (h f rfl)

theorem contained_asFloat? (v : Value) : Contained v.asFloat? := by
  unfold Value.asFloat?
  split
  next => exact contained_ok _
  next =>
    split
    next => exact contained_error rfl
    next => exact contained_ok _

theorem contained_times (v w : Value) : Contained (v.times w) := by
  unfold Value.times
  split
  next => exact contained_timesText _ _
  next => exact contained_timesText _ _
  next =>
    split
    next => exact contained_ok _
    next =>
      refine contained_bind (contained_asFloat? v) fun x =>
        contained_bind (contained_asFloat? w) fun y => ?_
      split
      next => exact contained_ok _
      next => exact contained_error rfl

/-- It does not count its calls, and does not order to stop. -/
def Recipe.isSteady : Recipe → Bool
  | .count _ => false
  | .raise kind _ => kind != .abort
  | _ => true

theorem Recipe.isOrdinary_raised {kind : Fault.Kind} (h : (kind != .abort) = true)
    (message : Value) : (Recipe.raised kind message).isOrdinary = true := by
  have hfault (wording : Option Text) : (Recipe.faultOf kind wording).isOrdinary = true := by
    cases wording <;> exact h
  unfold Recipe.raised
  split
  next => exact hfault _
  next => cases message.literal? <;> rfl
  next => exact hfault _

theorem heeds_withKey {args : Arguments} {next : Value → Process Shelf Value} (key : Text)
    (h : ∀ v, (next v).Heeds Shelf.hasSignal Process.GivesUp) :
    (Recipe.withKey key args next).Heeds Shelf.hasSignal Process.GivesUp := by
  rw [Recipe.withKey]
  split
  next v _ => exact h v
  next => exact .fail rfl

theorem heeds_process {expand : Text → Process Shelf Text} {r : Recipe} (hr : r.isSteady = true)
    (h : ∀ template, (expand template).Heeds Shelf.hasSignal Process.GivesUp) (args : Arguments) :
    (r.process expand args).Heeds Shelf.hasSignal Process.GivesUp := by
  cases r with
  | count counter => cases hr
  | raise kind message => exact .fail (Recipe.isOrdinary_raised hr message)
  | «attributes» =>
    rw [Recipe.process, Recipe.listing]
    split
    next => exact .done _
    next => exact .fail rfl
  | attributeAt key => exact heeds_withKey key .done
  | multiply key factor =>
    exact heeds_withKey key fun v => Process.heeds_ofExcept (contained_times v factor)
  | report name detail => exact .fail rfl
  | failOn bad =>
    rw [Recipe.process]
    split
    next => exact .fail rfl
    next => exact .done _
  | expand template => exact (h template).bind fun t => .done _
  | signal =>
    exact heeds_withKey _ fun v => .act (fun k s => Shelf.hasSignal_give k v s) (.done _)
  | await =>
    exact heeds_withKey _ fun v => .await v (.done _) (.fail rfl ⟨_, rfl, rfl⟩)
  | _ => exact .done _

theorem heeds_gated {e : Engine B σ} {has : K → σ → Bool} {p : Process σ α}
    (h : p.Heeds has Process.GivesUp) : (e.gated p).Heeds has Process.GivesUp := by
  rw [Engine.gated]
  split
  next => exact .fail rfl
  next => exact h

namespace Scripted

variable {registry : Registry Scripted}
  (h : ∀ spec ∈ registry.specs, ∀ b mode, spec.handler = .custom b mode →
    b.recipe.isSteady = true)

include h

/-- By induction on how deep expansions may nest : what a recipe expands, it expands with the same
handlers. -/
theorem heeds_perform (settings : Settings) (depth : Nat) : ∀ (b : Scripted) (mode : Mode)
    (args : Arguments), b.recipe.isSteady = true →
      (perform registry settings depth b mode args).Heeds Shelf.hasSignal Process.GivesUp := by
  induction depth with
  | zero =>
    intro b mode args hb
    rw [perform]
    exact heeds_process hb (fun _ => .fail rfl) args
  | succ depth ih =>
    intro b mode args hb
    have hinner : (⟨registry, settings, perform registry settings depth⟩ :
        Engine Scripted Shelf).Heeds Shelf.hasSignal :=
      fun spec hspec b mode hb args => ih b mode args (h spec hspec b mode hb)
    rw [perform]
    refine heeds_process hb (fun template => ?_) args
    refine Process.Heeds.bind ?_ fun r => .done r.text
    cases mode with
    | direct => exact heeds_gated (hinner.textBy .sync template)
    | declared => exact hinner.textBy .async template
    | undeclared => exact hinner.textBy .async template

theorem heeds (settings : Settings) : (engine registry settings).Heeds Shelf.hasSignal :=
  fun spec hspec b mode hb args =>
    heeds_perform h settings nestingLimit b mode args (h spec hspec b mode hb)

end Scripted

/-! ## The processes of a tree -/

namespace Leaf

/-- Whether the walk looks into the text. -/
def isSought (l : Leaf) : Bool :=
  hasOpening l.text

/-- The process of a text in the walk that takes all at once. -/
def job (evaluateText : Text → Process σ Text) (l : Leaf) : Process σ (Option Value) :=
  (Value.leafProcess evaluateText l.text).keep l.label

end Leaf

/-- What becomes of the texts that a walk looks into, as the results of their processes. -/
def resultsOf (g : Text → Option Text) (leaves : List Leaf) : List (Option Value) :=
  (leaves.filter Leaf.isSought).map fun l => (g l.text).map .text

theorem resultsOf_append (g : Text → Option Text) (ls ms : List Leaf) :
    resultsOf g (ls ++ ms) = resultsOf g ls ++ resultsOf g ms := by
  rw [resultsOf, List.filter_append, List.map_append, resultsOf, resultsOf]

section Trees

variable (evaluateText : Text → Process σ Text)

mutual

/-- Each text that the walk looks into is one process, at whatever depth. -/
theorem entryJobs_eq (label : Text) : ∀ v : Value, v.keysShown = true →
    v.entryJobs hasOpening evaluateText label =
      ((v.leaves label).filter Leaf.isSought).map (Leaf.job evaluateText)
  | .text s, _ => by
    cases hs : hasOpening s <;> simp [Value.entryJobs, Value.leaves, Leaf.isSought, Leaf.job, hs]
  | .list items, hk => itemJobs_eq 0 items hk
  | .tuple items, hk => itemJobs_eq 0 items hk
  | .dict entries, hk => by
    simp only [Value.entryJobs, Value.isSome_keyLabels? hk, if_true]
    exact mappingJobs_eq entries hk
  | .view entries, hk => by
    simp only [Value.entryJobs, Value.isSome_keyLabels? hk, if_true]
    exact mappingJobs_eq entries hk
  | .null, _ | .bool _, _ | .int _, _ | .float _, _ | .bytes _, _ | .timestamp _ _, _
  | .set _ _, _ => rfl

theorem itemJobs_eq (index : Nat) : ∀ items : List Value, Value.itemKeysShown items = true →
    Value.itemJobs hasOpening evaluateText index items =
      ((Value.itemLeaves index items).filter Leaf.isSought).map (Leaf.job evaluateText)
  | [], _ => rfl
  | v :: rest, hk => by
    obtain ⟨hv, hrest⟩ := Value.itemKeysShown_cons hk
    rw [Value.itemJobs, Value.itemLeaves, List.filter_append, List.map_append,
      entryJobs_eq _ v hv, itemJobs_eq (index + 1) rest hrest]

theorem mappingJobs_eq : ∀ entries : List (Value × Value), Value.entryKeysShown entries = true →
    Value.mappingJobs hasOpening evaluateText entries =
      ((Value.entryLeaves entries).filter Leaf.isSought).map (Leaf.job evaluateText)
  | [], _ => rfl
  | (k, v) :: rest, hk => by
    obtain ⟨-, -, hv, hrest⟩ := Value.entryKeysShown_cons hk
    rw [Value.mappingJobs, Value.entryLeaves, List.filter_append, List.map_append,
      entryJobs_eq _ v hv, mappingJobs_eq rest hrest]

end

theorem rootJobs_eq {tree : Value} (hc : tree.isContainer = true) (hk : tree.keysShown = true) :
    tree.rootJobs hasOpening evaluateText =
      ((tree.leaves []).filter Leaf.isSought).map (Leaf.job evaluateText) := by
  have hentries : ∀ entries, Value.entryKeysShown entries = true →
      Value.rootJobs hasOpening evaluateText (.dict entries) =
        ((Value.entryLeaves entries).filter Leaf.isSought).map (Leaf.job evaluateText) := by
    intro entries hk
    simp only [Value.rootJobs, Value.isSome_keyLabels? hk, if_true]
    exact mappingJobs_eq evaluateText entries hk
  cases tree with
  | list items => exact itemJobs_eq evaluateText 0 items hk
  | tuple items => exact itemJobs_eq evaluateText 0 items hk
  | dict entries => exact hentries entries hk
  | view entries => exact hentries entries hk
  | _ => cases hc

end Trees

section Fill

variable {g : Text → Option Text}

theorem drop_leafCount (v : Value) (label : Text) (g : Text → Option Text)
    (texts : List (Option Text)) :
    (((v.leaves label).map fun l => g l.text) ++ texts).drop v.leafCount = texts := by
  rw [← Value.length_leaves label v]
  exact List.drop_left' (by rw [List.length_map])

mutual

/-- The results of the processes in their places are the texts in theirs. -/
theorem fill_eq (hg : ∀ s, hasOpening s = false → g s = some s) (label : Text) :
    ∀ v : Value, v.keysShown = true → ∀ more texts,
      v.fill hasOpening (resultsOf g (v.leaves label) ++ more) =
        (v.replaced (((v.leaves label).map fun l => g l.text) ++ texts), more)
  | .text s, _, more, texts => by
    cases hs : hasOpening s with
    | true => simp [Value.fill, Value.leaves, Value.replaced, resultsOf, Leaf.isSought, hs]
    | false =>
      simp [Value.fill, Value.leaves, Value.replaced, resultsOf, Leaf.isSought, hs, hg s hs]
  | .list items, hk, more, texts => by
    simp only [Value.fill, Value.leaves, Value.replaced, fillItems_eq hg 0 items hk more texts]
  | .tuple items, hk, more, texts => by
    simp only [Value.fill, Value.leaves, Value.replaced, fillItems_eq hg 0 items hk more texts]
  | .dict entries, hk, more, texts => by
    simp only [Value.fill, Value.leaves, Value.replaced, Value.isSome_keyLabels? hk, if_true,
      fillEntries_eq hg entries hk more texts]
  | .view entries, hk, more, texts => by
    simp only [Value.fill, Value.leaves, Value.replaced, Value.isSome_keyLabels? hk, if_true,
      fillEntries_eq hg entries hk more texts]
  | .null, _, _, _ | .bool _, _, _, _ | .int _, _, _, _ | .float _, _, _, _ | .bytes _, _, _, _
  | .timestamp _ _, _, _, _ | .set _ _, _, _, _ => rfl

theorem fillItems_eq (hg : ∀ s, hasOpening s = false → g s = some s) (index : Nat) :
    ∀ items : List Value, Value.itemKeysShown items = true → ∀ more texts,
      Value.fillItems hasOpening items (resultsOf g (Value.itemLeaves index items) ++ more) =
        (Value.replacedItems items
          (((Value.itemLeaves index items).map fun l => g l.text) ++ texts), more)
  | [], _, more, texts => rfl
  | v :: rest, hk, more, texts => by
    obtain ⟨hv, hrest⟩ := Value.itemKeysShown_cons hk
    have hfirst := fill_eq hg (Value.itemLabel index) v hv
      (resultsOf g (Value.itemLeaves (index + 1) rest) ++ more)
      (((Value.itemLeaves (index + 1) rest).map fun l => g l.text) ++ texts)
    simp only [Value.fillItems, Value.itemLeaves, Value.replacedItems, resultsOf_append,
      List.map_append, List.append_assoc, hfirst, drop_leafCount,
      fillItems_eq hg (index + 1) rest hrest more texts]

theorem fillEntries_eq (hg : ∀ s, hasOpening s = false → g s = some s) :
    ∀ entries : List (Value × Value), Value.entryKeysShown entries = true → ∀ more texts,
      Value.fillEntries hasOpening entries (resultsOf g (Value.entryLeaves entries) ++ more) =
        (Value.replacedEntries entries
          (((Value.entryLeaves entries).map fun l => g l.text) ++ texts), more)
  | [], _, more, texts => rfl
  | (k, v) :: rest, hk, more, texts => by
    obtain ⟨-, -, hv, hrest⟩ := Value.entryKeysShown_cons hk
    have hfirst := fill_eq hg (k.shown?.getD []) v hv
      (resultsOf g (Value.entryLeaves rest) ++ more)
      (((Value.entryLeaves rest).map fun l => g l.text) ++ texts)
    simp only [Value.fillEntries, Value.entryLeaves, Value.replacedEntries, resultsOf_append,
      List.map_append, List.append_assoc, hfirst, drop_leafCount,
      fillEntries_eq hg rest hrest more texts]

end

end Fill

section Jobs

variable {evaluateText : Text → Process σ Text} {l : Leaf} {t : σ}

/-- The process of a text ends with what the text evaluates to, or with nothing if that fails, and
leaves the state that the evaluation leaves. -/
theorem Leaf.run_job (h : Contained ((evaluateText l.text).run t).outcome) :
    ((l.job evaluateText).run t).outcome =
        .ok (((evaluateText l.text).run t).outcome.toOption.map .text) ∧
      ((l.job evaluateText).run t).state = ((evaluateText l.text).run t).state := by
  have hrun := Process.run_bind (evaluateText l.text) (fun text => .done (Value.text text)) t
  rw [Run.bind] at hrun
  cases ho : ((evaluateText l.text).run t).outcome with
  | ok text =>
    simp only [ho] at hrun
    have hleaf : ((Value.leafProcess evaluateText l.text).run t).outcome = .ok (.text text) := by
      rw [Value.leafProcess, hrun]
      rfl
    rw [Leaf.job, Process.run_keep_of_ok hleaf, Value.leafProcess, hrun]
    exact ⟨rfl, rfl⟩
  | error f =>
    simp only [ho] at hrun
    have hleaf : ((Value.leafProcess evaluateText l.text).run t).outcome = .error f := by
      rw [Value.leafProcess, hrun]
    rw [Leaf.job, Process.run_keep_of_error hleaf (h f ho), Value.leafProcess, hrun]
    exact ⟨rfl, rfl⟩

end Jobs

/-! ## The walk of a tree -/

/-- What a crew of a tree's processes ends with in some order, where they tell their deeds : every
text has done what it does alone in the state `t`, the tree has what the texts end with there in
their places, and the keys are those of `t`. -/
structure Settled (e : Engine B σ) (has : K → σ → Bool) (t : σ) (tree : Value)
    (o : Crew.Outcome σ (List (Deed σ) × Except Fault (Option Value))) : Prop where
  keys : ∀ k, has k o.state = has k t
  endings : o.endings = (tree.rootJobs hasOpening e.leafTextAsync).map fun p =>
    .ok (p.deeds t, (p.run t).outcome)
  journal : o.journal.Perm
    ((tree.rootJobs hasOpening e.leafTextAsync).flatMap fun p => (p.run t).journal)
  tree : ∃ w, tree.ofEndings hasOpening o.plain.endings = .ok w ∧ tree.replaced
    (tree.texts.map fun s => ((e.leafTextAsync s).run t).outcome.toOption) = some w

/-- No text of the tree holds up another in the walk from `s` that takes all at once, and whatever
the order of the steps, all do what they do alone in the state `t`. -/
structure Unhindered (e : Engine B σ) (has : K → σ → Bool) (s t : σ) (tree : Value) : Prop where
  /-- Each text that the walk looks into is one process, at whatever depth. -/
  jobs : tree.rootJobs hasOpening e.leafTextAsync =
    ((tree.leaves []).filter Leaf.isSought).map (Leaf.job e.leafTextAsync)
  /-- The engine's walk takes one of the orders. -/
  walk : ∃ o, Crew.Schedule (tree.rootJobs hasOpening e.leafTextAsync) s o ∧
    e.runWalkAsync tree s = ⟨tree.ofEndings hasOpening o.endings, o.state, o.journal⟩
  /-- When no process can move, the same remains of them in all orders : each has ended, or waits
  for a key that is not signalled. -/
  stuck : ∀ qs u j, Crew.Reaches (tree.rootJobs hasOpening e.leafTextAsync) s qs u j →
    (∀ q ∈ qs, q.move? u = none) → (∀ k, has k u = has k t) ∧
      (qs = (tree.rootJobs hasOpening e.leafTextAsync).map fun p => p.left t) ∧
      ∀ q ∈ qs, q.refuse? = none ∨ ∃ k p p', q = .await (has k) p p' ∧ has k t = false
  /-- The orders are those in which the processes tell their deeds. -/
  told : ∀ o, Crew.Schedule (tree.rootJobs hasOpening e.leafTextAsync) s o ↔
    ∃ o', Crew.Schedule ((tree.rootJobs hasOpening e.leafTextAsync).map (Process.told [])) s o' ∧
      o'.plain = o
  /-- In each of them, all do as they do alone. -/
  settled : ∀ o,
    Crew.Schedule ((tree.rootJobs hasOpening e.leafTextAsync).map (Process.told [])) s o →
      Settled e has t tree o

namespace Engine.Heeds

variable {e : Engine B σ} {has : K → σ → Bool} (h : e.Heeds has) {tree : Value}
  (hc : tree.isContainer = true) (hk : tree.keysShown = true)

include h

theorem job (l : Leaf) : (l.job e.leafTextAsync).Heeds has fun o => o = .ok none :=
  ((h.leafTextAsync l.text).bind fun text => .done (Value.text text)).keep l.label

include hc hk

theorem rootJobs : ∀ p ∈ tree.rootJobs hasOpening e.leafTextAsync,
    p.Heeds has fun o => o = .ok none := by
  rw [rootJobs_eq e.leafTextAsync hc hk]
  intro p hp
  obtain ⟨l, -, rfl⟩ := List.mem_map.mp hp
  exact h.job l

theorem told_rootJobs : ∀ q ∈ (tree.rootJobs hasOpening e.leafTextAsync).map (Process.told []),
    q.Heeds has fun _ => True := by
  intro q hq
  obtain ⟨p, hp, rfl⟩ := List.mem_map.mp hq
  exact (h.rootJobs hc hk p hp).told []

/-- The keys that a tree's processes signal alone are those that the evaluations of its texts
signal. -/
theorem keysIn_rootJobs_iff (u : σ) :
    (∀ p ∈ tree.rootJobs hasOpening e.leafTextAsync, KeysIn has (p.run u).state u) ↔
      ∀ s ∈ tree.texts, hasOpening s = true → KeysIn has ((e.leafTextAsync s).run u).state u := by
  have hstate : ∀ l : Leaf, ((l.job e.leafTextAsync).run u).state =
      ((e.leafTextAsync l.text).run u).state := fun l =>
    (Leaf.run_job ((h.leafTextAsync l.text).contained u)).2
  simp only [rootJobs_eq e.leafTextAsync hc hk, Value.texts, List.forall_mem_map, List.mem_filter,
    hstate, Leaf.isSought, and_imp]

/-- What a tree's processes end with, each alone, makes the tree with what its texts come to. -/
theorem ofEndings_rootJobs (t : σ) :
    ∃ w, tree.ofEndings hasOpening ((tree.rootJobs hasOpening e.leafTextAsync).map fun p =>
        (p.run t).outcome) = .ok w ∧
      tree.replaced (tree.texts.map fun s => ((e.leafTextAsync s).run t).outcome.toOption) =
        some w := by
  have hends : ((tree.rootJobs hasOpening e.leafTextAsync).map fun p => (p.run t).outcome) =
      (resultsOf (fun s => ((e.leafTextAsync s).run t).outcome.toOption) (tree.leaves [])).map
        .ok := by
    rw [rootJobs_eq e.leafTextAsync hc hk, resultsOf, List.map_map, List.map_map]
    exact List.map_congr_left fun l _ => (Leaf.run_job ((h.leafTextAsync l.text).contained t)).1
  have hfill := fill_eq (g := fun s => ((e.leafTextAsync s).run t).outcome.toOption)
    (fun s hs => by rw [e.leafTextAsync_of_plain hs]; rfl) [] tree hk [] []
  rw [List.append_nil, List.append_nil] at hfill
  obtain ⟨w, hw⟩ : ∃ w, tree.replaced (tree.texts.map fun s =>
      ((e.leafTextAsync s).run t).outcome.toOption) = some w := by
    cases tree with
    | list => exact ⟨_, rfl⟩
    | tuple => exact ⟨_, rfl⟩
    | dict => exact ⟨_, rfl⟩
    | view => exact ⟨_, rfl⟩
    | _ => cases hc
  refine ⟨w, ?_, hw⟩
  rw [Value.texts, List.map_map] at hw
  rw [hends, ofEndings_ok, hfill]
  exact congrArg (fun v => Except.ok (v.getD Value.null)) hw

/-- Whatever `t` is, if its keys are those that are there in the end. -/
theorem settled {s t : σ} {o : Crew.Outcome σ (List (Deed σ) × Except Fault (Option Value))}
    (ho : Crew.Schedule ((tree.rootJobs hasOpening e.leafTextAsync).map (Process.told [])) s o)
    (hkeys : ∀ k, has k o.state = has k t) : Settled e has t tree o := by
  obtain ⟨-, halone⟩ := ho.of_heeds (h.told_rootJobs hc hk)
  have hsame : ∀ p ∈ tree.rootJobs hasOpening e.leafTextAsync, Process.SameRun has
      ((p.told []).run o.state) ⟨.ok (p.deeds t, (p.run t).outcome), (p.run t).state,
        (p.run t).journal⟩ := by
    intro p hp
    have hrun := ((h.rootJobs hc hk p hp).told []).run_congr hkeys
    rwa [p.run_told [] t, List.nil_append] at hrun
  have hends : o.endings = (tree.rootJobs hasOpening e.leafTextAsync).map fun p =>
      .ok (p.deeds t, (p.run t).outcome) := by
    rw [halone.endings, List.map_map]
    exact List.map_congr_left fun p hp => (hsame p hp).outcome
  refine ⟨hkeys, hends, ?_, ?_⟩
  · have hjournal := halone.journal
    rwa [List.flatMap_map, List.flatMap_congr fun p hp => (hsame p hp).journal] at hjournal
  · obtain ⟨w, hw, hreplaced⟩ := h.ofEndings_rootJobs hc hk t
    refine ⟨w, ?_, hreplaced⟩
    rw [← hw, Crew.Outcome.plain, hends, List.map_map]
    rfl

end Engine.Heeds

/-- If handlers have to do with one another only by signalling keys and by waiting for them, no
entry of a tree whose keys can be shown holds up another. There are keys that are signalled in the
end in every order of steps, and in whatever arrangement the texts stand, in that tree or in
another. Each text makes the calls that it makes alone where those keys are there, its waits are
granted or refused as they are there, and so the tree is the same. -/
theorem walkAsync_of_heeds (has : K → σ → Bool) (e : Engine B σ) (h : e.Heeds has) (tree : Value)
    (hc : tree.isContainer = true) (hk : tree.keysShown = true) (s : σ) :
    ∃ t : σ, ∀ other : Value, other.isContainer = true → other.keysShown = true →
      (∀ text, text ∈ other.texts ↔ text ∈ tree.texts) → Unhindered e has s t other := by
  have hrun := Crew.schedule_run (tree.rootJobs hasOpening e.leafTextAsync) s
  refine ⟨(Crew.run (tree.rootJobs hasOpening e.leafTextAsync) s).state,
    fun other hc' hk' htexts => ?_⟩
  have hsame : ∀ u,
      (∀ p ∈ other.rootJobs hasOpening e.leafTextAsync, KeysIn has (p.run u).state u) ↔
        ∀ p ∈ tree.rootJobs hasOpening e.leafTextAsync, KeysIn has (p.run u).state u := fun u => by
    simp only [h.keysIn_rootJobs_iff hc' hk', h.keysIn_rootJobs_iff hc hk, htexts]
  refine ⟨rootJobs_eq _ hc' hk', ⟨_, Crew.schedule_run _ s, rfl⟩, fun qs u j hreach hstuck => ?_,
    fun o => Crew.schedule_iff_told, fun o ho => h.settled hc' hk' ho ?_⟩
  · obtain ⟨hqs, -, hleft⟩ := hreach.of_heeds (h.rootJobs hc' hk')
    -- From here on waits are refused, and no key is signalled.
    have hrest := Crew.schedule_run qs u
    have hstate := hrest.of_dormant fun q hq => Or.inr ⟨hqs q hq, hstuck q hq⟩
    have hkeys := (hreach.schedule hrest).keys_eq hrun (h.rootJobs hc' hk') (h.rootJobs hc hk) hsame
    rw [hstate] at hkeys
    refine ⟨hkeys, ?_, fun q hq => ?_⟩
    · rw [hleft _ fun k hk => (hkeys k).symm.trans hk]
      exact ((List.map_congr_left fun q hq =>
        (hqs q hq).left_of_stuck (hstuck q hq) hkeys).trans (List.map_id _)).symm
    · exact ((hqs q hq).cases_of_stuck (hstuck q hq)).imp_right
        fun ⟨k, p, p', heq, hk⟩ => ⟨k, p, p', heq, (hkeys k).symm.trans hk⟩
  · refine ho.keys_eq hrun (h.told_rootJobs hc' hk') (h.rootJobs hc hk) fun u => ?_
    simpa only [List.forall_mem_map, Process.run_told] using hsame u

/-- A handler `s` that signals a key and a handler `w` that waits for one. -/
def signalRegistry : Registry Scripted where
  cwd := none
  defaults := []
  specs := [⟨['s'], .custom ⟨.signal, []⟩ .direct, false, false, []⟩,
    ⟨['w'], .custom ⟨.await, []⟩ .declared, true, false, []⟩]
  hasAsync := true

/-- Two texts that signal what the other waits for, one of them inside a mapping; one that waits for
its own signal before it gives it; and two that each wait for the other first. -/
def crossedTree : Value :=
  .list [.ofString "[@w key=a][@s key=b]", .dict [(.ofString "k", .ofString "[@s key=a][@w key=b]"),
    (.int 1, .ofString "[@w key=c][@s key=c]")],
    .tuple [.ofString "[@w key=d][@s key=e]", .ofString "[@w key=e][@s key=d]"]]

/-- The same texts in another arrangement. -/
def recrossedTree : Value :=
  .dict [
    (.ofString "k",
      .tuple [.ofString "[@w key=e][@s key=d]", .ofString "[@w key=c][@s key=c]"]),
    (.ofString "l", .list [.ofString "[@s key=a][@w key=b]", .ofString "[@w key=d][@s key=e]",
      .ofString "[@w key=a][@s key=b]"])]

theorem walkAsync_of_heeds_crossed : (Scripted.engine signalRegistry {}).Heeds Shelf.hasSignal ∧
    crossedTree.isContainer = true ∧ crossedTree.keysShown = true ∧
      ∃ t, ∀ tree ∈ [crossedTree, recrossedTree],
        Unhindered (Scripted.engine signalRegistry {}) Shelf.hasSignal {} t tree := by
  have hsteady : ∀ spec ∈ signalRegistry.specs, ∀ b mode, spec.handler = .custom b mode →
      b.recipe.isSteady = true := by
    intro spec hspec b mode hb
    simp only [signalRegistry, List.mem_cons, List.not_mem_nil, or_false] at hspec
    rcases hspec with rfl | rfl <;> cases hb <;> rfl
  have h := Scripted.heeds hsteady {}
  have hk : crossedTree.keysShown = true := by decide +kernel
  have hperm : recrossedTree.texts.Perm crossedTree.texts := by decide +kernel
  obtain ⟨t, ht⟩ := walkAsync_of_heeds Shelf.hasSignal _ h crossedTree rfl hk {}
  refine ⟨h, rfl, hk, t, List.forall_mem_cons.mpr ⟨?_, List.forall_mem_singleton.mpr ?_⟩⟩
  · exact ht crossedTree rfl hk fun _ => Iff.rfl
  · exact ht recrossedTree rfl (by decide +kernel) fun _ => hperm.mem_iff

end TagTemplate
