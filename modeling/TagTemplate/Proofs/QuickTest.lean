import TagTemplate.Proofs.Concurrency

/-!
# The quick test

A walk passes over a text that fails the quick test. The test saves work and decides nothing : in
such a text no tag is read, and its evaluation hands it back without a call and without a note. So
the walks whose test every text passes (`everyText`) do what the walks with the quick test do, in
every tree.

Of the walk that takes the entries in order, that is an equation of processes. The asynchronous walk
of every text has more processes than the other, each of which is done before it starts. They are
interspersed with those of the walk with the test (`Interspersed`), and neither make steps nor
hinder any, in whatever order steps are made. What the crews end with is then put in place alike
(`Spares`).
-/

namespace TagTemplate

variable {B σ α β : Type}

/-! ## Walks of every text -/

/-- Every text passes. -/
def everyText (_ : Text) : Bool :=
  true

namespace Engine

/-- The synchronous walk through a tree that evaluates every text. -/
def walkSyncUntested (e : Engine B σ) (tree : Value) : Process σ Value :=
  e.gated (tree.walkSync everyText e.leafText)

/-- The run of the asynchronous walk through a tree that evaluates every text. -/
def runWalkAsyncUntested (e : Engine B σ) (tree : Value) (s : σ) : Run σ Value :=
  tree.runAsync everyText e.leafTextAsync s

end Engine

/-! ## One entry after another -/

section Sync

variable {test : Text → Bool} {evaluateText : Text → Process σ Text}

theorem leafProcess_of_plain (h : ∀ s, test s = false → evaluateText s = .done s) {s : Text}
    (hs : test s = false) : Value.leafProcess evaluateText s = .done (.text s) := by
  rw [Value.leafProcess, h s hs]
  rfl

mutual

/-- The walk in order is the same process without a test that only passes over texts whose
evaluation does nothing. -/
theorem walkSync_everyText (h : ∀ s, test s = false → evaluateText s = .done s) :
    ∀ v : Value, v.walkSync everyText evaluateText = v.walkSync test evaluateText
  | .text s => by
    rw [Value.walkSync, Value.walkSync, everyText, if_pos rfl]
    split
    next => rfl
    next hs => exact leafProcess_of_plain h (by simpa using hs)
  | .list items => by rw [Value.walkSync, Value.walkSync, walkItemsSync_everyText h]
  | .tuple items => by rw [Value.walkSync, Value.walkSync, walkItemsSync_everyText h]
  | .dict entries => by rw [Value.walkSync, Value.walkSync, walkEntriesSync_everyText h]
  | .view entries => by rw [Value.walkSync, Value.walkSync, walkEntriesSync_everyText h]
  | .null | .bool _ | .int _ | .float _ | .bytes _ | .timestamp _ _ | .set _ _ => rfl

theorem walkItemsSync_everyText (h : ∀ s, test s = false → evaluateText s = .done s)
    (index : Nat) : ∀ items : List Value,
      Value.walkItemsSync everyText evaluateText index items =
        Value.walkItemsSync test evaluateText index items
  | [] => rfl
  | v :: rest => by
    rw [Value.walkItemsSync, Value.walkItemsSync, walkSync_everyText h v,
      walkItemsSync_everyText h (index + 1) rest]

theorem walkEntriesSync_everyText (h : ∀ s, test s = false → evaluateText s = .done s) :
    ∀ entries : List (Value × Value),
      Value.walkEntriesSync everyText evaluateText entries =
        Value.walkEntriesSync test evaluateText entries
  | [] => rfl
  | (k, v) :: rest => by
    rw [Value.walkEntriesSync, Value.walkEntriesSync]
    cases k.shown? with
    | none => rfl
    | some label => simp only [walkSync_everyText h v, walkEntriesSync_everyText h rest]

end

end Sync

/-! ## Processes that are done, between others -/

/-- The list `cs` is `bs` with `put a` in the place of each mark that is some `a`. The other marks
stand for the members of `bs`. -/
inductive Interspersed (put : α → β) : List (Option α) → List β → List β → Prop
  | nil : Interspersed put [] [] []
  | put (a : α) {marks : List (Option α)} {bs cs : List β} (h : Interspersed put marks bs cs) :
    Interspersed put (some a :: marks) bs (put a :: cs)
  | own (b : β) {marks : List (Option α)} {bs cs : List β} (h : Interspersed put marks bs cs) :
    Interspersed put (none :: marks) (b :: bs) (b :: cs)

namespace Interspersed

theorem append {put : α → β} {marks marks' : List (Option α)} {bs bs' cs cs' : List β}
    (h : Interspersed put marks bs cs) (h' : Interspersed put marks' bs' cs') :
    Interspersed put (marks ++ marks') (bs ++ bs') (cs ++ cs') := by
  induction h with
  | nil => exact h'
  | put a _ ih => exact .put a ih
  | own b _ ih => exact .own b ih

theorem of_append {put : α → β} {marks marks' : List (Option α)} {ds es : List β}
    (h : Interspersed put (marks ++ marks') ds es) :
    ∃ bs bs' cs cs', ds = bs ++ bs' ∧ es = cs ++ cs' ∧ Interspersed put marks bs cs ∧
      Interspersed put marks' bs' cs' := by
  induction marks generalizing ds es with
  | nil => exact ⟨[], ds, [], es, rfl, rfl, .nil, h⟩
  | cons mark marks ih =>
    cases h with
    | put a h =>
      obtain ⟨bs, bs', cs, cs', rfl, rfl, hl, hr⟩ := ih h
      exact ⟨bs, bs', put a :: cs, cs', rfl, rfl, .put a hl, hr⟩
    | own b h =>
      obtain ⟨bs, bs', cs, cs', rfl, rfl, hl, hr⟩ := ih h
      exact ⟨b :: bs, bs', b :: cs, cs', rfl, rfl, .own b hl, hr⟩

/-- What holds of all that is put in holds of all members, if it does of those around. -/
theorem forall_mem_iff {put : α → β} {marks : List (Option α)} {bs cs : List β}
    (h : Interspersed put marks bs cs) {P : β → Prop} (hput : ∀ a, P (put a)) :
    (∀ c ∈ cs, P c) ↔ ∀ b ∈ bs, P b := by
  induction h with
  | nil => exact Iff.rfl
  | put a _ ih => simp [hput, ih]
  | own b _ ih => simp [ih]

/-- What one member of `bs` can become, the same member of `cs` can. -/
theorem changed_right {put : α → β} {R : β → β → Prop} {marks : List (Option α)}
    {bs bs' cs : List β} (h : Interspersed put marks bs cs)
    (hb : Changed R bs bs') : ∃ cs', Changed R cs cs' ∧ Interspersed put marks bs' cs' := by
  induction h generalizing bs' with
  | nil => cases hb
  | put a _ ih =>
    obtain ⟨cs', hc, h'⟩ := ih hb
    exact ⟨_, .tail _ hc, .put a h'⟩
  | own b h ih =>
    cases hb with
    | head hb => exact ⟨_, .head hb _, .own _ h⟩
    | tail _ hb =>
      obtain ⟨cs', hc, h'⟩ := ih hb
      exact ⟨_, .tail b hc, .own b h'⟩

/-- Conversely, if what is put in becomes nothing else. -/
theorem changed_left {put : α → β} {R : β → β → Prop} {marks : List (Option α)}
    {bs cs cs' : List β} (h : Interspersed put marks bs cs) (hput : ∀ a c, ¬R (put a) c)
    (hc : Changed R cs cs') : ∃ bs', Changed R bs bs' ∧ Interspersed put marks bs' cs' := by
  induction h generalizing cs' with
  | nil => cases hc
  | put a _ ih =>
    cases hc with
    | head hc => exact absurd hc (hput a _)
    | tail _ hc =>
      obtain ⟨bs', hb, h'⟩ := ih hc
      exact ⟨bs', hb, .put a h'⟩
  | own b h ih =>
    cases hc with
    | head hc => exact ⟨_, .head hc _, .own _ h⟩
    | tail _ hc =>
      obtain ⟨bs', hb, h'⟩ := ih hc
      exact ⟨_, .tail b hb, .own b h'⟩

section Crews

variable {marks : List (Option α)} {ps ps' qs qs' : List (Process σ α)} {s t : σ} {j : Journal}

/-- A process that is done changes neither which one is the first to move nor what it does. -/
theorem move? (h : Interspersed .done marks ps qs) (s : σ) :
    Option.Rel (fun x y => Interspersed .done marks x.1 y.1 ∧ x.2 = y.2) (Crew.move? ps s)
      (Crew.move? qs s) := by
  induction h with
  | nil => exact .none
  | @put a marks ps qs _ ih =>
    simp only [Crew.move?, Process.move?]
    generalize Crew.move? ps s = x, Crew.move? qs s = y at ih ⊢
    cases ih with
    | none => exact .none
    | some h => exact .some ⟨.put a h.1, h.2⟩
  | @own p marks ps qs h ih =>
    simp only [Crew.move?]
    cases p.move? s with
    | some r => exact .some ⟨.own r.1 h, rfl⟩
    | none =>
      generalize Crew.move? ps s = x, Crew.move? qs s = y at ih ⊢
      cases ih with
      | none => exact .none
      | some h => exact .some ⟨.own p h.1, h.2⟩

theorem refuse? (h : Interspersed .done marks ps qs) :
    Option.Rel (Interspersed .done marks) (Crew.refuse? ps) (Crew.refuse? qs) := by
  induction h with
  | nil => exact .none
  | @put a marks ps qs _ ih =>
    simp only [Crew.refuse?, Process.refuse?]
    generalize Crew.refuse? ps = x, Crew.refuse? qs = y at ih ⊢
    cases ih with
    | none => exact .none
    | some h => exact .some (.put a h)
  | @own p marks ps qs h ih =>
    simp only [Crew.refuse?]
    cases p.refuse? with
    | some q => exact .some (.own q h)
    | none =>
      generalize Crew.refuse? ps = x, Crew.refuse? qs = y at ih ⊢
      cases ih with
      | none => exact .none
      | some h => exact .some (.own p h)

theorem step? (h : Interspersed .done marks ps qs) (s : σ) :
    Option.Rel (fun x y => Interspersed .done marks x.1 y.1 ∧ x.2 = y.2) (Crew.step? ps s)
      (Crew.step? qs s) := by
  have hmove := h.move? s
  have hrefuse := h.refuse?
  rw [Crew.step?, Crew.step?]
  generalize Crew.move? ps s = x, Crew.move? qs s = y at hmove ⊢
  cases hmove with
  | some h => exact .some h
  | none =>
    generalize Crew.refuse? ps = x, Crew.refuse? qs = y at hrefuse ⊢
    cases hrefuse with
    | none => exact .none
    | some h => exact .some ⟨h, rfl⟩

/-- What the processes end with. -/
theorem endings (h : Interspersed .done marks ps qs) :
    Interspersed .ok marks (ps.map Process.ending) (qs.map Process.ending) := by
  induction h with
  | nil => exact .nil
  | put a _ ih => exact .put a ih
  | own p _ ih => exact .own p.ending ih

/-- So the runs of both crews make the same steps. -/
theorem run (h : Interspersed .done marks ps qs) (s : σ) :
    Interspersed .ok marks (Crew.run ps s).endings (Crew.run qs s).endings ∧
      (Crew.run qs s).state = (Crew.run ps s).state ∧
      (Crew.run qs s).journal = (Crew.run ps s).journal := by
  induction ps, s using Crew.run.induct generalizing qs with
  | case1 ps s hnone =>
    have hstep := h.step? s
    rw [hnone] at hstep
    generalize hq : Crew.step? qs s = y at hstep
    cases hstep
    rw [Crew.run, Crew.run, hnone, hq]
    exact ⟨h.endings, rfl, rfl⟩
  | case2 ps s ps' t j hsome ih =>
    have hstep := h.step? s
    rw [hsome] at hstep
    generalize hq : Crew.step? qs s = y at hstep
    cases hstep with
    | @some _ r h' =>
      obtain ⟨qs', t', j'⟩ := r
      obtain ⟨hqs, heq⟩ := h'
      obtain ⟨rfl, rfl⟩ := Prod.mk.inj heq
      obtain ⟨hends, hstate, hjournal⟩ := ih hqs
      rw [Crew.run, Crew.run, hsome, hq]
      exact ⟨hends, hstate, congrArg (j ++ ·) hjournal⟩

/-- In any order, each of the crews can do what the other can. -/
theorem follows (marks : List (Option α)) :
    Crew.Follows (σ := σ) (Interspersed (.done : α → Process σ α) marks) where
  moves h := h.changed_right
  refuses h := h.changed_right
  stuck h _ := (h.forall_mem_iff fun _ => rfl).mpr
  none h := (h.forall_mem_iff fun _ => rfl).mpr

theorem follows_back (marks : List (Option α)) :
    Crew.Follows fun qs ps : List (Process σ α) => Interspersed .done marks ps qs where
  moves h := h.changed_left fun _ _ hq => by cases hq
  refuses h := h.changed_left fun _ _ hq => by cases hq
  stuck h _ := (h.forall_mem_iff fun _ => rfl).mp
  none h := (h.forall_mem_iff fun _ => rfl).mp

end Crews

end Interspersed

/-! ## What is put in place -/

/-- The first fault is that of either list. If there is none, the results are interspersed as the
endings are. -/
theorem Interspersed.results {marks : List (Option α)} {os os' : List (Except Fault α)}
    (h : Interspersed .ok marks os os') :
    (∃ f, os.mapM id = .error f ∧ os'.mapM id = .error f) ∨
      ∃ rs rs', os.mapM id = .ok rs ∧ os'.mapM id = .ok rs' ∧ Interspersed id marks rs rs' := by
  induction h with
  | nil => exact Or.inr ⟨[], [], rfl, rfl, .nil⟩
  | put a _ ih =>
    simp only [List.mapM_cons]
    rcases ih with ⟨f, h, h'⟩ | ⟨rs, rs', h, h', hrs⟩
    · exact Or.inl ⟨f, h, by rw [h']; rfl⟩
    · exact Or.inr ⟨rs, a :: rs', h, by rw [h']; rfl, .put a hrs⟩
  | own o _ ih =>
    simp only [List.mapM_cons]
    cases o with
    | error f => exact Or.inl ⟨f, rfl, rfl⟩
    | ok a =>
      rcases ih with ⟨f, h, h'⟩ | ⟨rs, rs', h, h', hrs⟩
      · exact Or.inl ⟨f, by rw [h]; rfl, by rw [h']; rfl⟩
      · exact Or.inr ⟨a :: rs, a :: rs', by rw [h]; rfl, by rw [h']; rfl, .own a hrs⟩

/-- The processes `jobs` can do without those of `jobs'` that are done already : what `collect`
makes of the results is what `collect'` makes of them and of those others, whatever other results
follow. -/
def Spares (jobs jobs' : List (Process σ (Option Value)))
    (collect collect' : List (Option Value) → α × List (Option Value)) : Prop :=
  ∃ marks, Interspersed .done marks jobs jobs' ∧
    ∀ rs rs', Interspersed id marks rs rs' →
      ∃ a, ∀ more, collect (rs ++ more) = (a, more) ∧ collect' (rs' ++ more) = (a, more)

namespace Spares

variable {γ : Type} {jobs jobs' others others' : List (Process σ (Option Value))}
  {collect collect' : List (Option Value) → α × List (Option Value)}
  {next next' : List (Option Value) → β × List (Option Value)}

theorem done (a : α) :
    Spares (σ := σ) [] [] (fun results => (a, results)) fun results => (a, results) :=
  ⟨[], .nil, fun _ _ h => by cases h; exact ⟨a, fun _ => ⟨rfl, rfl⟩⟩⟩

theorem map (h : Spares jobs jobs' collect collect') (f : α → γ) :
    Spares jobs jobs' (fun results => (f (collect results).1, (collect results).2))
      fun results => (f (collect' results).1, (collect' results).2) := by
  obtain ⟨marks, hjobs, hall⟩ := h
  refine ⟨marks, hjobs, fun rs rs' hrs => ?_⟩
  obtain ⟨a, ha⟩ := hall rs rs' hrs
  exact ⟨f a, fun more => by simp only [ha, and_self]⟩

/-- One after the other. -/
theorem both (h : Spares jobs jobs' collect collect') (h' : Spares others others' next next')
    (f : α → β → γ) :
    Spares (jobs ++ others) (jobs' ++ others')
      (fun results =>
        (f (collect results).1 (next (collect results).2).1, (next (collect results).2).2))
      fun results =>
        (f (collect' results).1 (next' (collect' results).2).1,
          (next' (collect' results).2).2) := by
  obtain ⟨marks, hjobs, hall⟩ := h
  obtain ⟨marks', hothers, hall'⟩ := h'
  refine ⟨marks ++ marks', hjobs.append hothers, fun rs rs' hrs => ?_⟩
  obtain ⟨bs, bs', cs, cs', rfl, rfl, hl, hr⟩ := hrs.of_append
  obtain ⟨a, ha⟩ := hall bs cs hl
  obtain ⟨b, hb⟩ := hall' bs' cs' hr
  exact ⟨f a b, fun more => by simp only [List.append_assoc, ha, hb, and_self]⟩

theorem single (p : Process σ (Option Value)) :
    Spares [p] [p] (fun results => (results.headD none, results.tail))
      fun results => (results.headD none, results.tail) := by
  refine ⟨[none], .own p .nil, fun rs rs' h => ?_⟩
  cases h with
  | own r h => cases h; exact ⟨r, fun _ => ⟨rfl, rfl⟩⟩

end Spares

section Trees

variable {test : Text → Bool} {evaluateText : Text → Process σ Text}

/-- The process of a text can be done without where it is done already. -/
theorem spares_text {s : Text} {p : Process σ (Option Value)}
    (hp : test s = false → p = .done (some (.text s))) :
    Spares (if test s then [p] else []) [p] ((Value.text s).fill test)
      ((Value.text s).fill everyText) := by
  have hevery : (Value.text s).fill everyText =
      fun results => (results.headD none, results.tail) := rfl
  rw [hevery]
  cases hs : test s with
  | true =>
    simp only [fill_text_of_pass hs, if_true]
    exact .single p
  | false =>
    rw [hp hs]
    refine ⟨[some (some (.text s))], .put _ .nil, fun rs rs' hrs => ?_⟩
    cases hrs with
    | put _ hrs =>
      cases hrs
      exact ⟨some (.text s), fun more => ⟨by rw [fill_text_of_not_pass hs]; rfl, rfl⟩⟩

/-- A mapping whose keys can be shown spares what its entries do, and one with a key that cannot be
has one process either way. -/
theorem spares_dict {entries : List (Value × Value)} (p : Process σ (Option Value))
    (h : Spares (Value.mappingJobs test evaluateText entries)
      (Value.mappingJobs everyText evaluateText entries) (Value.fillEntries test entries)
      (Value.fillEntries everyText entries)) :
    Spares
      (if (Value.keyLabels? entries).isSome then Value.mappingJobs test evaluateText entries
        else [p])
      (if (Value.keyLabels? entries).isSome then Value.mappingJobs everyText evaluateText entries
        else [p])
      ((Value.dict entries).fill test) ((Value.dict entries).fill everyText) := by
  cases hk : (Value.keyLabels? entries).isSome with
  | true =>
    simp only [fill_dict_of_shown hk, if_true]
    exact h.map fun es => some (Value.dict es)
  | false =>
    simp only [fill_dict_of_not_shown hk, Bool.false_eq_true, if_false]
    exact .single p

mutual

/-- The processes of an entry spare those of texts that are passed over. -/
theorem spares_entry (h : ∀ s, test s = false → evaluateText s = .done s) (label : Text) :
    ∀ v : Value, Spares (Value.entryJobs test evaluateText label v)
      (Value.entryJobs everyText evaluateText label v) (v.fill test) (v.fill everyText)
  | .text s => spares_text fun hs => by rw [leafProcess_of_plain h hs]; rfl
  | .list items => (spares_items h 0 items).map fun vs => some (Value.list vs)
  | .tuple items => (spares_items h 0 items).map fun vs => some (Value.tuple vs)
  | .dict entries => spares_dict _ (spares_entries h entries)
  | .view entries => spares_dict _ (spares_entries h entries)
  | .null | .bool _ | .int _ | .float _ | .bytes _ | .timestamp _ _ | .set _ _ => .done _

theorem spares_items (h : ∀ s, test s = false → evaluateText s = .done s) (index : Nat) :
    ∀ items : List Value, Spares (Value.itemJobs test evaluateText index items)
      (Value.itemJobs everyText evaluateText index items) (Value.fillItems test items)
      (Value.fillItems everyText items)
  | [] => .done []
  | v :: rest => (spares_entry h (Value.itemLabel index) v).both
      (spares_items h (index + 1) rest) fun kept vs => kept.toList ++ vs

theorem spares_entries (h : ∀ s, test s = false → evaluateText s = .done s) :
    ∀ entries : List (Value × Value), Spares (Value.mappingJobs test evaluateText entries)
      (Value.mappingJobs everyText evaluateText entries) (Value.fillEntries test entries)
      (Value.fillEntries everyText entries)
  | [] => .done []
  | (k, v) :: rest => (spares_entry h (k.shown?.getD []) v).both (spares_entries h rest)
      fun kept es => (kept.map fun w => (k, w)).toList ++ es

end

/-- So it is at the root, which has no boundary. -/
theorem spares_root (h : ∀ s, test s = false → evaluateText s = .done s) (tree : Value) :
    Spares (tree.rootJobs test evaluateText) (tree.rootJobs everyText evaluateText)
      (tree.fill test) (tree.fill everyText) := by
  cases tree with
  | text s => exact spares_text fun hs => by rw [leafProcess_of_plain h hs]; rfl
  | dict entries => exact spares_dict _ (spares_entries h entries)
  | view entries => exact spares_dict _ (spares_entries h entries)
  | _ => exact spares_entry h [] _

/-- What the crews end with makes the same tree, or fails with the same fault. -/
theorem Spares.ofEndings {tree : Value} {marks : List (Option (Option Value))}
    {os os' : List (Except Fault (Option Value))} (h : Interspersed .ok marks os os')
    (hall : ∀ rs rs', Interspersed id marks rs rs' → ∃ a, ∀ more,
      tree.fill test (rs ++ more) = (a, more) ∧ tree.fill everyText (rs' ++ more) = (a, more)) :
    tree.ofEndings everyText os' = tree.ofEndings test os := by
  rw [Value.ofEndings, Value.ofEndings]
  rcases h.results with ⟨f, hos, hos'⟩ | ⟨rs, rs', hos, hos', hrs⟩
  · rw [hos, hos']
    rfl
  · obtain ⟨a, ha⟩ := hall rs rs' hrs
    have hall := ha []
    rw [List.append_nil, List.append_nil] at hall
    rw [hos, hos']
    simp only [Except.bind, bind, pure, Except.pure, hall]

end Trees

/-- Two crews end alike, where the results are those of a tree's processes, and in the second case
of all its texts. -/
structure EndsAlike (tree : Value) (o o' : Crew.Outcome σ (Option Value)) : Prop where
  result : tree.ofEndings everyText o'.endings = tree.ofEndings hasOpening o.endings
  state : o'.state = o.state
  journal : o'.journal = o.journal

/-- A text that fails the quick test has no matches, and its evaluation, whoever drives it and
whatever handlers there are, hands it back with nothing in the journal. So every tree is walked as
if all its texts were evaluated. In order, that is one run from each state. All at once, it is one
run as well, and the orders of steps with the test and those without end alike. -/
theorem walks_untested :
    (∀ s, hasOpening s = false → matchesOf (.text s) = .ok [] ∧
      ∀ {B σ : Type} (e : Engine B σ) (d : Driver) (st : σ),
        (e.textBy d s).run st = ⟨.ok ⟨s, []⟩, st, []⟩) ∧
    ∀ {B σ : Type} (e : Engine B σ) (tree : Value) (st : σ),
      (e.walkSyncUntested tree).run st = (e.walkSync tree).run st ∧
      e.runWalkAsyncUntested tree st = e.runWalkAsync tree st ∧
      (∀ o, Crew.Schedule (tree.rootJobs hasOpening e.leafTextAsync) st o →
        ∃ o', Crew.Schedule (tree.rootJobs everyText e.leafTextAsync) st o' ∧
          EndsAlike tree o o') ∧
      ∀ o', Crew.Schedule (tree.rootJobs everyText e.leafTextAsync) st o' →
        ∃ o, Crew.Schedule (tree.rootJobs hasOpening e.leafTextAsync) st o ∧
          EndsAlike tree o o' := by
  constructor
  · refine fun s hs => ⟨?_, fun e d st => ?_⟩
    · have hmatches : matchesOf (.text s) =
          (Reading.matchesOfText s >>= fun r => pure r.matches) := rfl
      rw [hmatches, matchesOfText_of_plain hs]
      rfl
    · rw [e.textBy_eq, evaluate_of_plain _ hs]
      rfl
  · intro B σ e tree st
    have hsync : ∀ s, hasOpening s = false → e.leafText s = .done s := fun s hs => by
      rw [Engine.leafText, Engine.textSync, evaluateSync, evaluate_of_plain _ hs]
      rfl
    obtain ⟨marks, hjobs, hall⟩ := spares_root (fun s => e.leafTextAsync_of_plain) tree
    refine ⟨?_, ?_, fun o ho => ?_, fun o' ho' => ?_⟩
    · rw [Engine.walkSyncUntested, walkSync_everyText hsync]
      rfl
    · obtain ⟨hends, hstate, hjournal⟩ := hjobs.run st
      rw [Engine.runWalkAsyncUntested, Value.runAsync, Spares.ofEndings hends hall, hstate,
        hjournal]
      rfl
    · obtain ⟨ps, qs, h, hends, ho'⟩ := (Interspersed.follows marks).schedule ho hjobs
      refine ⟨_, ho', ?_, rfl, rfl⟩
      rw [hends]
      exact Spares.ofEndings h.endings hall
    · obtain ⟨qs, ps, h, hends, ho⟩ := (Interspersed.follows_back marks).schedule ho' hjobs
      refine ⟨_, ho, ?_, rfl, rfl⟩
      rw [hends]
      exact Spares.ofEndings h.endings hall

/-- The mark of an opening without a name fails the test. -/
theorem walks_untested_nameless :
    let s := "a [@ ] \\[@".toList
    hasOpening s = false ∧ matchesOf (.text s) = .ok [] ∧
      pausingEngine.runWalkAsyncUntested (.list [.text s, pausingTree]) 0 =
        pausingEngine.runWalkAsync (.list [.text s, pausingTree]) 0 := by
  intro s
  have hs : hasOpening s = false := by decide +kernel
  obtain ⟨hplain, hwalks⟩ := walks_untested
  exact ⟨hs, (hplain s hs).1, (hwalks pausingEngine _ 0).2.1⟩

end TagTemplate
