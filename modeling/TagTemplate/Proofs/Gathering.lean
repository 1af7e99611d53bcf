import TagTemplate.Proofs.Schedules
import TagTemplate.Tree

/-!
# Walks that gather

The asynchronous walk is one crew of all the texts of a tree. Here it is a recursion again : a
container starts the walks of its entries and gathers what they give (`Entry.gathering`), an entry
is looked at when its walk begins and not before (`Entry.walk`), and each container waits for its
own entries. One step begins one entry, or is a step of one process, anywhere in the tree
(`Entry.Step`); a process that waits is refused only if nothing can begin and no process can move. A
container fails only with a fault that passes the boundary of an entry, which no ordinary one does,
and with the first such fault in the order of its entries.

The walk that gathers ends with what the crew can end with, and with nothing else (`gathers_iff`).
The beginning of an entry is no step of the crew (`Entry.jobs_of_begins`), and there is an end to
beginning (`Entry.pending_lt_of_begins`); every other step is a step of the same process in the crew
(`Entry.changed_of_runs`, `Entry.runs_of_changed`). What is gathered container by container is what
is put back into the tree at once (`Entry.filledBy_result`).
-/

namespace TagTemplate

variable {σ : Type}

namespace Changed

variable {α : Type} {R : α → α → Prop} {as bs cs : List α}

theorem exists_of_mem {a b : α} (ha : a ∈ as) (h : R a b) : ∃ bs, Changed R as bs := by
  induction as with
  | nil => cases ha
  | cons c as ih =>
    rcases List.mem_cons.mp ha with rfl | ha
    · exact ⟨_, .head h as⟩
    · obtain ⟨bs, hbs⟩ := ih ha
      exact ⟨_, .tail c hbs⟩

theorem append_left (as : List α) (h : Changed R bs cs) : Changed R (as ++ bs) (as ++ cs) := by
  induction as with
  | nil => exact h
  | cons a as ih => exact .tail a ih

theorem append_right (h : Changed R as bs) (cs : List α) : Changed R (as ++ cs) (bs ++ cs) := by
  induction h with
  | head h as => exact .head h (as ++ cs)
  | tail a _ ih => exact .tail a ih

/-- What changes in two lists changes in one of them. -/
theorem of_append (h : Changed R (as ++ bs) cs) :
    (∃ as', Changed R as as' ∧ cs = as' ++ bs) ∨ ∃ bs', Changed R bs bs' ∧ cs = as ++ bs' := by
  induction as generalizing cs with
  | nil => exact .inr ⟨cs, h, rfl⟩
  | cons a as ih =>
    cases h with
    | head h _ => exact .inl ⟨_, .head h as, rfl⟩
    | tail _ h =>
      rcases ih h with ⟨as', has, rfl⟩ | ⟨bs', hbs, rfl⟩
      · exact .inl ⟨a :: as', .tail a has, rfl⟩
      · exact .inr ⟨bs', hbs, rfl⟩

end Changed

/-! ## Entries under way -/

/-- The walk of an entry. -/
inductive Entry (σ : Type) where
  /-- It has not begun. -/
  | unbegun (label : Text) (v : Value)
  /-- It has left the entry as it is. -/
  | kept (v : Value)
  /-- It is a process. -/
  | running (p : Process σ (Option Value))
  /-- It waits for the entries of a container. -/
  | gathering (container : Value) (entries : List (Entry σ))

/-- The container with what the walks of its entries gave in their places. What they dropped is left
out. -/
def Value.gathered (container : Value) (found : List (Option Value)) : Value :=
  match container with
  | .list _ => .list (found.flatMap Option.toList)
  | .tuple _ => .tuple (found.flatMap Option.toList)
  | .dict entries | .view entries =>
    .dict ((entries.zip found).flatMap fun (e, r) => (r.map fun w => (e.1, w)).toList)
  | v => v

namespace Entry

/-- The walks of items from a place on. -/
def ofItems (index : Nat) : List Value → List (Entry σ)
  | [] => []
  | v :: rest => .unbegun (Value.itemLabel index) v :: ofItems (index + 1) rest

/-- The walks of a mapping's entries. -/
def ofMapping : List (Value × Value) → List (Entry σ)
  | [] => []
  | (k, v) :: rest => .unbegun (k.shown?.getD []) v :: ofMapping rest

/-- The walk of a mapping within a boundary, when it begins. It fails if a key cannot be shown. -/
def walkMapping (boundary : Process σ Value → Process σ (Option Value)) (container : Value)
    (entries : List (Value × Value)) : Entry σ :=
  if (Value.keyLabels? entries).isSome then .gathering container (ofMapping entries)
  else .running (boundary (.fail .integerTooLong))

section

variable (test : Text → Bool) (evaluateText : Text → Process σ Text)

/-- The walk of a value within a boundary, when it begins. -/
def walk (boundary : Process σ Value → Process σ (Option Value)) : Value → Entry σ
  | .text s =>
    if test s then .running (boundary (Value.leafProcess evaluateText s)) else .kept (.text s)
  | .list items => .gathering (.list items) (ofItems 0 items)
  | .tuple items => .gathering (.tuple items) (ofItems 0 items)
  | .dict entries => walkMapping boundary (.dict entries) entries
  | .view entries => walkMapping boundary (.view entries) entries
  | v => .kept v

/-- The walk of the root, which has no boundary. -/
def ofRoot (tree : Value) : Entry σ :=
  walk test evaluateText (fun p => p.bind fun v => .done (some v)) tree

end

mutual

/-- What the walk of an entry gives, nothing if it is dropped. -/
def result : Entry σ → Except Fault (Option Value)
  | .unbegun _ _ => .error .neverSignalled
  | .kept v => .ok (some v)
  | .running p => p.ending
  | .gathering container entries =>
    (results entries).map fun found => some (container.gathered found)

/-- What the walks of entries give. -/
def results : List (Entry σ) → Except Fault (List (Option Value))
  | [] => .ok []
  | x :: xs => x.result.bind fun r => (results xs).map (r :: ·)

end

/-- Somewhere in the walk one entry becomes another that `R` relates it to. -/
inductive Changes (R : Entry σ → Entry σ → Prop) : Entry σ → Entry σ → Prop
  | here {x y : Entry σ} (h : R x y) : Changes R x y
  | inside (container : Value) (before : List (Entry σ)) {x y : Entry σ} (h : Changes R x y)
    (after : List (Entry σ)) :
    Changes R (.gathering container (before ++ x :: after))
      (.gathering container (before ++ y :: after))

/-- The walk of an entry begins. -/
inductive Begins (test : Text → Bool) (evaluateText : Text → Process σ Text) :
    Entry σ → Entry σ → Prop
  | intro (label : Text) (v : Value) : Begins test evaluateText (.unbegun label v)
    (walk test evaluateText (Process.keep label) v)

/-- The process of an entry becomes another that `R` relates it to. -/
inductive Runs (R : Process σ (Option Value) → Process σ (Option Value) → Prop) :
    Entry σ → Entry σ → Prop
  | intro {p q : Process σ (Option Value)} (h : R p q) : Runs R (.running p) (.running q)

section

variable (test : Text → Bool) (evaluateText : Text → Process σ Text)

/-- No entry can begin and no process can move. -/
def IsStuck (x : Entry σ) (s : σ) : Prop :=
  (∀ y, ¬Changes (Begins test evaluateText) x y) ∧
    ∀ y t j, ¬Changes (Runs fun p q => p.move? s = some (q, t, j)) x y

/-- One step of a walk : an entry begins, or a process that can move does, and only if there is
neither, one that waits is refused. -/
inductive Step : Entry σ → σ → Entry σ → σ → Journal → Prop
  | start {x y : Entry σ} {s : σ} (h : Changes (Begins test evaluateText) x y) : Step x s y s []
  | move {x y : Entry σ} {s t : σ} {j : Journal}
    (h : Changes (Runs fun p q => p.move? s = some (q, t, j)) x y) : Step x s y t j
  | refuse {x y : Entry σ} {s : σ} (hstuck : x.IsStuck test evaluateText s)
    (h : Changes (Runs fun p q => p.refuse? = some q) x y) : Step x s y s []

/-- What a walk ends with when steps are made in some order until none is left. -/
inductive Schedule : Entry σ → σ → Run σ Value → Prop
  | ended {x : Entry σ} {s : σ} (hstuck : x.IsStuck test evaluateText s)
    (hnone : ∀ y, ¬Changes (Runs fun p q => p.refuse? = some q) x y) :
    Schedule x s ⟨x.result.map (·.getD .null), s, []⟩
  | step {x y : Entry σ} {s t : σ} {j : Journal} {r : Run σ Value}
    (h : Step test evaluateText x s y t j) (rest : Schedule y t r) :
    Schedule x s { r with journal := j ++ r.journal }

end

/-! ## The crew of a walk -/

section

variable (test : Text → Bool) (evaluateText : Text → Process σ Text)

mutual

/-- The processes of a walk, in the order of the texts : those that run, and those of the entries
that have not begun. -/
def jobs : Entry σ → List (Process σ (Option Value))
  | .unbegun label v => v.entryJobs test evaluateText label
  | .kept _ => []
  | .running p => [p]
  | .gathering _ entries => jobsAll entries

/-- The processes of walks. -/
def jobsAll : List (Entry σ) → List (Process σ (Option Value))
  | [] => []
  | x :: xs => x.jobs ++ jobsAll xs

end

mutual

/-- What the walk of an entry gives if its processes give these results, and the results left
over. -/
def fill : Entry σ → List (Option Value) → Option Value × List (Option Value)
  | .unbegun _ v, given => v.fill test given
  | .kept v, given => (some v, given)
  | .running _, given => (given.headD none, given.tail)
  | .gathering container entries, given =>
    let (found, given) := fillAll entries given
    (some (container.gathered found), given)

/-- What walks give. -/
def fillAll : List (Entry σ) → List (Option Value) → List (Option Value) × List (Option Value)
  | [], given => ([], given)
  | x :: xs, given =>
    let (r, given) := x.fill given
    let (found, given) := fillAll xs given
    (r :: found, given)

end

end

mutual

/-- How much of the tree has not begun. -/
noncomputable def pending : Entry σ → Nat
  | .unbegun _ v => sizeOf v
  | .kept _ => 0
  | .running _ => 0
  | .gathering _ entries => pendingAll entries

/-- How much of the trees has not begun. -/
noncomputable def pendingAll : List (Entry σ) → Nat
  | [] => 0
  | x :: xs => x.pending + pendingAll xs

end

section Jobs

variable {test : Text → Bool} {evaluateText : Text → Process σ Text}

theorem jobsAll_cons (x : Entry σ) (xs : List (Entry σ)) :
    jobsAll test evaluateText (x :: xs) =
      x.jobs test evaluateText ++ jobsAll test evaluateText xs :=
  rfl

theorem jobsAll_append (xs ys : List (Entry σ)) : jobsAll test evaluateText (xs ++ ys) =
    jobsAll test evaluateText xs ++ jobsAll test evaluateText ys := by
  induction xs with
  | nil => rfl
  | cons x xs ih => rw [List.cons_append, jobsAll_cons, jobsAll_cons, ih, List.append_assoc]

theorem jobsAll_ofItems (index : Nat) (items : List Value) :
    jobsAll test evaluateText (ofItems index items) =
      Value.itemJobs test evaluateText index items := by
  induction items generalizing index with
  | nil => rfl
  | cons v rest ih => exact congrArg (_ ++ ·) (ih (index + 1))

theorem jobsAll_ofMapping (entries : List (Value × Value)) :
    jobsAll test evaluateText (ofMapping entries) =
      Value.mappingJobs test evaluateText entries := by
  induction entries with
  | nil => rfl
  | cons e rest ih => exact congrArg (_ ++ ·) ih

theorem jobs_walkMapping (boundary : Process σ Value → Process σ (Option Value))
    (container : Value) (entries : List (Value × Value)) :
    (walkMapping boundary container entries).jobs test evaluateText =
      if (Value.keyLabels? entries).isSome then Value.mappingJobs test evaluateText entries
      else [boundary (.fail .integerTooLong)] := by
  rw [walkMapping]
  split
  · exact jobsAll_ofMapping entries
  · rfl

/-- An entry has the same processes before and after its walk begins. -/
theorem jobs_walk_keep (label : Text) (v : Value) :
    (walk test evaluateText (Process.keep label) v).jobs test evaluateText =
      v.entryJobs test evaluateText label := by
  cases v with
  | text s => cases h : test s <;> simp [walk, Value.entryJobs, h] <;> rfl
  | list items => exact jobsAll_ofItems 0 items
  | tuple items => exact jobsAll_ofItems 0 items
  | dict entries => exact jobs_walkMapping _ _ entries
  | view entries => exact jobs_walkMapping _ _ entries
  | _ => rfl

theorem jobs_ofRoot (tree : Value) : (ofRoot test evaluateText tree).jobs test evaluateText =
    tree.rootJobs test evaluateText := by
  cases tree with
  | text s => cases h : test s <;> simp [ofRoot, walk, Value.rootJobs, h] <;> rfl
  | list items => exact jobsAll_ofItems 0 items
  | tuple items => exact jobsAll_ofItems 0 items
  | dict entries =>
    rw [ofRoot, walk, jobs_walkMapping]
    rfl
  | view entries =>
    rw [ofRoot, walk, jobs_walkMapping]
    rfl
  | _ => rfl

end Jobs

section Fill

variable {test : Text → Bool} {evaluateText : Text → Process σ Text}

theorem fillAll_cons (x : Entry σ) (xs : List (Entry σ)) (given : List (Option Value)) :
    fillAll test (x :: xs) given =
      ((x.fill test given).1 :: (fillAll test xs (x.fill test given).2).1,
        (fillAll test xs (x.fill test given).2).2) :=
  rfl

/-- Items that have not begun are filled as the items of a tree. -/
theorem fillAll_ofItems (index : Nat) (items : List Value) (given : List (Option Value)) :
    Value.fillItems test items given =
      ((fillAll test (ofItems (σ := σ) index items) given).1.flatMap Option.toList,
        (fillAll test (ofItems (σ := σ) index items) given).2) := by
  induction items generalizing index given with
  | nil => rfl
  | cons v rest ih =>
    rw [ofItems, fillAll_cons, Value.fillItems]
    simp only [ih (index + 1), List.flatMap_cons]
    rfl

theorem fillAll_ofMapping (entries : List (Value × Value)) (given : List (Option Value)) :
    Value.fillEntries test entries given =
      ((entries.zip (fillAll test (ofMapping (σ := σ) entries) given).1).flatMap
          fun (e, r) => (r.map fun w => (e.1, w)).toList,
        (fillAll test (ofMapping (σ := σ) entries) given).2) := by
  induction entries generalizing given with
  | nil => rfl
  | cons e rest ih =>
    rw [ofMapping, fillAll_cons, Value.fillEntries]
    simp only [ih, List.zip_cons_cons, List.flatMap_cons]
    rfl

theorem fill_walkMapping (boundary : Process σ Value → Process σ (Option Value))
    {container : Value} (entries : List (Value × Value)) (given : List (Option Value))
    (h : ∀ found, container.gathered found =
      .dict ((entries.zip found).flatMap fun (e, r) => (r.map fun w => (e.1, w)).toList)) :
    (walkMapping boundary container entries).fill test given =
      if (Value.keyLabels? entries).isSome then
        (some (.dict (Value.fillEntries test entries given).1),
          (Value.fillEntries test entries given).2)
      else (given.headD none, given.tail) := by
  rw [walkMapping]
  split
  · rw [fillAll_ofMapping (σ := σ), ← h]
    rfl
  · rfl

/-- An entry is filled alike before and after its walk begins. -/
theorem fill_walk (boundary : Process σ Value → Process σ (Option Value)) (v : Value) :
    (walk test evaluateText boundary v).fill test = v.fill test := by
  funext given
  cases v with
  | text s =>
    rw [walk, Value.fill]
    split <;> rfl
  | list items =>
    rw [Value.fill, fillAll_ofItems (σ := σ) 0]
    rfl
  | tuple items =>
    rw [Value.fill, fillAll_ofItems (σ := σ) 0]
    rfl
  | dict entries => exact fill_walkMapping boundary entries given fun _ => rfl
  | view entries => exact fill_walkMapping boundary entries given fun _ => rfl
  | _ => rfl

end Fill

/-! ## What a change of an entry changes -/

section Changes

variable {test : Text → Bool} {evaluateText : Text → Process σ Text} {x y : Entry σ}

theorem jobs_of_begins (h : Changes (Begins test evaluateText) x y) :
    y.jobs test evaluateText = x.jobs test evaluateText := by
  induction h with
  | here h =>
    cases h with
    | intro label v => exact jobs_walk_keep label v
  | inside container before _ after ih =>
    change jobsAll _ _ _ = jobsAll _ _ _
    rw [jobsAll_append, jobsAll_append, jobsAll_cons, jobsAll_cons, ih]

theorem fill_of_changes {R : Entry σ → Entry σ → Prop}
    (hR : ∀ x y, R x y → y.fill test = x.fill test) (h : Changes R x y) :
    y.fill test = x.fill test := by
  induction h with
  | here h => exact hR _ _ h
  | @inside container before x y _ after ih =>
    have hall : fillAll test (before ++ y :: after) = fillAll test (before ++ x :: after) := by
      induction before with
      | nil =>
        funext given
        rw [List.nil_append, List.nil_append, fillAll_cons, fillAll_cons, ih]
      | cons z before ihall =>
        funext given
        rw [List.cons_append, List.cons_append, fillAll_cons, fillAll_cons, ihall]
    funext given
    exact congrArg (fun r => (some (container.gathered r.1), r.2)) (congrFun hall given)

theorem fill_of_begins (h : Changes (Begins test evaluateText) x y) :
    y.fill test = x.fill test :=
  fill_of_changes (fun _ _ h => by cases h with | intro label v => exact fill_walk _ v) h

theorem fill_of_runs {R : Process σ (Option Value) → Process σ (Option Value) → Prop}
    (h : Changes (Runs R) x y) : y.fill test = x.fill test :=
  fill_of_changes (fun _ _ h => by cases h; rfl) h

/-! ### What has not begun -/

theorem pendingAll_append (xs ys : List (Entry σ)) :
    pendingAll (xs ++ ys) = pendingAll xs + pendingAll ys := by
  induction xs with
  | nil => exact (Nat.zero_add _).symm
  | cons x xs ih =>
    change x.pending + pendingAll (xs ++ ys) = x.pending + pendingAll xs + pendingAll ys
    rw [ih, Nat.add_assoc]

theorem pendingAll_ofItems_lt (index : Nat) (items : List Value) :
    pendingAll (ofItems index items : List (Entry σ)) < sizeOf items := by
  induction items generalizing index with
  | nil => simp [ofItems, pendingAll]
  | cons v rest ih =>
    have hrest := ih (index + 1)
    simp only [ofItems, pendingAll, pending, List.cons.sizeOf_spec]
    omega

theorem pendingAll_ofMapping_lt (entries : List (Value × Value)) :
    pendingAll (ofMapping (σ := σ) entries) < sizeOf entries := by
  induction entries with
  | nil => simp [ofMapping, pendingAll]
  | cons e rest ih =>
    obtain ⟨k, v⟩ := e
    simp only [ofMapping, pendingAll, pending, List.cons.sizeOf_spec, Prod.mk.sizeOf_spec]
    omega

theorem sizeOf_value_pos (v : Value) : 0 < sizeOf v := by
  cases v <;> simp +arith

theorem pending_walkMapping_lt (boundary : Process σ Value → Process σ (Option Value))
    (container : Value) (entries : List (Value × Value)) :
    (walkMapping boundary container entries).pending < 1 + sizeOf entries := by
  rw [walkMapping]
  split
  · exact Nat.lt_add_left 1 (pendingAll_ofMapping_lt entries)
  · rw [pending]
    omega

theorem pending_walk_lt (boundary : Process σ Value → Process σ (Option Value)) (v : Value) :
    (walk test evaluateText boundary v).pending < sizeOf v := by
  cases v with
  | text s =>
    rw [walk]
    split <;> exact sizeOf_value_pos _
  | list items =>
    rw [walk, pending, Value.list.sizeOf_spec]
    exact Nat.lt_add_left 1 (pendingAll_ofItems_lt 0 items)
  | tuple items =>
    rw [walk, pending, Value.tuple.sizeOf_spec]
    exact Nat.lt_add_left 1 (pendingAll_ofItems_lt 0 items)
  | dict entries =>
    rw [Value.dict.sizeOf_spec]
    exact pending_walkMapping_lt _ _ entries
  | view entries =>
    rw [Value.view.sizeOf_spec]
    exact pending_walkMapping_lt _ _ entries
  | _ => exact sizeOf_value_pos _

/-- There is an end to beginning. -/
theorem pending_lt_of_begins (h : Changes (Begins test evaluateText) x y) :
    y.pending < x.pending := by
  induction h with
  | here h =>
    cases h with
    | intro label v => exact pending_walk_lt _ v
  | inside container before _ after ih =>
    change pendingAll _ < pendingAll _
    rw [pendingAll_append, pendingAll_append]
    exact Nat.add_lt_add_left (Nat.add_lt_add_right ih _) _

mutual

/-- What has not begun can begin. -/
theorem exists_begins (test : Text → Bool) (evaluateText : Text → Process σ Text) :
    ∀ x : Entry σ, x.pending ≠ 0 → ∃ y, Changes (Begins test evaluateText) x y
  | .unbegun label v, _ => ⟨_, .here (.intro label v)⟩
  | .kept _, h => absurd rfl h
  | .running _, h => absurd rfl h
  | .gathering container entries, h => by
    obtain ⟨before, x, y, after, rfl, hxy⟩ := exists_begins_all test evaluateText entries h
    exact ⟨_, .inside container before hxy after⟩

theorem exists_begins_all (test : Text → Bool) (evaluateText : Text → Process σ Text) :
    ∀ xs : List (Entry σ), pendingAll xs ≠ 0 → ∃ before x y after, xs = before ++ x :: after ∧
      Changes (Begins test evaluateText) x y
  | [], h => absurd rfl h
  | x :: xs, h => by
    by_cases hx : x.pending = 0
    · have hxs : pendingAll xs ≠ 0 := fun hxs => h (by rw [pendingAll, hx, hxs])
      obtain ⟨before, z, y, after, rfl, hzy⟩ := exists_begins_all test evaluateText xs hxs
      exact ⟨x :: before, z, y, after, rfl, hzy⟩
    · obtain ⟨y, hxy⟩ := exists_begins test evaluateText x hx
      exact ⟨[], x, y, xs, rfl, hxy⟩

end

end Changes

/-! ## Steps of processes -/

section Runs

variable {test : Text → Bool} {evaluateText : Text → Process σ Text} {x y : Entry σ}
  {R : Process σ (Option Value) → Process σ (Option Value) → Prop}

/-- A step of a process of a walk is a step of the same process of its crew. -/
theorem changed_of_runs (h : Changes (Runs R) x y) :
    Changed R (x.jobs test evaluateText) (y.jobs test evaluateText) := by
  induction h with
  | here h =>
    cases h with
    | intro h => exact .head h []
  | inside container before _ after ih =>
    change Changed R (jobsAll _ _ _) (jobsAll _ _ _)
    rw [jobsAll_append, jobsAll_append]
    exact (ih.append_right _).append_left _

mutual

/-- Once every entry has begun, a step of the crew is a step of the walk. -/
theorem runs_of_changed : ∀ (x : Entry σ) {qs : List (Process σ (Option Value))}, x.pending = 0 →
    Changed R (x.jobs test evaluateText) qs →
      ∃ y, Changes (Runs R) x y ∧ y.jobs test evaluateText = qs
  | .unbegun _ v, _, h, _ => absurd h (sizeOf_value_pos v).ne'
  | .kept _, _, _, hq => by cases hq
  | .running p, _, _, hq => by
    cases hq with
    | head h _ => exact ⟨_, .here (.intro h), rfl⟩
    | tail _ h => cases h
  | .gathering container entries, _, h, hq => by
    obtain ⟨before, x, y, after, rfl, hxy, rfl⟩ := runs_of_changed_all entries h hq
    exact ⟨_, .inside container before hxy after, rfl⟩

theorem runs_of_changed_all : ∀ (xs : List (Entry σ)) {qs : List (Process σ (Option Value))},
    pendingAll xs = 0 → Changed R (jobsAll test evaluateText xs) qs → ∃ before x y after,
      xs = before ++ x :: after ∧ Changes (Runs R) x y ∧
        jobsAll test evaluateText (before ++ y :: after) = qs
  | [], _, _, hq => by cases hq
  | x :: xs, _, h, hq => by
    obtain ⟨hx, hxs⟩ := Nat.add_eq_zero_iff.mp h
    rcases hq.of_append with ⟨ps, hps, rfl⟩ | ⟨ps, hps, rfl⟩
    · obtain ⟨y, hxy, rfl⟩ := runs_of_changed x hx hps
      exact ⟨[], x, y, xs, rfl, hxy, rfl⟩
    · obtain ⟨before, z, y, after, rfl, hzy, rfl⟩ := runs_of_changed_all xs hxs hps
      exact ⟨x :: before, z, y, after, rfl, hzy, rfl⟩

end

theorem forall_not_runs_iff (h : x.pending = 0) : (∀ y, ¬Changes (Runs R) x y) ↔
    ∀ p ∈ x.jobs test evaluateText, ∀ q, ¬R p q := by
  constructor
  · intro hnone p hp q hpq
    obtain ⟨qs, hqs⟩ := Changed.exists_of_mem hp hpq
    obtain ⟨y, hxy, -⟩ := runs_of_changed x h hqs
    exact hnone y hxy
  · intro hnone y hxy
    have hchanged : Changed R (x.jobs test evaluateText) (y.jobs test evaluateText) :=
      changed_of_runs hxy
    obtain ⟨p, hp, q, hpq⟩ := hchanged.exists_rel
    exact hnone p hp q hpq

/-- A walk is stuck if every entry has begun and its crew is stuck. -/
theorem isStuck_iff {s : σ} : x.IsStuck test evaluateText s ↔
    x.pending = 0 ∧ ∀ p ∈ x.jobs test evaluateText, p.move? s = none := by
  have hmoves (h : x.pending = 0) :
      (∀ y t j, ¬Changes (Runs fun p q => p.move? s = some (q, t, j)) x y) ↔
        ∀ p ∈ x.jobs test evaluateText, p.move? s = none := by
    constructor
    · intro hstuck p hp
      refine Option.eq_none_iff_forall_ne_some.mpr fun ⟨q, t, j⟩ hq => ?_
      exact (forall_not_runs_iff h).mp (fun y => hstuck y t j) p hp q hq
    · intro hstuck y t j
      exact (forall_not_runs_iff h).mpr (fun p hp q hq => by rw [hstuck p hp] at hq; cases hq) y
  constructor
  · rintro ⟨hbegun, hstuck⟩
    have h : x.pending = 0 := by
      by_contra h
      obtain ⟨y, hy⟩ := exists_begins test evaluateText x h
      exact hbegun y hy
    exact ⟨h, (hmoves h).mp hstuck⟩
  · rintro ⟨h, hstuck⟩
    exact ⟨fun y hy => by have := pending_lt_of_begins hy; omega, (hmoves h).mpr hstuck⟩

theorem forall_not_refuses_iff (h : x.pending = 0) :
    (∀ y, ¬Changes (Runs fun p q => p.refuse? = some q) x y) ↔
      ∀ p ∈ x.jobs test evaluateText, p.refuse? = none :=
  (forall_not_runs_iff h).trans (forall₂_congr fun _ _ => Option.eq_none_iff_forall_ne_some.symm)

end Runs

/-! ## What is gathered -/

/-- What is filled in where processes have ended so : the first of their faults if there is one,
else what their results give, and the results behind those are left over. -/
inductive FilledBy {β : Type} (fill : List (Option Value) → β × List (Option Value))
    (endings : List (Except Fault (Option Value))) : Except Fault β → Prop
  | ok {given : List (Option Value)} {b : β} (hends : endings.mapM id = .ok given)
    (hfill : ∀ more, fill (given ++ more) = (b, more)) : FilledBy fill endings (.ok b)
  | error {f : Fault} (hends : endings.mapM id = .error f) : FilledBy fill endings (.error f)

section Filled

variable {test : Text → Bool} {evaluateText : Text → Process σ Text}

theorem FilledBy.cons {x : Entry σ} {xs : List (Entry σ)}
    {endings endings' : List (Except Fault (Option Value))} {o : Except Fault (Option Value)}
    {o' : Except Fault (List (Option Value))} (h : FilledBy (x.fill test) endings o)
    (h' : FilledBy (fillAll test xs) endings' o') :
    FilledBy (fillAll test (x :: xs)) (endings ++ endings')
      (o.bind fun r => o'.map (r :: ·)) := by
  cases h with
  | error hends => exact .error (by rw [List.mapM_append, hends]; rfl)
  | ok hends hfill =>
    cases h' with
    | error hends' => exact .error (by rw [List.mapM_append, hends, hends']; rfl)
    | ok hends' hfill' =>
      refine .ok (by rw [List.mapM_append, hends, hends']; rfl) fun more => ?_
      rw [List.append_assoc, fillAll_cons, hfill, hfill']

mutual

/-- What a walk gathers container by container is what is filled in at once. -/
theorem filledBy_result : ∀ x : Entry σ, x.pending = 0 →
    FilledBy (x.fill test) ((x.jobs test evaluateText).map Process.ending) x.result
  | .unbegun _ v, h => absurd h (sizeOf_value_pos v).ne'
  | .kept v, _ => .ok rfl fun _ => rfl
  | .running p, _ => by
    change FilledBy _ [p.ending] p.ending
    cases p.ending with
    | ok r => exact .ok rfl fun _ => rfl
    | error f => exact .error rfl
  | .gathering container entries, h => by
    have hall := filledBy_results entries h
    change FilledBy (fun given => (some (container.gathered (fillAll test entries given).1),
      (fillAll test entries given).2)) ((jobsAll test evaluateText entries).map Process.ending)
      ((results entries).map fun found => some (container.gathered found))
    generalize results entries = o at hall
    cases hall with
    | ok hends hfill => exact .ok hends fun more => by rw [hfill]
    | error hends => exact .error hends

theorem filledBy_results : ∀ xs : List (Entry σ), pendingAll xs = 0 →
    FilledBy (fillAll test xs) ((jobsAll test evaluateText xs).map Process.ending) (results xs)
  | [], _ => .ok rfl fun _ => rfl
  | x :: xs, h => by
    obtain ⟨hx, hxs⟩ := Nat.add_eq_zero_iff.mp h
    rw [jobsAll_cons, List.map_append]
    exact (filledBy_result x hx).cons (filledBy_results xs hxs)

end

theorem ofEndings_eq_result {x : Entry σ} (h : x.pending = 0) {tree : Value}
    (hx : x.fill test = tree.fill test) :
    tree.ofEndings test ((x.jobs test evaluateText).map Process.ending) =
      x.result.map (·.getD .null) := by
  have hfilled : FilledBy (x.fill test) ((x.jobs test evaluateText).map Process.ending) x.result :=
    filledBy_result x h
  rw [Value.ofEndings, ← hx]
  generalize x.result = o at hfilled
  cases hfilled with
  | @ok given r hends hfill =>
    have hnow := hfill []
    rw [List.append_nil] at hnow
    simp only [hends, bind, Except.bind, hnow]
    rfl
  | error hends => rw [hends]; rfl

end Filled

/-! ## Walks and crews -/

section Schedules

variable {test : Text → Bool} {evaluateText : Text → Process σ Text} {x y : Entry σ} {s t : σ}
  {tree : Value}

/-- What a walk can end with, its crew can. -/
theorem crew_of_schedule {r : Run σ Value} (h : Schedule test evaluateText x s r)
    (hx : x.fill test = tree.fill test) : ∃ o, Crew.Schedule (x.jobs test evaluateText) s o ∧
      r = ⟨tree.ofEndings test o.endings, o.state, o.journal⟩ := by
  induction h with
  | ended hstuck hnone =>
    obtain ⟨hbegun, hmoves⟩ := isStuck_iff.mp hstuck
    refine ⟨_, .ended hmoves ((forall_not_refuses_iff hbegun).mp hnone), ?_⟩
    rw [ofEndings_eq_result hbegun hx]
  | step h _ ih =>
    cases h with
    | start h =>
      obtain ⟨o, ho, rfl⟩ := ih ((fill_of_begins h).trans hx)
      exact ⟨o, jobs_of_begins h ▸ ho, rfl⟩
    | move h =>
      obtain ⟨o, ho, rfl⟩ := ih ((fill_of_runs h).trans hx)
      exact ⟨_, .step (.move (Crew.moves_iff.mpr (changed_of_runs h))) ho, rfl⟩
    | refuse hstuck h =>
      obtain ⟨o, ho, rfl⟩ := ih ((fill_of_runs h).trans hx)
      exact ⟨_, .step (.refuse (isStuck_iff.mp hstuck).2
        (Crew.refuses_iff.mpr (changed_of_runs h))) ho, rfl⟩

/-- A walk can first begin everywhere. -/
theorem schedule_of_begun {r : Run σ Value} (h : ∀ y : Entry σ, y.pending = 0 →
      y.jobs test evaluateText = x.jobs test evaluateText → y.fill test = x.fill test →
        Schedule test evaluateText y s r) : Schedule test evaluateText x s r := by
  induction hn : x.pending using Nat.strong_induction_on generalizing x with
  | _ n ih =>
    by_cases hx : x.pending = 0
    · exact h x hx rfl rfl
    · obtain ⟨y, hy⟩ := exists_begins test evaluateText x hx
      have hrest : Schedule test evaluateText y s r :=
        ih _ (hn ▸ pending_lt_of_begins hy) (fun z hz hjobs hfill => h z hz
          (hjobs.trans (jobs_of_begins hy)) (hfill.trans (fill_of_begins hy))) rfl
      exact .step (.start hy) hrest

/-- What the crew of a walk can end with, the walk can. -/
theorem schedule_of_crew {ps : List (Process σ (Option Value))}
    {o : Crew.Outcome σ (Option Value)} (ho : Crew.Schedule ps s o)
    (hps : x.jobs test evaluateText = ps) (hx : x.fill test = tree.fill test) :
    Schedule test evaluateText x s ⟨tree.ofEndings test o.endings, o.state, o.journal⟩ := by
  induction ho generalizing x with
  | @ended ps s hstuck hnone =>
    refine schedule_of_begun fun y hy hjobs hfill => ?_
    obtain rfl := hjobs.trans hps
    rw [ofEndings_eq_result hy (hfill.trans hx)]
    exact .ended (isStuck_iff.mpr ⟨hy, hstuck⟩) ((forall_not_refuses_iff hy).mpr hnone)
  | step h _ ih =>
    refine schedule_of_begun fun y hy hjobs hfill => ?_
    obtain rfl := hjobs.trans hps
    cases h with
    | move h =>
      obtain ⟨z, hz, hzs⟩ := runs_of_changed y hy (Crew.moves_iff.mp h)
      exact .step (.move hz) (ih hzs ((fill_of_runs hz).trans (hfill.trans hx)))
    | refuse hstuck h =>
      obtain ⟨z, hz, hzs⟩ := runs_of_changed y hy (Crew.refuses_iff.mp h)
      exact .step (.refuse (isStuck_iff.mpr ⟨hy, hstuck⟩) hz)
        (ih hzs ((fill_of_runs hz).trans (hfill.trans hx)))

/-- A step of a walk is a step of its crew, or leaves that as it is and less has not begun. -/
theorem Step.lower {j : Journal} (h : Step test evaluateText x s y t j) :
    Crew.Lower (y.jobs test evaluateText) (x.jobs test evaluateText) ∨
      y.jobs test evaluateText = x.jobs test evaluateText ∧ y.pending < x.pending := by
  cases h with
  | start h => exact .inr ⟨jobs_of_begins h, pending_lt_of_begins h⟩
  | move h => exact .inl (Crew.moves_iff.mpr (changed_of_runs h)).lower
  | refuse _ h => exact .inl (Crew.refuses_iff.mpr (changed_of_runs h)).lower

end Schedules

end Entry

/-! ## The walk of a tree -/

section Trees

variable (test : Text → Bool) (evaluateText : Text → Process σ Text)

/-- No walk that gathers goes on for ever. -/
theorem wellFounded_gathering : WellFounded fun y x : Entry σ =>
    ∃ s t j, x.Step test evaluateText s y t j := by
  refine Subrelation.wf ?_ (InvImage.wf (fun x => (x.jobs test evaluateText, x.pending))
    (Prod.lex ⟨_, Crew.wellFounded_lower⟩ Nat.lt_wfRel).wf)
  rintro y x ⟨s, t, j, h⟩
  rcases h.lower with hlower | ⟨hjobs, hpending⟩
  · exact .left _ _ hlower
  · change Prod.Lex _ _ (y.jobs test evaluateText, y.pending) (x.jobs test evaluateText, x.pending)
    rw [hjobs]
    exact .right _ hpending

/-- The walk that gathers, in some order of its steps, ends with what the crew of the tree can end
with, put back in the tree, and with nothing else. -/
theorem gathers_iff (tree : Value) (s : σ) (r : Run σ Value) :
    Entry.Schedule test evaluateText (Entry.ofRoot test evaluateText tree) s r ↔
      ∃ o, Crew.Schedule (tree.rootJobs test evaluateText) s o ∧
        r = ⟨tree.ofEndings test o.endings, o.state, o.journal⟩ := by
  have hfill : (Entry.ofRoot test evaluateText tree).fill test = tree.fill test :=
    Entry.fill_walk _ tree
  have hjobs : (Entry.ofRoot test evaluateText tree).jobs test evaluateText =
      tree.rootJobs test evaluateText := Entry.jobs_ofRoot tree
  constructor
  · intro h
    obtain ⟨o, ho, hr⟩ := Entry.crew_of_schedule h hfill
    exact ⟨o, hjobs ▸ ho, hr⟩
  · rintro ⟨o, ho, rfl⟩
    exact Entry.schedule_of_crew ho hjobs hfill

/-- The run of the asynchronous walk is one that gathers. -/
theorem gathers_runAsync (tree : Value) (s : σ) : Entry.Schedule test evaluateText
    (Entry.ofRoot test evaluateText tree) s (tree.runAsync test evaluateText s) :=
  (gathers_iff test evaluateText tree s _).mpr ⟨_, Crew.schedule_run _ s, rfl⟩

end Trees

end TagTemplate
