import TagTemplate.Proofs.Coercion
import TagTemplate.Proofs.Walk

/-!
# Failures inside a tree

A walk that takes the entries of a tree in order contains the failures it meets : an entry that
fails is left out, and the entries beside it and around it stay. What can fail in an entry is the
evaluation of a text. But a mapping's keys are shown as labels before their entries are entered,
and a key with an integer that is too long for a numeral cannot be shown. Such a key fails the whole
mapping, with the entries beside it, and at the root the walk.

`Value.shownPart` is what is left of a tree without the mappings that fail so. A process of the walk
ends with what becomes of that part (`Isolates`); it evaluates texts one after another, those of
mappings that fail among them, and calls handlers in no other way (`TakesTurns`). That holds of
every walk because it is kept by all that walks are put together with (`KeptByWalks`).
-/

namespace TagTemplate

variable {B σ α β : Type}

/-! ## Parts that can be walked through -/

namespace Value

mutual

/-- The tree without the mappings in it that have a key that cannot be shown; nothing if it is such
a mapping. -/
def shownPart : Value → Option Value
  | .list items => some (.list (shownItems items))
  | .tuple items => some (.tuple (shownItems items))
  | .dict entries =>
    if (keyLabels? entries).isSome then some (.dict (shownEntries entries)) else none
  | .view entries =>
    if (keyLabels? entries).isSome then some (.view (shownEntries entries)) else none
  | v => some v

/-- The items without such mappings. -/
def shownItems : List Value → List Value
  | [] => []
  | v :: rest => (shownPart v).toList ++ shownItems rest

/-- The entries without such mappings. -/
def shownEntries : List (Value × Value) → List (Value × Value)
  | [] => []
  | (k, v) :: rest => ((shownPart v).map fun w => (k, w)).toList ++ shownEntries rest

end

mutual

/-- A tree all of whose keys can be shown is its own part. -/
theorem shownPart_of_keysShown : ∀ v : Value, v.keysShown = true → v.shownPart = some v
  | .list items, h => by rw [shownPart, shownItems_of_keysShown items h]
  | .tuple items, h => by rw [shownPart, shownItems_of_keysShown items h]
  | .dict entries, h => by
    rw [shownPart, shownEntries_of_keysShown entries h, if_pos (isSome_keyLabels? h)]
  | .view entries, h => by
    rw [shownPart, shownEntries_of_keysShown entries h, if_pos (isSome_keyLabels? h)]
  | .null, _ | .bool _, _ | .int _, _ | .float _, _ | .text _, _ | .bytes _, _ | .timestamp _ _, _
  | .set _ _, _ => rfl

theorem shownItems_of_keysShown :
    ∀ items : List Value, itemKeysShown items = true → shownItems items = items
  | [], _ => rfl
  | v :: rest, h => by
    obtain ⟨hv, hrest⟩ := itemKeysShown_cons h
    rw [shownItems, shownPart_of_keysShown v hv, shownItems_of_keysShown rest hrest]
    rfl

theorem shownEntries_of_keysShown : ∀ entries : List (Value × Value),
    entryKeysShown entries = true → shownEntries entries = entries
  | [], _ => rfl
  | (k, v) :: rest, h => by
    obtain ⟨-, -, hv, hrest⟩ := entryKeysShown_cons h
    rw [shownEntries, shownPart_of_keysShown v hv, shownEntries_of_keysShown rest hrest]
    rfl

end

theorem keyLabels?_cons (k v : Value) (rest : List (Value × Value)) :
    (keyLabels? ((k, v) :: rest)).isSome = (k.shown?.isSome && (keyLabels? rest).isSome) := by
  simp only [keyLabels?, List.mapM_cons]
  cases k.shown? <;> cases List.mapM (fun e : Value × Value => e.1.shown?) rest <;> rfl

/-- The texts of a tree, in order. -/
def texts (v : Value) : List Text :=
  (v.leaves []).map Leaf.text

theorem map_text_leaves (label : Text) (v : Value) : (v.leaves label).map Leaf.text = v.texts := by
  cases v <;> rfl

theorem map_text_itemLeaves (index : Nat) (items : List Value) :
    (itemLeaves index items).map Leaf.text = items.flatMap texts := by
  induction items generalizing index with
  | nil => rfl
  | cons v rest ih =>
    rw [itemLeaves, List.map_append, map_text_leaves, ih, List.flatMap_cons]

theorem map_text_entryLeaves (entries : List (Value × Value)) :
    (entryLeaves entries).map Leaf.text = entries.flatMap fun e => e.2.texts := by
  induction entries with
  | nil => rfl
  | cons e rest ih =>
    rw [entryLeaves, List.map_append, map_text_leaves, ih, List.flatMap_cons]

theorem length_texts (v : Value) : v.texts.length = v.leafCount :=
  List.length_map ..

end Value

/-! ## One text after another -/

theorem Process.run_keep_of_abort {p : Process σ α} {s : σ} {f : Fault}
    (h : (p.run s).outcome = .error f) (hf : f.isOrdinary = false) (label : Text) :
    (p.keep label).run s = ⟨.error f, (p.run s).state, (p.run s).journal⟩ := by
  rw [keep, run_andThen, Run.andThen, h]
  simp [hf]

/-- The texts of `xs` are evaluated in turn in a run from `s`. Handlers are called in these
evaluations only, and what fails the run is one of them or a key that cannot be shown. -/
structure Turns (evaluateText : Text → Process σ Text) (s : σ) (xs : List (LeafRun σ))
    (r : Run σ α) : Prop where
  turn : InTurn evaluateText s xs r.state
  calls : r.journal.calls = xs.flatMap fun x => x.run.journal.calls
  faults : ∀ f, r.outcome = .error f → f = .integerTooLong ∨ ∃ x ∈ xs, x.run.outcome = .error f

/-- From whatever state it is run, the process evaluates texts in turn. -/
def TakesTurns (evaluateText : Text → Process σ Text) (p : Process σ α) : Prop :=
  ∀ s, ∃ xs : List (LeafRun σ), Turns evaluateText s xs (p.run s)

namespace TakesTurns

variable {evaluateText : Text → Process σ Text} {p : Process σ α}

theorem done (a : α) : TakesTurns evaluateText (.done a) :=
  fun s => ⟨[], .nil s, rfl, nofun⟩

theorem fail : TakesTurns evaluateText (.fail .integerTooLong : Process σ α) :=
  fun s => ⟨[], .nil s, rfl, fun _ hf => .inl (Except.error.inj hf).symm⟩

theorem text (source : Text) : TakesTurns evaluateText (evaluateText source) :=
  fun s => ⟨[⟨⟨[], source⟩, s, (evaluateText source).run s⟩], .cons _ s (.nil _), by simp,
    fun _ hf => .inr ⟨_, List.mem_singleton_self _, hf⟩⟩

theorem bind {next : α → Process σ β} (hp : TakesTurns evaluateText p)
    (hnext : ∀ a, TakesTurns evaluateText (next a)) : TakesTurns evaluateText (p.bind next) := by
  intro s
  obtain ⟨xs, hturn, hcalls, hfaults⟩ := hp s
  rw [Process.run_bind, Run.bind]
  cases ho : (p.run s).outcome with
  | error f =>
    exact ⟨xs, hturn, hcalls, fun g hg => hfaults g (ho.trans (congrArg _ (Except.error.inj hg)))⟩
  | ok a =>
    obtain ⟨ys, hturn', hcalls', hfaults'⟩ := hnext a (p.run s).state
    refine ⟨xs ++ ys, hturn.append hturn', ?_, fun g hg => ?_⟩
    · rw [List.flatMap_append, ← hcalls, ← hcalls']
      exact List.filterMap_append ..
    · refine (hfaults' g hg).imp_right ?_
      rintro ⟨y, hy, hout⟩
      exact ⟨y, List.mem_append_right _ hy, hout⟩

theorem keep (hp : TakesTurns evaluateText p) (label : Text) :
    TakesTurns evaluateText (p.keep label) := by
  intro s
  obtain ⟨xs, hturn, hcalls, hfaults⟩ := hp s
  cases ho : (p.run s).outcome with
  | ok a =>
    rw [Process.run_keep_of_ok ho label]
    exact ⟨xs, hturn, hcalls, nofun⟩
  | error f =>
    cases hf : f.isOrdinary with
    | true =>
      rw [Process.run_keep_of_error ho hf label]
      refine ⟨xs, hturn, ?_, nofun⟩
      rw [← hcalls]
      simp [Journal.calls]
    | false =>
      rw [Process.run_keep_of_abort ho hf label]
      exact ⟨xs, hturn, hcalls, fun g hg => hfaults g (ho.trans (congrArg _ (Except.error.inj hg)))⟩

end TakesTurns

/-- `Q` is kept by everything that a walk is put together with. -/
structure KeptByWalks (evaluateText : Text → Process σ Text)
    (Q : (α : Type) → Process σ α → Prop) : Prop where
  done : ∀ {α : Type} (a : α), Q α (.done a)
  fail : ∀ {α : Type}, Q α (.fail .integerTooLong)
  text : ∀ source, Q Text (evaluateText source)
  bind : ∀ {α β : Type} {p : Process σ α} {next : α → Process σ β}, Q α p →
    (∀ a, Q β (next a)) → Q β (p.bind next)
  keep : ∀ {α : Type} {p : Process σ α}, Q α p → ∀ label, Q (Option α) (p.keep label)

namespace KeptByWalks

variable {test : Text → Bool} {evaluateText : Text → Process σ Text}
  {Q : (α : Type) → Process σ α → Prop}

theorem leafProcess (hQ : KeptByWalks evaluateText Q) (text : Text) :
    Q Value (Value.leafProcess evaluateText text) :=
  hQ.bind (hQ.text text) fun t => hQ.done (Value.text t)

mutual

/-- So it holds of every walk. -/
theorem walk (hQ : KeptByWalks evaluateText Q) :
    ∀ v : Value, Q Value (v.walkSync test evaluateText)
  | .text text => by
    rw [Value.walkSync]
    split
    · exact hQ.leafProcess text
    · exact hQ.done (Value.text text)
  | .list items => hQ.bind (hQ.walkItems 0 items) fun vs => hQ.done (Value.list vs)
  | .tuple items => hQ.bind (hQ.walkItems 0 items) fun vs => hQ.done (Value.tuple vs)
  | .dict entries => hQ.bind (hQ.walkEntries entries) fun es => hQ.done (Value.dict es)
  | .view entries => hQ.bind (hQ.walkEntries entries) fun es => hQ.done (Value.dict es)
  | .null | .bool _ | .int _ | .float _ | .bytes _ | .timestamp _ _ | .set _ _ => hQ.done _

theorem walkItems (hQ : KeptByWalks evaluateText Q) (index : Nat) :
    ∀ items, Q (List Value) (Value.walkItemsSync test evaluateText index items)
  | [] => hQ.done []
  | v :: rest => hQ.bind (hQ.keep (hQ.walk v) _) fun kept =>
      hQ.bind (hQ.walkItems (index + 1) rest) fun vs => hQ.done (kept.toList ++ vs)

theorem walkEntries (hQ : KeptByWalks evaluateText Q) :
    ∀ entries, Q (List (Value × Value)) (Value.walkEntriesSync test evaluateText entries)
  | [] => hQ.done []
  | (k, v) :: rest => by
    rw [Value.walkEntriesSync]
    cases k.shown? with
    | none => exact hQ.fail
    | some label =>
      exact hQ.bind (hQ.keep (hQ.walk v) label) fun kept =>
        hQ.bind (hQ.walkEntries rest) fun es => hQ.done _

end

end KeptByWalks

/-- Every walk takes turns. -/
theorem takesTurns_walk (evaluateText : Text → Process σ Text) (v : Value) :
    TakesTurns evaluateText (Value.walkSync hasOpening evaluateText v) :=
  KeptByWalks.walk (Q := fun _ p => TakesTurns evaluateText p)
    ⟨.done, .fail, .text, .bind, .keep⟩ v

/-! ## What is left -/

/-- Run from `s`, the process ends with what `result` makes of the texts that `texts` come to,
whatever texts there are after those. They are evaluated in turn, in a run in which other texts may
be evaluated as well. -/
def Isolates (evaluateText : Text → Process σ Text) (p : Process σ α) (s : σ) (texts : List Text)
    (result : List (Option Text) → α) : Prop :=
  ∃ xs ys : List (LeafRun σ), InTurn evaluateText s xs (p.run s).state ∧ ys.Sublist xs ∧
    ys.map (fun y => y.leaf.text) = texts ∧
    ∀ more, (p.run s).outcome = .ok (result (ys.map LeafRun.text? ++ more))

namespace Isolates

variable {evaluateText : Text → Process σ Text} {p : Process σ α} {s : σ} {ts us : List Text}
  {result : List (Option Text) → α}

theorem done (a : α) (s : σ) : Isolates evaluateText (.done a) s [] fun _ => a :=
  ⟨[], [], .nil s, .slnil, rfl, fun _ => rfl⟩

theorem of_walks {leaves : List Leaf} (h : Walks evaluateText p s leaves result) :
    Isolates evaluateText p s (leaves.map Leaf.text) result := by
  obtain ⟨xs, rfl, hturn, hout, -⟩ := h
  exact ⟨xs, xs, hturn, .refl _, (List.map_map ..).symm, hout⟩

theorem bind {next : α → Process σ β} {result' : α → List (Option Text) → β}
    (hp : Isolates evaluateText p s ts result)
    (hnext : ∀ a t, Isolates evaluateText (next a) t us (result' a)) :
    Isolates evaluateText (p.bind next) s (ts ++ us) fun texts =>
      result' (result texts) (texts.drop ts.length) := by
  obtain ⟨xs, ys, hturn, hsub, rfl, hout⟩ := hp
  have hok := hout []
  obtain ⟨xs', ys', hturn', hsub', rfl, hout'⟩ :=
    hnext (result (ys.map LeafRun.text? ++ [])) (p.run s).state
  refine ⟨xs ++ xs', ys ++ ys', ?_, hsub.append hsub', List.map_append, fun more => ?_⟩ <;>
    simp only [Process.run_bind, Run.bind, hok]
  · exact hturn.append hturn'
  · have hsame := Except.ok.inj (hok.symm.trans (hout (ys'.map LeafRun.text? ++ more)))
    rw [hout' more, hsame, List.map_append, List.append_assoc, List.drop_left' (by simp)]

theorem map (hp : Isolates evaluateText p s ts result) (f : α → β) :
    Isolates evaluateText (p.bind fun a => .done (f a)) s ts fun texts => f (result texts) := by
  simpa using hp.bind fun a => done (f a)

theorem keep (hp : Isolates evaluateText p s ts result) (label : Text) :
    Isolates evaluateText (p.keep label) s ts fun texts => some (result texts) := by
  obtain ⟨xs, ys, hturn, hsub, htexts, hout⟩ := hp
  refine ⟨xs, ys, ?_, hsub, htexts, fun more => ?_⟩
  · rwa [Process.run_keep_of_ok (hout []) label]
  · rw [Process.run_keep_of_ok (hout more) label]

/-- A process that fails is dropped, whatever it evaluated. -/
theorem dropped (hp : TakesTurns evaluateText p) {f : Fault}
    (hf : (p.run s).outcome = .error f) (ho : f.isOrdinary = true) (label : Text) :
    Isolates evaluateText (p.keep label) s [] fun _ => none := by
  obtain ⟨xs, hturn, -⟩ := hp s
  rw [Isolates, Process.run_keep_of_error hf ho label]
  exact ⟨xs, [], hturn, List.nil_sublist xs, rfl, fun _ => rfl⟩

end Isolates

namespace Value

/-- The texts of the part of a tree that can be walked through. -/
def shownTexts (v : Value) : List Text :=
  v.shownPart.elim [] texts

/-- What an entry comes to : nothing if it is a mapping that cannot be walked through. -/
def outcome? (v : Value) (texts : List (Option Text)) : Option Value :=
  v.shownPart.bind fun w => w.replaced texts

end Value

/-- Run from `s`, the walk of a tree that nothing is around ends with what becomes of the part that
can be walked through, and fails if there is none. -/
structure IsolatesRoot (evaluateText : Text → Process σ Text) (v : Value) (s : σ) : Prop where
  fails : v.shownPart = none →
    ((Value.walkSync hasOpening evaluateText v).run s).outcome = .error .integerTooLong
  succeeds : ∀ shown, v.shownPart = some shown →
    ∃ result, (∀ texts, shown.replaced texts = some (result texts)) ∧
      Isolates evaluateText (Value.walkSync hasOpening evaluateText v) s shown.texts result

section

variable {evaluateText : Text → Process σ Text} {s : σ}

namespace IsolatesRoot

/-- As an entry, such a tree is left out if there is nothing left of it. -/
theorem keep {v : Value} (h : IsolatesRoot evaluateText v s) (label : Text) :
    Isolates evaluateText ((Value.walkSync hasOpening evaluateText v).keep label) s v.shownTexts
      v.outcome? := by
  unfold Value.shownTexts Value.outcome?
  cases hv : v.shownPart with
  | none => exact .dropped (takesTurns_walk _ v) (h.fails hv) rfl label
  | some shown =>
    obtain ⟨result, hresult, hwalk⟩ := h.succeeds shown hv
    simp only [Option.elim_some, Option.bind_some, hresult]
    exact hwalk.keep label

variable {items : List Value} {entries : List (Value × Value)}

theorem list (h : Isolates evaluateText (Value.walkItemsSync hasOpening evaluateText 0 items) s
      ((Value.shownItems items).flatMap Value.texts)
      (Value.replacedItems (Value.shownItems items))) :
    IsolatesRoot evaluateText (.list items) s where
  fails := nofun
  succeeds := by
    rw [← Value.map_text_itemLeaves 0] at h
    rintro _ ⟨⟩
    exact ⟨_, fun _ => rfl, h.map Value.list⟩

theorem tuple (h : Isolates evaluateText (Value.walkItemsSync hasOpening evaluateText 0 items) s
      ((Value.shownItems items).flatMap Value.texts)
      (Value.replacedItems (Value.shownItems items))) :
    IsolatesRoot evaluateText (.tuple items) s where
  fails := nofun
  succeeds := by
    rw [← Value.map_text_itemLeaves 0] at h
    rintro _ ⟨⟩
    exact ⟨_, fun _ => rfl, h.map Value.tuple⟩

variable (hshown : (Value.keyLabels? entries).isSome = true →
    Isolates evaluateText (Value.walkEntriesSync hasOpening evaluateText entries) s
      ((Value.shownEntries entries).flatMap fun e => e.2.texts)
      (Value.replacedEntries (Value.shownEntries entries)))
  (hfails : ¬(Value.keyLabels? entries).isSome = true →
    ((Value.walkEntriesSync hasOpening evaluateText entries).run s).outcome =
      .error .integerTooLong)

include hshown hfails

theorem dict : IsolatesRoot evaluateText (.dict entries) s where
  fails hnone := by
    have hk : ¬(Value.keyLabels? entries).isSome = true := by simpa [Value.shownPart] using hnone
    rw [Value.walkSync, Process.run_bind, Run.bind, hfails hk]
  succeeds shown hsome := by
    obtain ⟨hk, rfl⟩ : (Value.keyLabels? entries).isSome = true ∧
        .dict (Value.shownEntries entries) = shown := by
      simpa [Value.shownPart] using hsome
    rw [← Value.map_text_entryLeaves] at hshown
    exact ⟨_, fun _ => rfl, (hshown hk).map Value.dict⟩

/-- A view is walked through like the mapping. -/
theorem view : IsolatesRoot evaluateText (.view entries) s where
  fails hnone := (dict hshown hfails).fails (by simpa [Value.shownPart] using hnone)
  succeeds shown hsome := by
    obtain ⟨hk, rfl⟩ : (Value.keyLabels? entries).isSome = true ∧
        .view (Value.shownEntries entries) = shown := by
      simpa [Value.shownPart] using hsome
    exact (dict hshown hfails).succeeds (.dict (Value.shownEntries entries)) (if_pos hk)

end IsolatesRoot

mutual

/-- The walk of an entry, whose key is shown as `label`. -/
theorem isolates_kept (h : Tame evaluateText) (label : Text) : ∀ (v : Value) (s : σ),
    Isolates evaluateText ((Value.walkSync hasOpening evaluateText v).keep label) s v.shownTexts
      v.outcome?
  | .text text, s => by
    have hwalk := Isolates.of_walks (walks_leaf h label text s)
    exact hwalk
  | .list items, s => (IsolatesRoot.list (isolates_items h 0 items s)).keep label
  | .tuple items, s => (IsolatesRoot.tuple (isolates_items h 0 items s)).keep label
  | .dict entries, s => (IsolatesRoot.dict (fun hk => isolates_entries h entries hk s)
      fun hk => fails_entries h entries hk s).keep label
  | .view entries, s => (IsolatesRoot.view (fun hk => isolates_entries h entries hk s)
      fun hk => fails_entries h entries hk s).keep label
  | .null, s | .bool _, s | .int _, s | .float _, s | .bytes _, s | .timestamp _ _, s
  | .set _ _, s => (Isolates.done _ s).keep label

/-- The walk of items from a place on. -/
theorem isolates_items (h : Tame evaluateText) (index : Nat) : ∀ (items : List Value) (s : σ),
    Isolates evaluateText (Value.walkItemsSync hasOpening evaluateText index items) s
      ((Value.shownItems items).flatMap Value.texts)
      (Value.replacedItems (Value.shownItems items))
  | [], s => .done [] s
  | v :: rest, s => by
    have hwalks := (isolates_kept h (Value.itemLabel index) v s).bind fun kept t =>
      (isolates_items h (index + 1) rest t).map fun vs => kept.toList ++ vs
    rw [Value.shownItems]
    unfold Value.shownTexts Value.outcome? at hwalks
    cases hv : v.shownPart with
    | none => rw [hv] at hwalks; exact hwalks
    | some w => rw [hv, Option.elim_some, Value.length_texts] at hwalks; exact hwalks

/-- The walk of a mapping's entries, if all of its keys can be shown. -/
theorem isolates_entries (h : Tame evaluateText) : ∀ entries : List (Value × Value),
    (Value.keyLabels? entries).isSome = true → ∀ s : σ,
      Isolates evaluateText (Value.walkEntriesSync hasOpening evaluateText entries) s
        ((Value.shownEntries entries).flatMap fun e => e.2.texts)
        (Value.replacedEntries (Value.shownEntries entries))
  | [], _, s => .done [] s
  | (k, v) :: rest, hk, s => by
    rw [Value.keyLabels?_cons, Bool.and_eq_true] at hk
    obtain ⟨label, hlabel⟩ := Option.isSome_iff_exists.mp hk.1
    have hwalks := (isolates_kept h label v s).bind fun kept t =>
      (isolates_entries h rest hk.2 t).map fun es => (kept.map fun w => (k, w)).toList ++ es
    rw [Value.walkEntriesSync, Value.shownEntries, hlabel]
    unfold Value.shownTexts Value.outcome? at hwalks
    cases hv : v.shownPart with
    | none => rw [hv] at hwalks; exact hwalks
    | some w => rw [hv, Option.elim_some, Value.length_texts] at hwalks; exact hwalks

/-- The walk of a mapping's entries, if one of its keys cannot be shown. -/
theorem fails_entries (h : Tame evaluateText) : ∀ entries : List (Value × Value),
    ¬(Value.keyLabels? entries).isSome = true → ∀ s : σ,
      ((Value.walkEntriesSync hasOpening evaluateText entries).run s).outcome =
        .error .integerTooLong
  | [], hk, s => absurd rfl hk
  | (k, v) :: rest, hk, s => by
    rw [Value.keyLabels?_cons, Bool.and_eq_true, not_and] at hk
    rw [Value.walkEntriesSync]
    cases hlabel : k.shown? with
    | none => rfl
    | some label =>
      -- What stands before the key was walked through, and is lost with it.
      obtain ⟨xs, ys, -, -, -, hkept⟩ := isolates_kept h label v s
      have hrest := fails_entries h rest (hk (by rw [hlabel]; rfl))
      simp only [Process.run_bind, Run.bind, hkept [], hrest]

end

/-- The walk of a mapping, a list or a tuple. -/
theorem isolates_root (h : Tame evaluateText) {tree : Value} (hc : tree.isContainer = true)
    (s : σ) : IsolatesRoot evaluateText tree s := by
  cases tree with
  | list items => exact .list (isolates_items h 0 items s)
  | tuple items => exact .tuple (isolates_items h 0 items s)
  | dict entries =>
    exact .dict (fun hk => isolates_entries h entries hk s) fun hk => fails_entries h entries hk s
  | view entries =>
    exact .view (fun hk => isolates_entries h entries hk s) fun hk => fails_entries h entries hk s
  | _ => cases hc

end

/-! ## The walk of an engine -/

namespace Value

theorem isSome_keyLabels?_iff (entries : List (Value × Value)) :
    (keyLabels? entries).isSome = true ↔ ∀ e ∈ entries, e.1.shown?.isSome = true := by
  induction entries with
  | nil => simp [keyLabels?]
  | cons e rest ih => rw [keyLabels?_cons, Bool.and_eq_true, ih, List.forall_mem_cons]

/-- Whether the tree is a mapping with a key that cannot be shown. -/
def HasUnshownKey (v : Value) : Prop :=
  ∃ entries, (v = .dict entries ∨ v = .view entries) ∧ ∃ e ∈ entries, e.1.shown? = none

/-- Nothing is left only of such mappings. -/
theorem shownPart_eq_none_iff (v : Value) : v.shownPart = none ↔ v.HasUnshownKey := by
  have hkeys (entries) :
      ¬(keyLabels? entries).isSome = true ↔ ∃ e ∈ entries, e.1.shown? = none := by
    simp [isSome_keyLabels?_iff]
  cases v <;> simp [shownPart, HasUnshownKey, ← hkeys]

end Value

/-- A walk fails for a key that cannot be shown at the root, or for a text that is the whole tree,
and for nothing inside. -/
theorem walkSync_eq_error_iff {evaluateText : Text → Process σ Text} (h : Tame evaluateText)
    (tree : Value) (s : σ) (f : Fault) :
    ((Value.walkSync hasOpening evaluateText tree).run s).outcome = .error f ↔
      (tree.HasUnshownKey ∧ f = .integerTooLong) ∨
        ∃ text, tree = .text text ∧ ((evaluateText text).run s).outcome = .error f := by
  cases hc : tree.isContainer with
  | true =>
    have hroot := isolates_root h hc s
    have htext : ∀ text, tree ≠ .text text := by
      rintro text rfl
      cases hc
    rw [← Value.shownPart_eq_none_iff]
    cases hv : tree.shownPart with
    | none => simp [hroot.fails hv, htext, eq_comm]
    | some shown =>
      obtain ⟨result, -, xs, ys, -, -, -, hout⟩ := hroot.succeeds shown hv
      simp [hout [], htext]
  | false =>
    have hkey : ¬tree.HasUnshownKey := by
      rintro ⟨entries, rfl | rfl, -⟩ <;> cases hc
    cases tree with
    | text text =>
      rw [h.walkSync_text, Value.leafProcess, Process.run_bind, Run.bind]
      cases ho : ((evaluateText text).run s).outcome <;> simp [hkey, Process.run, ho]
    | list items => cases hc
    | tuple items => cases hc
    | dict entries => cases hc
    | view entries => cases hc
    | _ => simp [hkey, Value.walkSync]

/-- Without asynchronous handlers, and if handlers fail with ordinary faults only, the walk of an
engine fails in two cases : if the tree is a text whose evaluation fails, and if it is a mapping
with a key that holds an integer too long for a numeral. Otherwise the walk of a mapping, a list or
a tuple succeeds. The mappings in the tree that have such a key are left out as a whole, and in what
remains each text is evaluated, from left to right, and exactly those are left out that fail. If
every key can be shown, what remains is the whole tree. -/
theorem walkSync_of_shownPart (e : Engine B σ) (hsync : e.registry.hasAsync = false)
    (hraise : e.RaisesOrdinary) (tree : Value) (s : σ) :
    let r := (e.walkSync tree).run s
    (∀ f, r.outcome = .error f ↔ (tree.HasUnshownKey ∧ f = .integerTooLong) ∨
      ∃ text, tree = .text text ∧ ((e.leafText text).run s).outcome = .error f) ∧
    (∀ shown, tree.isContainer = true → tree.shownPart = some shown →
      ∃ xs ys : List (LeafRun σ), InTurn e.leafText s xs r.state ∧ ys.Sublist xs ∧
        ys.map (fun y => y.leaf.text) = shown.texts ∧
          ∃ w, shown.replaced (ys.map LeafRun.text?) = some w ∧ r.outcome = .ok w) ∧
    (tree.keysShown = true → tree.shownPart = some tree) := by
  intro r
  have hr : r = (Value.walkSync hasOpening e.leafText tree).run s := by
    rw [show r = (e.walkSync tree).run s from rfl, Engine.walkSync, Engine.gated, hsync]
    rfl
  rw [hr]
  refine ⟨walkSync_eq_error_iff hraise.tame tree s, fun shown hc hv => ?_,
    Value.shownPart_of_keysShown tree⟩
  obtain ⟨result, hresult, xs, ys, hturn, hsub, htexts, hout⟩ :=
    (isolates_root hraise.tame hc s).succeeds shown hv
  have hok := hout []
  rw [List.append_nil] at hok
  exact ⟨xs, ys, hturn, hsub, htexts, _, hresult _, hok⟩

theorem raisesOrdinary_tallyEngine : tallyEngine.RaisesOrdinary := by
  intro spec _ body mode _ args s
  cases body with
  | true => exact contained_ok _
  | false => exact contained_error rfl

/-- The least integer that no numeral shows. -/
def overlongKey : Value :=
  .int (Int.ofNat (Nat.pow 10 digitLimit))

theorem shown?_overlongKey : overlongKey.shown? = none :=
  shown?_leastOverlong

/-- A mapping with such a key and another one. -/
def overlongTree : Value :=
  .dict [(overlongKey, .null), (.ofString "c", .ofString "beside")]

theorem shownPart_overlongTree : overlongTree.shownPart = none :=
  (Value.shownPart_eq_none_iff _).mpr
    ⟨_, .inl rfl, _, List.mem_cons_self .., shown?_overlongKey⟩

/-- A list of such a mapping and of a text whose evaluation calls a handler. -/
def overlongItems : Value :=
  .list [overlongTree, .ofString "[@n]"]

theorem shownPart_overlongItems :
    overlongItems.shownPart = some (.list [.ofString "[@n]"]) := by
  simp only [overlongItems, Value.shownPart, Value.shownItems, shownPart_overlongTree]
  rfl

theorem walkSync_of_shownPart_overlong : tallyEngine.registry.hasAsync = false ∧
    tallyEngine.RaisesOrdinary ∧ overlongItems.isContainer = true ∧
      overlongItems.shownPart = some (.list [.ofString "[@n]"]) ∧
      ∃ xs ys : List (LeafRun Nat),
        InTurn tallyEngine.leafText 5 xs ((tallyEngine.walkSync overlongItems).run 5).state ∧
          ys.Sublist xs ∧ ys.map (fun y => y.leaf.text) = ["[@n]".toList] ∧
            ∃ w, (Value.list [.ofString "[@n]"]).replaced (ys.map LeafRun.text?) = some w ∧
              ((tallyEngine.walkSync overlongItems).run 5).outcome = .ok w := by
  obtain ⟨-, hroot, -⟩ :=
    walkSync_of_shownPart tallyEngine rfl raisesOrdinary_tallyEngine overlongItems 5
  exact ⟨rfl, raisesOrdinary_tallyEngine, rfl, shownPart_overlongItems,
    hroot _ rfl shownPart_overlongItems⟩

/-- A key that cannot be shown fails the walk at the root, and takes the entry beside it along
elsewhere. -/
theorem walkSync_overlongTree : tallyEngine.registry.hasAsync = false ∧
    tallyEngine.RaisesOrdinary ∧ overlongTree.isContainer = true ∧
      ((tallyEngine.walkSync overlongTree).run 0).outcome = .error .integerTooLong ∧
      ((tallyEngine.walkSync (.list [overlongTree, .ofString "after"])).run 0).outcome =
        .ok (.list [.ofString "after"]) := by
  have hlost : ((overlongTree.walkSync hasOpening tallyEngine.leafText).run 0).outcome =
      .error .integerTooLong :=
    IsolatesRoot.fails (isolates_root raisesOrdinary_tallyEngine.tame rfl 0) shownPart_overlongTree
  refine ⟨rfl, raisesOrdinary_tallyEngine, rfl, hlost, ?_⟩
  have hplain : Value.walkSync hasOpening tallyEngine.leafText (.ofString "after") =
      .done (.ofString "after") := by
    rw [Value.ofString, Value.walkSync, if_neg (by decide)]
  change (((Value.list [overlongTree, .ofString "after"]).walkSync hasOpening
    tallyEngine.leafText).run 0).outcome = _
  simp only [Value.walkSync, Value.walkItemsSync, Process.run_bind, Run.bind, hplain,
    Process.run_keep_of_error hlost rfl]
  rfl

end TagTemplate
