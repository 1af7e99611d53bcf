import Mathlib.Data.List.Basic
import TagTemplate.Proofs.Leaves
import TagTemplate.Proofs.Requests

/-!
# Walks

A walk that takes the entries of a tree in order evaluates the texts of the tree one after another,
each from the state that the one before it left (`InTurn`). It ends with the tree in which the texts
are replaced, those that fail left out, and writes to the journal what the evaluations write and
one more event for each that failed (`LeafRun.journal`).

`Walks` says this of the walk's processes. It holds of one entry (`walks_leaf`), is kept by what a
walk is put together with (`Walks.bind`, `Walks.map`, `Walks.keep`), and so by induction holds of
every tree (`walks_kept`).
-/

namespace TagTemplate

variable {B σ α β : Type}

/-! ## Texts in turn -/

/-- A text of a tree that was evaluated : from which state, and its run. -/
structure LeafRun (σ : Type) where
  leaf : Leaf
  before : σ
  run : Run σ Text

namespace LeafRun

/-- The text that takes the place of the old one, unless the evaluation failed. -/
def text? (x : LeafRun σ) : Option Text :=
  x.run.outcome.toOption

/-- The label and the fault of an entry whose evaluation failed. -/
def drop? (x : LeafRun σ) : Option (Text × Fault) :=
  match x.run.outcome with
  | .ok _ => none
  | .error f => some (x.leaf.label, f)

/-- What happened in the evaluation, and that the entry was dropped if it failed. -/
def journal (x : LeafRun σ) : Journal :=
  x.run.journal ++ x.drop?.toList.map fun d => .dropped d.1 d.2

end LeafRun

/-- The entries that were dropped in a run, in order, with the faults they were dropped for. -/
def Journal.drops (j : Journal) : List (Text × Fault) :=
  j.filterMap fun
    | .dropped label fault => some (label, fault)
    | _ => none

/-- The texts are evaluated one after another, from `s` to `t` : each from the state that the one
before it left. -/
inductive InTurn (evaluateText : Text → Process σ Text) : σ → List (LeafRun σ) → σ → Prop
  | nil (s : σ) : InTurn evaluateText s [] s
  | cons (leaf : Leaf) (s : σ) {xs : List (LeafRun σ)} {t : σ}
    (h : InTurn evaluateText ((evaluateText leaf.text).run s).state xs t) :
    InTurn evaluateText s (⟨leaf, s, (evaluateText leaf.text).run s⟩ :: xs) t

theorem InTurn.append {evaluateText : Text → Process σ Text} {s t u : σ} {xs ys : List (LeafRun σ)}
    (h : InTurn evaluateText s xs t) (h' : InTurn evaluateText t ys u) :
    InTurn evaluateText s (xs ++ ys) u := by
  induction h with
  | nil s => exact h'
  | cons leaf s _ ih => exact .cons leaf s (ih h')

/-! ## Processes of a walk -/

namespace Process

theorem run_keep_of_ok {p : Process σ α} {s : σ} {a : α} (h : (p.run s).outcome = .ok a)
    (label : Text) : (p.keep label).run s = ⟨.ok (some a), (p.run s).state, (p.run s).journal⟩ := by
  rw [keep, run_andThen, Run.andThen, h]
  simp [run]

theorem run_keep_of_error {p : Process σ α} {s : σ} {f : Fault} (h : (p.run s).outcome = .error f)
    (hf : f.isOrdinary = true) (label : Text) : (p.keep label).run s =
      ⟨.ok none, (p.run s).state, (p.run s).journal ++ [.dropped label f]⟩ := by
  rw [keep, run_andThen, Run.andThen, h]
  simp [run, hf]

end Process

/-- Run from `s`, the process evaluates the texts `leaves` in turn and ends with what `result` makes
of the texts that come out of that, whatever texts there are after those. -/
def Walks (evaluateText : Text → Process σ Text) (p : Process σ α) (s : σ) (leaves : List Leaf)
    (result : List (Option Text) → α) : Prop :=
  ∃ xs : List (LeafRun σ), xs.map LeafRun.leaf = leaves ∧
    InTurn evaluateText s xs (p.run s).state ∧
    (∀ more, (p.run s).outcome = .ok (result (xs.map LeafRun.text? ++ more))) ∧
    (p.run s).journal = xs.flatMap LeafRun.journal

namespace Walks

variable {evaluateText : Text → Process σ Text} {p : Process σ α} {s : σ} {ls ms : List Leaf}
  {result : List (Option Text) → α}

theorem done (a : α) (s : σ) : Walks evaluateText (.done a) s [] fun _ => a :=
  ⟨[], rfl, .nil s, fun _ => rfl, rfl⟩

theorem bind {next : α → Process σ β} {result' : α → List (Option Text) → β}
    (hp : Walks evaluateText p s ls result)
    (hnext : ∀ a t, Walks evaluateText (next a) t ms (result' a)) :
    Walks evaluateText (p.bind next) s (ls ++ ms) fun texts =>
      result' (result texts) (texts.drop ls.length) := by
  obtain ⟨xs, rfl, hturn, hout, hjournal⟩ := hp
  have hok := hout []
  obtain ⟨ys, rfl, hturn', hout', hjournal'⟩ :=
    hnext (result (xs.map LeafRun.text? ++ [])) (p.run s).state
  refine ⟨xs ++ ys, List.map_append, ?_, fun more => ?_, ?_⟩ <;>
    simp only [Process.run_bind, Run.bind, hok]
  · exact hturn.append hturn'
  · -- What is made of the first texts does not depend on those after them.
    have hsame := Except.ok.inj (hok.symm.trans (hout (ys.map LeafRun.text? ++ more)))
    rw [hout' more, hsame, List.map_append, List.append_assoc, List.drop_left' (by simp)]
  · rw [hjournal, hjournal', List.flatMap_append]

theorem map (hp : Walks evaluateText p s ls result) (f : α → β) :
    Walks evaluateText (p.bind fun a => .done (f a)) s ls fun texts => f (result texts) := by
  simpa using hp.bind fun a => done (f a)

theorem keep (hp : Walks evaluateText p s ls result) (label : Text) :
    Walks evaluateText (p.keep label) s ls fun texts => some (result texts) := by
  obtain ⟨xs, hleaves, hturn, hout, hjournal⟩ := hp
  refine ⟨xs, hleaves, ?_, fun more => ?_, ?_⟩
  · rwa [Process.run_keep_of_ok (hout []) label]
  · rw [Process.run_keep_of_ok (hout more) label]
  · rwa [Process.run_keep_of_ok (hout []) label]

end Walks

/-! ## Trees -/

/-- A way to evaluate texts of which every fault stays inside its entry, and which leaves a text as
it is that has no beginning of an opening. -/
structure Tame (evaluateText : Text → Process σ Text) : Prop where
  plain : ∀ text, hasOpening text = false → evaluateText text = .done text
  contained : ∀ text s, Contained ((evaluateText text).run s).outcome

variable {evaluateText : Text → Process σ Text}

/-- A text that a walk passes over might as well be evaluated. -/
theorem Tame.walkSync_text (h : Tame evaluateText) (text : Text) :
    Value.walkSync hasOpening evaluateText (.text text) = Value.leafProcess evaluateText text := by
  rw [Value.walkSync]
  split
  next => rfl
  next hnone => rw [Value.leafProcess, h.plain text (by simpa using hnone)]; rfl

theorem walks_leaf (h : Tame evaluateText) (label text : Text) (s : σ) :
    Walks evaluateText ((Value.walkSync hasOpening evaluateText (.text text)).keep label) s
      [⟨label, text⟩] (Value.replaced (.text text)) := by
  refine ⟨[⟨⟨label, text⟩, s, (evaluateText text).run s⟩], rfl, ?_⟩
  rw [h.walkSync_text]
  have hrun : (Value.leafProcess evaluateText text).run s = _ := Process.run_bind _ _ s
  cases ho : ((evaluateText text).run s).outcome with
  | ok t =>
    rw [Run.bind, ho] at hrun
    rw [Process.run_keep_of_ok (by rw [hrun]; rfl), hrun]
    exact ⟨.cons _ s (.nil _),
      fun more => by simp [LeafRun.text?, ho, Value.replaced, Except.toOption],
      by simp [LeafRun.journal, LeafRun.drop?, ho, Process.run]⟩
  | error f =>
    rw [Run.bind, ho] at hrun
    rw [Process.run_keep_of_error (by rw [hrun]) (h.contained text s f ho), hrun]
    exact ⟨.cons _ s (.nil _),
      fun more => by simp [LeafRun.text?, ho, Value.replaced, Except.toOption],
      by simp [LeafRun.journal, LeafRun.drop?, ho]⟩

mutual

/-- The walk of an entry, whose key is shown as `label`. -/
theorem walks_kept (h : Tame evaluateText) (label : Text) : ∀ v : Value, v.keysShown = true →
    ∀ s : σ, Walks evaluateText ((Value.walkSync hasOpening evaluateText v).keep label) s
      (v.leaves label) v.replaced
  | .text text, _, s => walks_leaf h label text s
  | .list items, hk, s => ((walks_items h 0 items hk s).map Value.list).keep label
  | .tuple items, hk, s => ((walks_items h 0 items hk s).map Value.tuple).keep label
  | .dict entries, hk, s => ((walks_entries h entries hk s).map Value.dict).keep label
  | .view entries, hk, s => ((walks_entries h entries hk s).map Value.dict).keep label
  | .null, _, s | .bool _, _, s | .int _, _, s | .float _, _, s | .bytes _, _, s
  | .timestamp _ _, _, s | .set _ _, _, s => (Walks.done _ s).keep label

/-- The walk of items from a place on. -/
theorem walks_items (h : Tame evaluateText) (index : Nat) : ∀ items : List Value,
    Value.itemKeysShown items = true → ∀ s : σ,
      Walks evaluateText (Value.walkItemsSync hasOpening evaluateText index items) s
        (Value.itemLeaves index items) (Value.replacedItems items)
  | [], _, s => .done [] s
  | v :: rest, hk, s => by
    obtain ⟨hv, hrest⟩ := Value.itemKeysShown_cons hk
    have hwalks := (walks_kept h (Value.itemLabel index) v hv s).bind fun kept t =>
      (walks_items h (index + 1) rest hrest t).map fun vs => kept.toList ++ vs
    rwa [Value.length_leaves] at hwalks

/-- The walk of a mapping's entries. -/
theorem walks_entries (h : Tame evaluateText) : ∀ entries : List (Value × Value),
    Value.entryKeysShown entries = true → ∀ s : σ,
      Walks evaluateText (Value.walkEntriesSync hasOpening evaluateText entries) s
        (Value.entryLeaves entries) (Value.replacedEntries entries)
  | [], _, s => .done [] s
  | (k, v) :: rest, hk, s => by
    obtain ⟨label, hlabel, hv, hrest⟩ := Value.entryKeysShown_cons hk
    have hwalks := (walks_kept h label v hv s).bind fun kept t =>
      (walks_entries h rest hrest t).map fun es => (kept.map fun w => (k, w)).toList ++ es
    rw [Value.length_leaves] at hwalks
    simp only [Value.walkEntriesSync, Value.entryLeaves, hlabel, Option.getD_some]
    exact hwalks

end

/-- The walk of a whole tree that is a mapping, a list or a tuple. -/
theorem walks_root (h : Tame evaluateText) {tree : Value} (hc : tree.isContainer = true)
    (hk : tree.keysShown = true) (s : σ) :
    ∃ result, (∀ texts, tree.replaced texts = some (result texts)) ∧
      Walks evaluateText (Value.walkSync hasOpening evaluateText tree) s (tree.leaves [])
        result := by
  cases tree with
  | list items => exact ⟨_, fun _ => rfl, (walks_items h 0 items hk s).map Value.list⟩
  | tuple items => exact ⟨_, fun _ => rfl, (walks_items h 0 items hk s).map Value.tuple⟩
  | dict entries => exact ⟨_, fun _ => rfl, (walks_entries h entries hk s).map Value.dict⟩
  | view entries => exact ⟨_, fun _ => rfl, (walks_entries h entries hk s).map Value.dict⟩
  | _ => cases hc

/-! ## Faults of an evaluation -/

namespace Engine

variable {e : Engine B σ}

/-- No registered handler from outside ends with an abort. -/
def RaisesOrdinary (e : Engine B σ) : Prop :=
  ∀ spec ∈ e.registry.specs, ∀ body mode, spec.handler = .custom body mode → ∀ args s,
    Contained ((e.custom body mode args).run s).outcome

/-- The text that the synchronous evaluation of a text ends with. -/
def leafText (e : Engine B σ) (source : Text) : Process σ Text :=
  (e.textSync source).bind fun r => .done r.text

namespace RaisesOrdinary

variable (h : e.RaisesOrdinary)

include h

theorem perform {c : Call B} (hc : c.spec ∈ e.registry.specs) (s : σ) :
    Contained ((e.perform c).run s).outcome := by
  unfold Engine.perform
  split
  next b _ =>
    have hown := e.contained_own b
    cases ho : e.own b with
    | ok v => exact contained_ok v
    | error f => exact contained_error (hown f ho)
  next body mode hb => exact h _ hc body mode hb _ s

theorem answerSync {c : Call B} (hc : c.spec ∈ e.registry.specs) (s : σ) :
    Contained ((c.answerSync e.perform).run s).outcome := by
  cases ha : c.spec.handler.isAwaited with
  | true => rw [Call.run_answerSync_of_isAwaited _ _ _ ha]; exact contained_error rfl
  | false =>
    rw [Call.run_answerSync _ _ _ ha, Call.run_answerAsync, Call.run_bodyProcess]
    have hbody := h.perform hc s
    cases ho : ((e.perform c).run s).outcome with
    | ok v => exact contained_ok v
    | error f => exact contained_error (Fault.isOrdinary_ofHandler _ _ (hbody f ho))

theorem textSync (source : Text) (s : σ) : Contained ((e.textSync source).run s).outcome := by
  refine contained_drive (proper_evaluate _ source) (fun c hname t => ?_) s
  obtain ⟨name, hname⟩ := hname
  exact h.answerSync (Registry.mem_of_find? hname) t

theorem tame : Tame e.leafText where
  plain text hplain := by
    rw [leafText, Engine.textSync, evaluateSync, evaluate_of_plain _ hplain]
    rfl
  contained text s := by
    have htext := h.textSync text s
    rw [leafText, Process.run_bind, Run.bind]
    cases ho : ((e.textSync text).run s).outcome with
    | ok r => exact contained_ok r.text
    | error f => exact contained_error (htext f ho)

end RaisesOrdinary

end Engine

/-! ## The walk of an engine -/

section Journals

variable (xs : List (LeafRun σ))

theorem calls_flatMap_journal :
    Journal.calls (xs.flatMap LeafRun.journal) = xs.flatMap fun x => x.run.journal.calls := by
  rw [Journal.calls, List.filterMap_flatMap]
  refine List.flatMap_congr fun x _ => ?_
  unfold LeafRun.journal
  cases x.drop? <;> simp [Journal.calls]

theorem drops_flatMap_journal :
    Journal.drops (xs.flatMap LeafRun.journal) =
      xs.flatMap fun x => x.run.journal.drops ++ x.drop?.toList := by
  rw [Journal.drops, List.filterMap_flatMap]
  refine List.flatMap_congr fun x _ => ?_
  unfold LeafRun.journal
  cases x.drop? <;> simp [Journal.drops]

theorem drops_of_quiet (h : ∀ x ∈ xs, x.run.journal.drops = []) :
    Journal.drops (xs.flatMap LeafRun.journal) = xs.filterMap LeafRun.drop? := by
  rw [drops_flatMap_journal, List.filterMap_eq_flatMap_toList]
  exact List.flatMap_congr fun x hx => by rw [h x hx, List.nil_append]

end Journals

/-- Without asynchronous handlers, and if handlers fail with ordinary faults only, the walk of an
engine through a mapping, a list or a tuple whose keys can be shown succeeds. The texts of the tree
are evaluated from left to right, each from the state that the one before it left, and the result is
the tree with what comes out in their places, where exactly those are left out that fail. What
happens is what happens in the evaluations, so that handlers are called as these call them, and
after each that failed its entry is noted, under the entry's label and with the fault. If handlers
note nothing of that kind themselves, nothing else of it is noted. -/
theorem walkSync_of_leaves (e : Engine B σ) (hsync : e.registry.hasAsync = false)
    (hraise : e.RaisesOrdinary) (tree : Value) (hc : tree.isContainer = true)
    (hk : tree.keysShown = true) (s : σ) :
    let r := (e.walkSync tree).run s
    ∃ xs : List (LeafRun σ), xs.map LeafRun.leaf = tree.leaves [] ∧
      InTurn e.leafText s xs r.state ∧
      (∃ w, tree.replaced (xs.map LeafRun.text?) = some w ∧ r.outcome = .ok w) ∧
      r.journal = xs.flatMap LeafRun.journal ∧
      r.journal.calls = xs.flatMap (fun x => x.run.journal.calls) ∧
      ((∀ x ∈ xs, x.run.journal.drops = []) → r.journal.drops = xs.filterMap LeafRun.drop?) := by
  intro r
  have hr : r = (Value.walkSync hasOpening e.leafText tree).run s := by
    rw [show r = (e.walkSync tree).run s from rfl, Engine.walkSync, Engine.gated, hsync]
    rfl
  obtain ⟨result, hresult, xs, hleaves, hturn, hout, hjournal⟩ := walks_root hraise.tame hc hk s
  rw [← hr] at hturn hout hjournal
  have hok := hout []
  rw [List.append_nil] at hok
  rw [hjournal]
  exact ⟨xs, hleaves, hturn, ⟨_, hresult _, hok⟩, rfl, calls_flatMap_journal xs,
    drops_of_quiet xs⟩

/-- An engine whose handler `n` counts its calls and whose handler `b` fails. -/
def tallyEngine : Engine Bool Nat where
  registry := ⟨none, [], [⟨['n'], .custom true .direct, false, false, []⟩,
    ⟨['b'], .custom false .direct, false, false, []⟩], false⟩
  settings := {}
  custom body _ _ := if body then .act (· + 1) fun n => .done (.int n) else .fail .bytesNotText

/-- A mapping under keys that are no texts, with texts that fail before and after ones that do
not. -/
def mixedTree : Value :=
  .dict [(.int 7, .list [.ofString "[@n]", .null, .ofString "[@n][@b]", .ofString "[@n]"]),
    (.null, .tuple [.ofString "[@b]"]), (.ofString "k", .view [])]

theorem walkSync_of_leaves_tally : tallyEngine.registry.hasAsync = false ∧
    tallyEngine.RaisesOrdinary ∧ mixedTree.isContainer = true ∧ mixedTree.keysShown = true ∧
      ∃ xs : List (LeafRun Nat), xs.map LeafRun.leaf =
          [⟨"item 0".toList, "[@n]".toList⟩, ⟨"item 2".toList, "[@n][@b]".toList⟩,
            ⟨"item 3".toList, "[@n]".toList⟩, ⟨"item 0".toList, "[@b]".toList⟩] ∧
        InTurn tallyEngine.leafText 5 xs ((tallyEngine.walkSync mixedTree).run 5).state ∧
        ∃ w, mixedTree.replaced (xs.map LeafRun.text?) = some w ∧
          ((tallyEngine.walkSync mixedTree).run 5).outcome = .ok w := by
  have hraise : tallyEngine.RaisesOrdinary := by
    intro spec _ body mode _ args s
    cases body with
    | true => exact contained_ok _
    | false => exact contained_error rfl
  have hk : mixedTree.keysShown = true := by decide +kernel
  obtain ⟨xs, hleaves, hturn, hout, -⟩ :=
    walkSync_of_leaves tallyEngine rfl hraise mixedTree rfl hk 5
  exact ⟨rfl, hraise, rfl, hk, xs, hleaves.trans (by decide +kernel), hturn, hout⟩

end TagTemplate
