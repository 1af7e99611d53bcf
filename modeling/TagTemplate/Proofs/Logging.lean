import Mathlib
import TagTemplate.Proofs.Gate
import TagTemplate.Proofs.Schedules

/-!
# Logging

A run writes all that happens to its journal, and `Verbosity.log` makes a log of it afterwards.
Here a line is shown at the moment when it is told. `Process.logging` is a process that looks at the
verbosity for every event, and keeps a log next to the state that it works on. It goes through the
same steps as the process itself, alone (`Process.run_logging`) and in a crew (`Crew.run_logging`),
up to wherever a fault ends them, and the log it leaves is that of the journal.

So the runs at two verbosities differ in their logs only. How these differ depends on the levels of
the notes (`Process.TellsAt`), and the engine's own are all of level 3. The log at one verbosity is
an excerpt of the log at another that shows every note (`excerpt_log`).
-/

namespace TagTemplate

variable {B R σ α β : Type}

/-! ## Lines of a log -/

/-- The call that an event is, if it is one. -/
def Event.call? : Event → Option CallRecord
  | .called c => some c
  | _ => none

/-- The event is no note, or one whose level has `P`. -/
def Event.HasLevel (P : Nat → Prop) : Event → Prop
  | .note n => P n.level
  | _ => True

theorem Event.HasLevel.imp {P Q : Nat → Prop} {e : Event} (h : e.HasLevel P)
    (hPQ : ∀ n, P n → Q n) : e.HasLevel Q := by
  cases e with
  | note n => exact hPQ _ h
  | _ => trivial

/-- Whether a line is an error. -/
def LogLine.isError : LogLine → Bool
  | .note _ => false
  | .dropped _ _ => true

namespace Verbosity

variable {v w : Verbosity} {j : Journal}

/-- Whether a line is shown. -/
def admits (v : Verbosity) : LogLine → Bool
  | .note n => v.shows n.level
  | .dropped _ _ => true

theorem admits_of_debug (h : v.debug = true) (line : LogLine) : v.admits line = true := by
  cases line <;> simp [admits, shows, h]

theorem shows_of_le {m n : Nat} (h : v.shows n = true) (hmn : m ≤ n) : v.shows m = true := by
  obtain ⟨connected, debug⟩ := v
  cases connected with
  | none => exact h
  | some k =>
    simp only [shows, Option.any_some, Bool.or_eq_true, decide_eq_true_eq] at h ⊢
    exact h.imp_right fun hk => (Int.ofNat_le.mpr hmn).trans hk

/-- The log at one verbosity is an excerpt of the log at another that shows every note. -/
theorem log_eq_filter (h : ∀ e ∈ j, e.HasLevel fun n => w.shows n = true) :
    v.log j = (w.log j).filter v.admits := by
  rw [log, log, List.filter_filterMap]
  refine List.filterMap_congr fun e he => ?_
  cases e with
  | note n =>
    have hn : w.shows n.level = true := h _ he
    cases hv : v.shows n.level <;> simp [line?, hn, hv, admits, Option.filter]
  | _ => rfl

/-- At a verbosity that shows no note, only errors are left. -/
theorem log_eq_errors (h : ∀ e ∈ j, e.HasLevel fun n => v.shows n = false) :
    v.log j = (w.log j).filter LogLine.isError := by
  rw [log, log, List.filter_filterMap]
  refine List.filterMap_congr fun e he => ?_
  cases e with
  | note n =>
    have hn : v.shows n.level = false := h _ he
    cases hw : w.shows n.level <;> simp [line?, hn, hw, LogLine.isError, Option.filter]
  | _ => rfl

end Verbosity

/-- How a log at verbosity `v` comes of the log of all that happened. In the case of `own`, all of
it is of the level of the engine's notes. -/
structure Excerpt (v : Verbosity) (own : Prop) (log whole : List LogLine) : Prop where
  /-- It has the errors and the notes that `v` shows, in order. -/
  lines : log = whole.filter v.admits
  /-- With the debug switch, nothing is left out. -/
  full : v.debug = true → log = whole
  /-- If `v` does not show the level of the engine's notes, only the errors are left. -/
  errors : own → v.shows 3 = false → log = whole.filter LogLine.isError

theorem excerpt_log {j : Journal} {own : Prop} (h : ∀ e ∈ j, e.HasLevel (· ≤ 3))
    (hown : own → ∀ e ∈ j, e.HasLevel (· = 3)) (v : Verbosity) {w : Verbosity}
    (hw : w.shows 3 = true) : Excerpt v own (v.log j) (w.log j) := by
  have hlines : v.log j = (w.log j).filter v.admits :=
    Verbosity.log_eq_filter fun e he => (h e he).imp fun n => Verbosity.shows_of_le hw
  refine ⟨hlines, fun hdebug => ?_, fun ho hv => ?_⟩
  · rw [hlines, List.filter_eq_self.mpr fun line _ => Verbosity.admits_of_debug hdebug line]
  · exact Verbosity.log_eq_errors fun e he => (hown ho e he).imp fun n hn => hn ▸ hv

/-- What is seen of a run : the calls that were made, and the lines that were shown. -/
structure Shown where
  calls : List CallRecord := []
  log : List LogLine := []

namespace Shown

/-- One event more, of which the verbosity decides whether it is shown. -/
def add (v : Verbosity) (t : Shown) (e : Event) : Shown :=
  ⟨t.calls ++ e.call?.toList, t.log ++ (v.line? e).toList⟩

/-- The events of a journal, one after another. -/
def tell (v : Verbosity) (t : Shown) (j : Journal) : Shown :=
  j.foldl (add v) t

@[simp] theorem tell_nil (v : Verbosity) (t : Shown) : t.tell v [] = t :=
  rfl

@[simp] theorem tell_cons (v : Verbosity) (t : Shown) (e : Event) (j : Journal) :
    t.tell v (e :: j) = (t.add v e).tell v j :=
  rfl

theorem tell_append (v : Verbosity) (t : Shown) (i j : Journal) :
    t.tell v (i ++ j) = (t.tell v i).tell v j :=
  List.foldl_append

theorem tell_eq (v : Verbosity) (t : Shown) (j : Journal) :
    t.tell v j = ⟨t.calls ++ j.filterMap Event.call?, t.log ++ v.log j⟩ := by
  induction j generalizing t with
  | nil => simp [Verbosity.log]
  | cons e j ih =>
    rw [tell_cons, ih, add, Verbosity.log, Verbosity.log, List.filterMap_cons, List.filterMap_cons]
    cases e.call? <;> cases v.line? e <;> simp

end Shown

/-! ## Processes that keep a log -/

namespace Process

/-- The process that keeps what is seen of it next to the state, and writes no journal. -/
def logging (v : Verbosity) : Process σ α → Process (σ × Shown) α
  | done a => done a
  | fail f => fail f
  | emit e p => act (fun s => (s.1, s.2.add v e)) fun _ => p.logging v
  | act change p => act (fun s => (change s.1, s.2)) fun s => (p s.1).logging v
  | pause p => pause (p.logging v)
  | await ready p q => await (fun s => ready s.1) (p.logging v) (q.logging v)

/-- It ends as the process does and leaves the same state. What is seen is the journal. -/
theorem run_logging (v : Verbosity) (p : Process σ α) (s : σ) (t : Shown) :
    (p.logging v).run (s, t) =
      ⟨(p.run s).outcome, ((p.run s).state, t.tell v (p.run s).journal), []⟩ := by
  induction p generalizing s t with
  | done a => rfl
  | fail f => rfl
  | emit e p ih => exact ih s (t.add v e)
  | act change p ih => exact ih s (change s) t
  | pause p ih => exact ih s t
  | await ready p q ihp ihq =>
    simp only [logging, run]
    split
    next => exact ihp s t
    next => exact ihq s t

/-- It makes the steps of the process. -/
theorem move?_logging (v : Verbosity) (p : Process σ α) (s : σ) (t : Shown) :
    (p.logging v).move? (s, t) =
      (p.move? s).map fun (q, s', j) => (q.logging v, (s', t.tell v j), []) := by
  cases p with
  | await ready p q =>
    simp only [logging, move?]
    split <;> rfl
  | _ => rfl

theorem refuse?_logging (v : Verbosity) (p : Process σ α) :
    (p.logging v).refuse? = p.refuse?.map (logging v) := by
  cases p <;> rfl

theorem ending_logging (v : Verbosity) (p : Process σ α) : (p.logging v).ending = p.ending := by
  cases p <;> rfl

end Process

namespace Crew

theorem move?_logging (v : Verbosity) (s : σ) (t : Shown) :
    ∀ ps : List (Process σ α), move? (ps.map (Process.logging v)) (s, t) =
      (move? ps s).map fun (qs, s', j) => (qs.map (Process.logging v), (s', t.tell v j), [])
  | [] => rfl
  | p :: ps => by
    rw [List.map_cons, move?, move?, p.move?_logging]
    cases p.move? s with
    | some x => rfl
    | none =>
      simp only [Option.map_none, move?_logging v s t ps]
      cases move? ps s <;> rfl

theorem refuse?_logging (v : Verbosity) : ∀ ps : List (Process σ α),
    refuse? (ps.map (Process.logging v)) = (refuse? ps).map (List.map (Process.logging v))
  | [] => rfl
  | p :: ps => by
    rw [List.map_cons, refuse?, refuse?, p.refuse?_logging]
    cases p.refuse? with
    | some x => rfl
    | none =>
      simp only [Option.map_none, refuse?_logging v ps]
      cases refuse? ps <;> rfl

theorem step?_logging (v : Verbosity) (ps : List (Process σ α)) (s : σ) (t : Shown) :
    step? (ps.map (Process.logging v)) (s, t) =
      (step? ps s).map fun (qs, s', j) => (qs.map (Process.logging v), (s', t.tell v j), []) := by
  rw [step?, step?, move?_logging, refuse?_logging]
  cases move? ps s <;> cases refuse? ps <;> rfl

theorem run_logging (v : Verbosity) (ps : List (Process σ α)) (s : σ) (t : Shown) :
    run (ps.map (Process.logging v)) (s, t) =
      ⟨(run ps s).endings, ((run ps s).state, t.tell v (run ps s).journal), []⟩ := by
  induction ps, s using run.induct generalizing t with
  | case1 ps s h =>
    have hlog := step?_logging v ps s t
    rw [h] at hlog
    rw [run, run, h, hlog]
    simp [Process.ending_logging]
  | case2 ps s qs s' j h ih =>
    have hlog := step?_logging v ps s t
    rw [h] at hlog
    rw [run, run, h, hlog]
    simp only [Option.map_some, ih, Shown.tell_append, List.nil_append]

end Crew

/-! ## The levels of notes -/

/-- Whatever states it meets and whether or not its waits are granted, the process writes only notes
whose level has `P`. -/
inductive Process.TellsAt (P : Nat → Prop) : Process σ α → Prop
  | done (a : α) : TellsAt P (.done a)
  | fail (f : Fault) : TellsAt P (.fail f)
  | emit {e : Event} (he : e.HasLevel P) {p : Process σ α} (h : TellsAt P p) : TellsAt P (.emit e p)
  | act (change : σ → σ) {p : σ → Process σ α} (h : ∀ s, TellsAt P (p s)) :
    TellsAt P (.act change p)
  | pause {p : Process σ α} (h : TellsAt P p) : TellsAt P (.pause p)
  | await (ready : σ → Bool) {p q : Process σ α} (hp : TellsAt P p) (hq : TellsAt P q) :
    TellsAt P (.await ready p q)

namespace Process.TellsAt

variable {P : Nat → Prop} {p q : Process σ α} {s t : σ} {j : Journal}

theorem ofExcept (o : Except Fault α) : (Process.ofExcept o : Process σ α).TellsAt P := by
  cases o with
  | ok a => exact .done a
  | error f => exact .fail f

theorem andThen (h : p.TellsAt P) {next : Except Fault α → Process σ β}
    (hnext : ∀ o, (next o).TellsAt P) : (p.andThen next).TellsAt P := by
  induction h with
  | done a => exact hnext _
  | fail f => exact hnext _
  | emit he _ ih => exact .emit he ih
  | act change _ ih => exact .act _ ih
  | pause _ ih => exact .pause ih
  | await ready _ _ ihp ihq => exact .await ready ihp ihq

theorem bind (h : p.TellsAt P) {next : α → Process σ β} (hnext : ∀ a, (next a).TellsAt P) :
    (p.bind next).TellsAt P :=
  h.andThen fun
    | .ok a => hnext a
    | .error f => .fail f

theorem mapFault (h : p.TellsAt P) (change : Fault → Fault) : (p.mapFault change).TellsAt P :=
  h.andThen fun
    | .ok a => .done a
    | .error f => .fail (change f)

theorem keep (h : p.TellsAt P) (label : Text) : (p.keep label).TellsAt P := by
  refine h.andThen fun o => ?_
  cases o with
  | ok a => exact .done _
  | error f =>
    cases hf : f.isOrdinary with
    | true =>
      have hdropped : (Event.dropped label f).HasLevel P := trivial
      simp only [hf, if_true]
      exact .emit hdropped (.done _)
    | false =>
      simp only [hf]
      exact .fail f

theorem run (h : p.TellsAt P) (s : σ) : ∀ e ∈ (p.run s).journal, e.HasLevel P := by
  induction h generalizing s with
  | done a => simp [Process.run]
  | fail f => simp [Process.run]
  | emit he _ ih => exact List.forall_mem_cons.mpr ⟨he, ih s⟩
  | act change _ ih => exact ih s (change s)
  | pause _ ih => exact ih s
  | await ready _ _ ihp ihq =>
    rw [Process.run]
    split
    next => exact ihp s
    next => exact ihq s

theorem of_move? (h : p.TellsAt P) (hm : p.move? s = some (q, t, j)) :
    q.TellsAt P ∧ ∀ e ∈ j, e.HasLevel P := by
  cases h with
  | done => cases hm
  | fail => cases hm
  | emit he h => cases hm; exact ⟨h, List.forall_mem_singleton.mpr he⟩
  | act change h => cases hm; exact ⟨h s, by simp⟩
  | pause h => cases hm; exact ⟨h, by simp⟩
  | await ready hp _ =>
    obtain ⟨-, rfl, rfl, rfl⟩ := move?_await_eq_some hm
    exact ⟨hp, by simp⟩

theorem of_refuse? (h : p.TellsAt P) (hr : p.refuse? = some q) : q.TellsAt P := by
  cases h with
  | await ready _ hq => cases hr; exact hq
  | _ => cases hr

end Process.TellsAt

namespace Crew

variable {P : Nat → Prop} {ps qs : List (Process σ α)} {s t : σ} {j : Journal}

theorem Moves.of_tellsAt (h : Moves ps s qs t j) (hps : ∀ p ∈ ps, p.TellsAt P) :
    (∀ q ∈ qs, q.TellsAt P) ∧ ∀ e ∈ j, e.HasLevel P := by
  induction h with
  | head hm ps =>
    obtain ⟨hp, hps⟩ := List.forall_mem_cons.mp hps
    obtain ⟨hq, hj⟩ := hp.of_move? hm
    exact ⟨List.forall_mem_cons.mpr ⟨hq, hps⟩, hj⟩
  | tail p _ ih =>
    obtain ⟨hp, hps⟩ := List.forall_mem_cons.mp hps
    obtain ⟨hqs, hj⟩ := ih hps
    exact ⟨List.forall_mem_cons.mpr ⟨hp, hqs⟩, hj⟩

theorem Refuses.of_tellsAt (h : Refuses ps qs) (hps : ∀ p ∈ ps, p.TellsAt P) :
    ∀ q ∈ qs, q.TellsAt P := by
  induction h with
  | head hr ps =>
    obtain ⟨hp, hps⟩ := List.forall_mem_cons.mp hps
    exact List.forall_mem_cons.mpr ⟨hp.of_refuse? hr, hps⟩
  | tail p _ ih =>
    obtain ⟨hp, hps⟩ := List.forall_mem_cons.mp hps
    exact List.forall_mem_cons.mpr ⟨hp, ih hps⟩

/-- In whatever order a crew's steps are made, the notes are of its processes. -/
theorem Schedule.of_tellsAt {o : Outcome σ α} (h : Schedule ps s o)
    (hps : ∀ p ∈ ps, p.TellsAt P) : ∀ e ∈ o.journal, e.HasLevel P := by
  induction h with
  | ended => simp
  | step h _ ih =>
    cases h with
    | move hm =>
      obtain ⟨hqs, hj⟩ := hm.of_tellsAt hps
      exact List.forall_mem_append.mpr ⟨hj, ih hqs⟩
    | refuse _ hr => exact ih (hr.of_tellsAt hps)

end Crew

namespace Evaluation

/-- All notes of the evaluation are of level 3. -/
inductive Quiet : Evaluation B α → Prop
  | done (a : α) : Quiet (.done a)
  | fail (f : Fault) : Quiet (.fail f)
  | note {n : Note} (hn : n.level = 3) {e : Evaluation B α} (h : Quiet e) : Quiet (.note n e)
  | call (c : Call B) {resume : Value → Evaluation B α} (h : ∀ v, Quiet (resume v)) :
    Quiet (.call c resume)

theorem Quiet.bind {e : Evaluation B α} {next : α → Evaluation B β} (he : e.Quiet)
    (hnext : ∀ a, (next a).Quiet) : (e.bind next).Quiet := by
  induction he with
  | done a => exact hnext a
  | fail f => exact .fail f
  | note hn _ ih => exact .note hn ih
  | call c _ ih => exact .call c ih

theorem quiet_splice (v : Value) : (splice v : Evaluation B Text).Quiet := by
  cases h : v.spliced? with
  | none => rw [splice_of_none h]; exact .fail _
  | some t => rw [splice_of_some h]; exact .done t

theorem Quiet.drive {e : Evaluation B α} (he : e.Quiet) {P : Nat → Prop} (h3 : P 3)
    {answer : Call B → Process σ Value} (hanswer : ∀ c, (answer c).TellsAt P) :
    (e.drive answer).TellsAt P := by
  induction he with
  | done a => exact .done a
  | fail f => exact .fail f
  | @note n hn _ _ ih =>
    have hnote : (Event.note n).HasLevel P := by
      rw [Event.HasLevel, hn]
      exact h3
    exact .emit hnote ih
  | call c _ ih => exact (hanswer c).bind ih

end Evaluation

section Evaluate

open Evaluation (Quiet)

variable (look : Text → Option (Spec B))

theorem quiet_replaceTag {m : Match} (h : (evaluate look m.content).Quiet) :
    (replaceTag look m).Quiet := by
  cases he : m.escaped with
  | true => rw [replaceTag_of_escaped he]; exact .done _
  | false =>
    cases hlook : look m.name with
    | none => rw [replaceTag_of_unknown he hlook]; exact .note rfl (.done _)
    | some spec =>
      rw [replaceTag_of_known he hlook]
      exact h.bind fun inside => .call _ Evaluation.quiet_splice

theorem quiet_replaceAll : ∀ pieces : List (Text × Match),
    (∀ p ∈ pieces, (evaluate look p.2.content).Quiet) → (replaceAll look pieces).Quiet
  | [], _ => .done _
  | (gap, m) :: pieces, h => by
    have hrest := quiet_replaceAll pieces fun p hp => h p (List.mem_cons_of_mem _ hp)
    rw [replaceAll]
    exact (quiet_replaceTag look (h _ (List.mem_cons_self ..))).bind fun replaced =>
      hrest.bind fun text => .done _

theorem quiet_evaluate (s : Text) : (evaluate look s).Quiet := by
  induction s using contentInduction with
  | step s ih =>
    rcases matchesOfText_cases s with hr | ⟨f, hr⟩
    · have hall := quiet_replaceAll look (placedFrom 0 (Reading.ofText s).pieces) fun p hp => by
        obtain ⟨t, ht, hc⟩ := content_of_mem_placedFrom hp
        rw [hc]
        exact ih t ht
      rw [evaluate_of_ok look hr, noteFound]
      split
      · exact hall.bind fun text => .done _
      · exact .note rfl (hall.bind fun text => .done _)
    · rw [evaluate_of_error look hr]
      exact .fail f

end Evaluate

/-! ## Trees -/

section Trees

theorem tellsAt_mapping {P : Nat → Prop} {jobs : List (Process σ (Option Value))}
    (hjobs : ∀ p ∈ jobs, p.TellsAt P) (entries : List (Value × Value))
    {failed : Process σ (Option Value)}
    (hfailed : failed.TellsAt P) :
    ∀ p ∈ (if (Value.keyLabels? entries).isSome then jobs else [failed]), p.TellsAt P := by
  split
  · exact hjobs
  · exact List.forall_mem_singleton.mpr hfailed

variable {P : Nat → Prop} {test : Text → Bool} {evaluateText : Text → Process σ Text}

theorem keptByWalks_tellsAt (h : ∀ text, (evaluateText text).TellsAt P) :
    KeptByWalks evaluateText fun _ p => p.TellsAt P :=
  ⟨.done, .fail _, h, fun hp hnext => hp.bind hnext, .keep⟩

/-- The notes of a walk are those of its texts. -/
theorem tellsAt_walkSync (h : ∀ text, (evaluateText text).TellsAt P) (v : Value) :
    (Value.walkSync test evaluateText v).TellsAt P :=
  (keptByWalks_tellsAt h).walk v

theorem tellsAt_leafProcess (h : ∀ text, (evaluateText text).TellsAt P) (text : Text) :
    (Value.leafProcess evaluateText text).TellsAt P :=
  (keptByWalks_tellsAt h).leafProcess text

mutual

/-- So are those of the processes that a walk runs at once. -/
theorem tellsAt_entryJobs (h : ∀ text, (evaluateText text).TellsAt P) (label : Text) :
    ∀ v : Value, ∀ p ∈ Value.entryJobs test evaluateText label v, p.TellsAt P
  | .text text => by
    rw [Value.entryJobs]
    split
    · exact List.forall_mem_singleton.mpr ((tellsAt_leafProcess h text).keep label)
    · simp
  | .list items => tellsAt_itemJobs h 0 items
  | .tuple items => tellsAt_itemJobs h 0 items
  | .dict entries =>
    tellsAt_mapping (tellsAt_mappingJobs h entries) entries ((Process.TellsAt.fail _).keep label)
  | .view entries =>
    tellsAt_mapping (tellsAt_mappingJobs h entries) entries ((Process.TellsAt.fail _).keep label)
  | .null | .bool _ | .int _ | .float _ | .bytes _ | .timestamp _ _ | .set _ _ => by
    simp [Value.entryJobs]

theorem tellsAt_itemJobs (h : ∀ text, (evaluateText text).TellsAt P) (index : Nat) :
    ∀ items, ∀ p ∈ Value.itemJobs test evaluateText index items, p.TellsAt P
  | [] => by simp [Value.itemJobs]
  | v :: rest => by
    rw [Value.itemJobs]
    exact List.forall_mem_append.mpr ⟨tellsAt_entryJobs h _ v, tellsAt_itemJobs h (index + 1) rest⟩

theorem tellsAt_mappingJobs (h : ∀ text, (evaluateText text).TellsAt P) :
    ∀ entries, ∀ p ∈ Value.mappingJobs test evaluateText entries, p.TellsAt P
  | [] => by simp [Value.mappingJobs]
  | (k, v) :: rest => by
    rw [Value.mappingJobs]
    exact List.forall_mem_append.mpr ⟨tellsAt_entryJobs h _ v, tellsAt_mappingJobs h rest⟩

end

theorem tellsAt_rootJobs (h : ∀ text, (evaluateText text).TellsAt P) (tree : Value) :
    ∀ p ∈ Value.rootJobs test evaluateText tree, p.TellsAt P := by
  cases tree with
  | text text =>
    rw [Value.rootJobs]
    split
    · exact List.forall_mem_singleton.mpr ((tellsAt_leafProcess h text).bind fun v => .done _)
    · simp
  | dict entries => exact tellsAt_mapping (tellsAt_mappingJobs h entries) entries (.fail _)
  | view entries => exact tellsAt_mapping (tellsAt_mappingJobs h entries) entries (.fail _)
  | _ => exact tellsAt_entryJobs h [] _

end Trees

end TagTemplate
