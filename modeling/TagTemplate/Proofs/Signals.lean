import TagTemplate.Proofs.Deeds
import TagTemplate.Proofs.Requests

/-!
# Processes that signal to each other

Processes that run at once may signal keys to each other and wait for them : `has k s` says that the
key `k` has been signalled in the state `s`. A process heeds these signals (`Process.Heeds`) if that
is all that it has to do with the state. It may change the state by signalling keys, which are never
taken back; it reads the state only by waiting for a key; and where a wait is refused, it gives up.
What such a process does is told by the keys that its waits find (`Heeds.run_congr`).

In a crew of such processes the order of steps does not matter. In the end some keys have been
signalled, and each process has ended as it does alone in a state with those keys
(`Crew.Schedule.of_heeds`). For a wait is refused only when no process can move any more, and after
that no key is signalled (`Crew.Schedule.of_dormant`), so that the keys that answer a wait are those
at the end. And these are the same for all orders : by induction on the steps of one order, a
process that signals a key there has found its keys before, and so it signals that key in any other
order too (`Crew.Schedule.keysIn`).
-/

namespace TagTemplate

variable {B K σ α β : Type}

/-- Each key that is there in the state `s` is there in `t`. -/
def KeysIn (has : K → σ → Bool) (s t : σ) : Prop :=
  ∀ k, has k s = true → has k t = true

namespace KeysIn

variable {has : K → σ → Bool} {s t u : σ}

theorem refl (has : K → σ → Bool) (s : σ) : KeysIn has s s :=
  fun _ h => h

theorem trans (h : KeysIn has s t) (h' : KeysIn has t u) : KeysIn has s u :=
  fun k hk => h' k (h k hk)

theorem antisymm (h : KeysIn has s t) (h' : KeysIn has t s) (k : K) : has k s = has k t :=
  Bool.eq_iff_iff.mpr ⟨h k, h' k⟩

end KeysIn

/-! ## Processes that heed signals -/

namespace Process

/-- It waits for nothing and leaves the state alone, and ends as `E` says, and without an abort. -/
inductive Quits (E : Except Fault α → Prop) : Process σ α → Prop
  | done {a : α} (h : E (.ok a)) : Quits E (.done a)
  | fail {f : Fault} (hf : f.isOrdinary = true) (h : E (.error f)) : Quits E (.fail f)
  | emit (e : Event) {p : Process σ α} (h : Quits E p) : Quits E (.emit e p)
  | pause {p : Process σ α} (h : Quits E p) : Quits E (.pause p)

/-- All that it has to do with the state is to signal keys and to wait for them, and where a wait is
refused, it quits as `E` says. It ends without an abort. -/
inductive Heeds (has : K → σ → Bool) (E : Except Fault α → Prop) : Process σ α → Prop
  | done (a : α) : Heeds has E (.done a)
  | fail {f : Fault} (hf : f.isOrdinary = true) : Heeds has E (.fail f)
  | emit (e : Event) {p : Process σ α} (h : Heeds has E p) : Heeds has E (.emit e p)
  | pause {p : Process σ α} (h : Heeds has E p) : Heeds has E (.pause p)
  /-- The keys that are signalled are those of which `signalled` holds. -/
  | act {change : σ → σ} {signalled : K → Bool}
    (hchange : ∀ k s, has k (change s) = (signalled k || has k s)) {p : Process σ α}
    (h : Heeds has E p) : Heeds has E (.act change fun _ => p)
  | await (k : K) {p q : Process σ α} (h : Heeds has E p) (hq : Quits E q) :
    Heeds has E (.await (has k) p q)

variable {has : K → σ → Bool} {E : Except Fault α → Prop} {E' : Except Fault β → Prop}
  {p q : Process σ α} {s t : σ} {j : Journal}

theorem Quits.heeds (h : p.Quits E) : p.Heeds has E := by
  induction h with
  | done _ => exact .done _
  | fail hf _ => exact .fail hf
  | emit e _ ih => exact .emit e ih
  | pause _ ih => exact .pause ih

/-! ### Putting processes together -/

theorem Quits.andThen {next : Except Fault α → Process σ β} (h : p.Quits E)
    (hnext : ∀ o, E o → (next o).Quits E') : (p.andThen next).Quits E' := by
  induction h with
  | done h => exact hnext _ h
  | fail _ h => exact hnext _ h
  | emit e _ ih => exact .emit e ih
  | pause _ ih => exact .pause ih

theorem Heeds.andThen {next : Except Fault α → Process σ β} (h : p.Heeds has E)
    (hnext : ∀ o, Contained o → (next o).Heeds has E')
    (hquit : ∀ o, E o → (next o).Quits E') : (p.andThen next).Heeds has E' := by
  induction h with
  | done a => exact hnext _ (contained_ok a)
  | fail hf => exact hnext _ (contained_error hf)
  | emit e _ ih => exact .emit e ih
  | pause _ ih => exact .pause ih
  | act hchange _ ih => exact .act hchange ih
  | await k _ hq ih => exact .await k ih (hq.andThen hquit)

/-- To end with an ordinary fault. -/
def GivesUp (o : Except Fault α) : Prop :=
  ∃ f, o = .error f ∧ f.isOrdinary = true

theorem Heeds.bind {next : α → Process σ β} (h : p.Heeds has GivesUp)
    (hnext : ∀ a, (next a).Heeds has GivesUp) : (p.bind next).Heeds has GivesUp := by
  refine h.andThen (fun o ho => ?_) ?_
  · cases o with
    | ok a => exact hnext a
    | error f => exact .fail (ho f rfl)
  · rintro _ ⟨f, rfl, hf⟩
    exact .fail hf ⟨f, rfl, hf⟩

theorem Heeds.mapFault {change : Fault → Fault} (h : p.Heeds has GivesUp)
    (hchange : ∀ f, f.isOrdinary = true → (change f).isOrdinary = true) :
    (p.mapFault change).Heeds has GivesUp := by
  refine h.andThen (fun o ho => ?_) ?_
  · cases o with
    | ok a => exact .done a
    | error f => exact .fail (hchange f (ho f rfl))
  · rintro _ ⟨f, rfl, hf⟩
    exact .fail (hchange f hf) ⟨_, rfl, hchange f hf⟩

/-- An entry whose evaluation gives up is dropped. -/
theorem Heeds.keep (h : p.Heeds has GivesUp) (label : Text) :
    (p.keep label).Heeds has fun o => o = .ok none := by
  refine h.andThen (fun o ho => ?_) ?_
  · cases o with
    | ok a => exact .done _
    | error f =>
      simp only [ho f rfl, if_true]
      exact .emit _ (.done none)
  · rintro _ ⟨f, rfl, hf⟩
    simp only [hf, if_true]
    exact .emit _ (.done rfl)

theorem Quits.told (h : p.Quits E) (past : List (Deed σ)) : (p.told past).Quits fun _ => True := by
  induction h generalizing past with
  | done _ => exact .done trivial
  | fail _ _ => exact .done trivial
  | emit e _ ih => exact .emit e (ih _)
  | pause _ ih => exact .pause (ih _)

theorem Heeds.told (h : p.Heeds has E) (past : List (Deed σ)) :
    (p.told past).Heeds has fun _ => True := by
  induction h generalizing past with
  | done a => exact .done _
  | fail _ => exact .done _
  | emit e _ ih => exact .emit e (ih _)
  | pause _ ih => exact .pause (ih _)
  | act hchange _ ih => exact .act hchange (ih _)
  | await k _ hq ih => exact .await k (ih _) (hq.told _)

theorem heeds_ofExcept {o : Except Fault α} (h : Contained o) :
    (Process.ofExcept o : Process σ α).Heeds has E := by
  cases o with
  | ok a => exact .done a
  | error f => exact .fail (h f rfl)

/-! ### Runs -/

theorem Quits.run_eq (h : p.Quits E) (s t : σ) :
    p.run s = ⟨(p.run t).outcome, s, (p.run t).journal⟩ := by
  induction h with
  | done _ => rfl
  | fail _ _ => rfl
  | emit e _ ih => simp only [run, ih]
  | pause _ ih => exact ih

theorem Quits.contained (h : p.Quits E) (s : σ) : Contained (p.run s).outcome := by
  induction h with
  | done _ => exact contained_ok _
  | fail hf _ => exact contained_error hf
  | emit e _ ih => exact ih
  | pause _ ih => exact ih

theorem Heeds.contained (h : p.Heeds has E) (s : σ) : Contained (p.run s).outcome := by
  induction h generalizing s with
  | done a => exact contained_ok a
  | fail hf => exact contained_error hf
  | emit e _ ih => exact ih s
  | pause _ ih => exact ih s
  | act _ _ ih => exact ih _
  | await k _ hq ih =>
    rw [run]
    split
    next => exact ih s
    next => exact hq.contained s

/-- Two runs with the same outcome and the same journal, that leave the same keys. -/
structure SameRun (has : K → σ → Bool) (r r' : Run σ α) : Prop where
  outcome : r.outcome = r'.outcome
  journal : r.journal = r'.journal
  keys : ∀ k, has k r.state = has k r'.state

/-- What the process does when it is alone is told by the keys that are there. -/
theorem Heeds.run_congr (h : p.Heeds has E) (hkeys : ∀ k, has k s = has k t) :
    SameRun has (p.run s) (p.run t) := by
  induction h generalizing s t with
  | done a => exact ⟨rfl, rfl, hkeys⟩
  | fail _ => exact ⟨rfl, rfl, hkeys⟩
  | emit e _ ih =>
    obtain ⟨ho, hj, hk⟩ := ih hkeys
    exact ⟨ho, congrArg (e :: ·) hj, hk⟩
  | pause _ ih => exact ih hkeys
  | act hchange _ ih => exact ih fun k => by rw [hchange, hchange, hkeys]
  | @await k p q _ hq ih =>
    simp only [run, hkeys k]
    split
    next => exact ih hkeys
    next =>
      rw [hq.run_eq s t, hq.run_eq t t]
      exact ⟨rfl, rfl, hkeys⟩

/-- No key is taken back. -/
theorem Heeds.keysIn_run (h : p.Heeds has E) (s : σ) : KeysIn has s (p.run s).state := by
  induction h generalizing s with
  | done a => exact .refl has s
  | fail _ => exact .refl has s
  | emit e _ ih => exact ih s
  | pause _ ih => exact ih s
  | act hchange _ ih => exact .trans (fun k hk => by rw [hchange, hk, Bool.or_true]) (ih _)
  | @await k p q _ hq ih =>
    rw [run]
    split
    next => exact ih s
    next =>
      rw [hq.run_eq s s]
      exact .refl has s

/-! ### Steps -/

/-- A step keeps the process one that heeds signals, and takes no key back. -/
theorem Heeds.of_move? (h : p.Heeds has E) (hm : p.move? s = some (q, t, j)) :
    q.Heeds has E ∧ KeysIn has s t := by
  cases h with
  | done a => cases hm
  | fail _ => cases hm
  | emit e h => cases hm; exact ⟨h, .refl has _⟩
  | pause h => cases hm; exact ⟨h, .refl has _⟩
  | act hchange h =>
    cases hm
    exact ⟨h, fun k hk => by rw [hchange, hk, Bool.or_true]⟩
  | await k h _ =>
    obtain ⟨-, rfl, rfl, rfl⟩ := move?_await_eq_some hm
    exact ⟨h, .refl has _⟩

/-- Alone in a state with all the keys that are there after the step, the process does what was done
in the step, and then what remains of it does. -/
theorem Heeds.run_of_move? (h : p.Heeds has E) (hm : p.move? s = some (q, t, j)) {u : σ}
    (hu : KeysIn has t u) :
    SameRun has (p.run u) { q.run u with journal := j ++ (q.run u).journal } := by
  cases h with
  | done a => cases hm
  | fail _ => cases hm
  | emit e h => cases hm; exact ⟨rfl, rfl, fun _ => rfl⟩
  | pause h => cases hm; exact ⟨rfl, rfl, fun _ => rfl⟩
  | @act change signalled hchange p h =>
    cases hm
    refine h.run_congr fun k => ?_
    rw [hchange, Bool.or_eq_right_iff_imp]
    exact fun hk => hu k (by rw [hchange, hk, Bool.true_or])
  | await k h _ =>
    obtain ⟨hk, rfl, rfl, rfl⟩ := move?_await_eq_some hm
    rw [run, if_pos (hu k hk)]
    exact ⟨rfl, rfl, fun _ => rfl⟩

/-- The step signals only such keys as the process signals alone, and so does what remains of it. -/
theorem Heeds.keysIn_of_move? (h : p.Heeds has E) (hm : p.move? s = some (q, t, j)) {u : σ}
    (hs : KeysIn has s u) (hu : KeysIn has (p.run u).state u) :
    KeysIn has t u ∧ KeysIn has (q.run u).state u := by
  have ht : KeysIn has t u := by
    cases h with
    | done a => cases hm
    | fail _ => cases hm
    | emit e h => cases hm; exact hs
    | pause h => cases hm; exact hs
    | @act change signalled hchange p h =>
      cases hm
      intro k hk
      rw [hchange, Bool.or_eq_true] at hk
      rcases hk with hk | hk
      · exact hu k (h.keysIn_run _ k (by rw [hchange, hk, Bool.true_or]))
      · exact hs k hk
    | await k h _ =>
      obtain ⟨-, -, rfl, -⟩ := move?_await_eq_some hm
      exact hs
  refine ⟨ht, fun k hk => hu k ?_⟩
  rwa [(h.run_of_move? hm ht).keys]

/-- A process that is refused, since its key is not there, quits. -/
theorem Heeds.of_refuse? (h : p.Heeds has E) (hm : p.move? s = none) (hr : p.refuse? = some q) :
    q.Quits E ∧ p.run s = q.run s := by
  cases h with
  | await k _ hq =>
    cases hr
    exact ⟨hq, by rw [run, if_neg (by simp [move?_await_eq_none hm])]⟩
  | _ => cases hr

/-! ### Processes that cannot move -/

/-- A process for which nothing is left to do. -/
theorem Heeds.run_of_ended (h : p.Heeds has E) (hm : p.move? s = none) (hr : p.refuse? = none) :
    p.run s = ⟨p.ending, s, []⟩ := by
  cases h with
  | done a => rfl
  | fail _ => rfl
  | await => cases hr
  | _ => cases hm

theorem Heeds.cases_of_stuck (h : p.Heeds has E) (hm : p.move? s = none) :
    p.refuse? = none ∨ ∃ k p₁ p₂, p = .await (has k) p₁ p₂ ∧ has k s = false := by
  cases h with
  | done a => exact Or.inl rfl
  | fail _ => exact Or.inl rfl
  | await k _ _ => exact Or.inr ⟨k, _, _, rfl, move?_await_eq_none hm⟩
  | _ => cases hm

/-- What remains of a process in the state `t` if nobody changes that and no wait is refused. -/
def left : Process σ α → σ → Process σ α
  | done a, _ => done a
  | fail f, _ => fail f
  | emit _ p, t => p.left t
  | act _ p, t => (p t).left t
  | pause p, t => p.left t
  | await ready p q, t => if ready t then p.left t else await ready p q

/-- A step takes nothing of that away. -/
theorem Heeds.left_of_move? (h : p.Heeds has E) (hm : p.move? s = some (q, t, j)) {u : σ}
    (hu : KeysIn has t u) : p.left u = q.left u := by
  cases h with
  | done a => cases hm
  | fail _ => cases hm
  | emit e _ => cases hm; rfl
  | pause _ => cases hm; rfl
  | act _ _ => cases hm; rfl
  | await k _ _ =>
    obtain ⟨hk, rfl, rfl, -⟩ := move?_await_eq_some hm
    rw [left, if_pos (hu k hk)]

theorem Heeds.left_of_stuck (h : p.Heeds has E) (hm : p.move? s = none)
    (hkeys : ∀ k, has k s = has k t) : p.left t = p := by
  cases h with
  | done a => rfl
  | fail _ => rfl
  | await k _ _ => rw [left, ← hkeys, if_neg (by simp [move?_await_eq_none hm])]
  | _ => cases hm

/-- It quits, or it waits for a key that is not there. -/
def Dormant (has : K → σ → Bool) (E : Except Fault α → Prop) (s : σ) (p : Process σ α) : Prop :=
  p.Quits E ∨ p.Heeds has E ∧ p.move? s = none

theorem Dormant.of_move? (h : p.Dormant has E s) (hm : p.move? s = some (q, t, j)) :
    t = s ∧ q.Dormant has E s := by
  rcases h with h | ⟨-, hstuck⟩
  · cases h with
    | emit e h => cases hm; exact ⟨rfl, Or.inl h⟩
    | pause h => cases hm; exact ⟨rfl, Or.inl h⟩
    | _ => cases hm
  · rw [hstuck] at hm
    cases hm

theorem Dormant.of_refuse? (h : p.Dormant has E s) (hr : p.refuse? = some q) :
    q.Dormant has E s := by
  rcases h with h | ⟨h, hstuck⟩
  · cases h <;> cases hr
  · exact Or.inl (h.of_refuse? hstuck hr).1

end Process

/-! ## Crews -/

namespace Crew

variable {has : K → σ → Bool} {E : Except Fault α → Prop} {ps : List (Process σ α)} {s t : σ}
  {o : Outcome σ α}

/-- Once no process can move, no key is signalled any more. -/
theorem Schedule.of_dormant (ho : Schedule ps s o) (hps : ∀ p ∈ ps, p.Dormant has E s) :
    o.state = s := by
  induction ho with
  | ended => rfl
  | step hs _ ih =>
    cases hs with
    | move hm =>
      have hstep := (moves_iff.mp hm).imp_of_mem fun p hp q hq => (hps p hp).of_move? hq
      obtain ⟨p, -, q, rfl, -⟩ := hstep.exists_rel
      exact ih (hstep.forall_mem (fun _ _ h => h.2) hps)
    | refuse _ hr =>
      have hstep := (refuses_iff.mp hr).imp_of_mem fun p hp q hq => (hps p hp).of_refuse? hq
      exact ih (hstep.forall_mem (fun _ _ h => h) hps)

/-- The crew ends as each of its processes does alone in the state that it leaves, and all keys that
they signal there are there. -/
structure AsAlone (has : K → σ → Bool) (ps : List (Process σ α)) (o : Outcome σ α) : Prop where
  endings : o.endings = ps.map fun p => (p.run o.state).outcome
  journal : o.journal.Perm (ps.flatMap fun p => (p.run o.state).journal)
  keys : ∀ p ∈ ps, KeysIn has (p.run o.state).state o.state

/-- So does the crew before a step, of which the process that makes it does the rest afterwards. -/
theorem AsAlone.of_changed {qs : List (Process σ α)} {j : Journal}
    (hrun : Changed (fun p q => Process.SameRun has (p.run o.state)
      { q.run o.state with journal := j ++ (q.run o.state).journal }) ps qs)
    (h : AsAlone has qs o) : AsAlone has ps { o with journal := j ++ o.journal } where
  endings := by
    rw [hrun.map_eq fun _ _ h => h.outcome]
    exact h.endings
  journal := (h.journal.append_left j).trans (hrun.flatMap_perm fun _ _ h => h.journal)
  keys := hrun.forall_mem_back (fun p q h hq k hk => hq k (by rwa [h.keys] at hk)) h.keys

/-- In whatever order steps are made, processes that heed signals end as they do alone with the keys
that are there in the end. -/
theorem Schedule.of_heeds (ho : Schedule ps s o) (hps : ∀ p ∈ ps, p.Heeds has E) :
    KeysIn has s o.state ∧ AsAlone has ps o := by
  induction ho with
  | @ended ps s hstuck hnone =>
    have hrun : ∀ p ∈ ps, p.run s = ⟨p.ending, s, []⟩ := fun p hp =>
      (hps p hp).run_of_ended (hstuck p hp) (hnone p hp)
    refine ⟨.refl has s, ?_, ?_, fun p hp => ?_⟩
    · exact List.map_congr_left fun p hp => by rw [hrun p hp]
    · have hnil : ps.flatMap (fun p => (p.run s).journal) = [] :=
        List.flatMap_eq_nil_iff.mpr fun p hp => by rw [hrun p hp]
      rw [hnil]
    · rw [hrun p hp]
      exact .refl has s
  | @step ps qs s t j o hs rest ih =>
    cases hs with
    | move hm =>
      have hm := moves_iff.mp hm
      have hstep := hm.imp_of_mem fun p hp q hq => (hps p hp).of_move? hq
      obtain ⟨p, -, q, -, hst⟩ := hstep.exists_rel
      obtain ⟨hkeys, halone⟩ := ih (hstep.forall_mem (fun _ _ h => h.1) hps)
      exact ⟨hst.trans hkeys, halone.of_changed <|
        hm.imp_of_mem fun p hp q hq => (hps p hp).run_of_move? hq hkeys⟩
    | refuse hstuck hr =>
      have hr := (refuses_iff.mp hr).imp_of_mem fun p hp q hq =>
        (hps p hp).of_refuse? (hstuck p hp) hq
      have hdormant : ∀ q ∈ qs, q.Dormant has E s :=
        hr.forall_mem (fun _ _ h => Or.inl h.1) fun p hp => Or.inr ⟨hps p hp, hstuck p hp⟩
      obtain rfl := rest.of_dormant hdormant
      obtain ⟨hkeys, halone⟩ := ih (hr.forall_mem (fun _ _ h => h.1.heeds) hps)
      refine ⟨hkeys, halone.of_changed (hr.imp_of_mem fun p _ q h => ?_)⟩
      rw [h.2]
      exact ⟨rfl, rfl, fun _ => rfl⟩

/-- If the processes signal no key alone in the state `u` that is not there, they signal no other in
any order. -/
theorem Schedule.keysIn (ho : Schedule ps s o) (hps : ∀ p ∈ ps, p.Heeds has E) {u : σ}
    (hs : KeysIn has s u) (hu : ∀ p ∈ ps, KeysIn has (p.run u).state u) :
    KeysIn has o.state u := by
  induction ho with
  | ended => exact hs
  | @step ps qs s t j o h _ ih =>
    cases h with
    | move hm =>
      have hm := moves_iff.mp hm
      have hheeds := hm.imp_of_mem fun p hp q hq => ((hps p hp).of_move? hq).1
      have hkeys := hm.imp_of_mem fun p hp q hq => (hps p hp).keysIn_of_move? hq hs (hu p hp)
      obtain ⟨p, -, q, ht, -⟩ := hkeys.exists_rel
      exact ih (hheeds.forall_mem (fun _ _ h => h) hps) ht (hkeys.forall_mem (fun _ _ h => h.2) hu)
    | refuse hstuck hr =>
      have hr := (refuses_iff.mp hr).imp_of_mem fun p hp q hq =>
        (hps p hp).of_refuse? (hstuck p hp) hq
      refine ih (hr.forall_mem (fun _ _ h => h.1.heeds) hps) hs
        (hr.forall_mem (fun _ q h => ?_) hu)
      rw [h.1.run_eq u u]
      exact .refl has u

/-- Wherever the crew gets to before any wait is refused, no key has been taken back, and what
remains of the processes in the end remains of them from there. -/
theorem Reaches.of_heeds {qs : List (Process σ α)} {u : σ} {j : Journal} (h : Reaches ps s qs u j)
    (hps : ∀ p ∈ ps, p.Heeds has E) : (∀ q ∈ qs, q.Heeds has E) ∧ KeysIn has s u ∧
      ∀ t, KeysIn has u t → (ps.map fun p => p.left t) = qs.map fun q => q.left t := by
  induction h with
  | refl ps s => exact ⟨hps, .refl has s, fun _ _ => rfl⟩
  | move hm _ ih =>
    have hm := moves_iff.mp hm
    have hstep := hm.imp_of_mem fun p hp q hq => (hps p hp).of_move? hq
    obtain ⟨p, -, q, -, hst⟩ := hstep.exists_rel
    obtain ⟨hqs, htu, hleft⟩ := ih (hstep.forall_mem (fun _ _ h => h.1) hps)
    refine ⟨hqs, hst.trans htu, fun t hu => ?_⟩
    have hsame := hm.imp_of_mem fun p hp q hq => (hps p hp).left_of_move? hq (htu.trans hu)
    exact (hsame.map_eq fun _ _ h => h).trans (hleft t hu)

/-- The keys at the end are the same for two crews that can signal the same keys. -/
theorem Schedule.keys_eq {qs : List (Process σ β)} {D : Except Fault β → Prop} {o' : Outcome σ β}
    (ho : Schedule ps s o) (ho' : Schedule qs s o') (hps : ∀ p ∈ ps, p.Heeds has E)
    (hqs : ∀ q ∈ qs, q.Heeds has D)
    (hsame : ∀ u, (∀ p ∈ ps, KeysIn has (p.run u).state u) ↔
      ∀ q ∈ qs, KeysIn has (q.run u).state u) (k : K) :
    has k o.state = has k o'.state := by
  obtain ⟨hs, halone⟩ := ho.of_heeds hps
  obtain ⟨hs', halone'⟩ := ho'.of_heeds hqs
  exact (ho.keysIn hps hs' ((hsame _).mpr halone'.keys)).antisymm
    (ho'.keysIn hqs hs ((hsame _).mp halone.keys)) k

end Crew

end TagTemplate
