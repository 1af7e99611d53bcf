import Mathlib.Data.List.Forall2
import TagTemplate.Crew
import TagTemplate.Proofs.Modes

/-!
# Crews in any order

`Crew.run` takes one order of a crew's steps. Here a step may be that of any process that can move
(`Crew.Step`), and `Crew.Schedule` relates a crew to what it ends with in some such order. The run
that is made is one of them (`Crew.schedule_run`), and no order goes on for ever
(`Crew.Step.lower`).

What one crew can do, another that follows it can do as well, and then ends alike
(`Crew.Follows.schedule`).

A process may always end in the same way and with the same effects, whatever states it meets and
whether or not its waits are granted (`Process.Always`). Then nothing that others do in between
matters to it. A crew of such processes has the same endings in every order, and the effects differ
in their order only (`Crew.Schedule.of_always`), since every step keeps that
(`Crew.Step.of_always`).
-/

namespace TagTemplate

variable {σ α β : Type}

/-! ## Orders of steps -/

namespace Process

variable {ready : σ → Bool} {p q r : Process σ α} {s t : σ} {j : Journal}

theorem move?_await_eq_some (h : (await ready p q).move? s = some (r, t, j)) :
    ready s = true ∧ r = p ∧ t = s ∧ j = [] := by
  rw [move?] at h
  split at h
  next hready => cases h; exact ⟨hready, rfl, rfl, rfl⟩
  next => cases h

theorem move?_await_eq_none (h : (await ready p q).move? s = none) : ready s = false := by
  rw [move?] at h
  split at h
  next => cases h
  next hready => simpa using hready

end Process

namespace Crew

/-- One process of the crew makes a step that it can make by itself. -/
inductive Moves : List (Process σ α) → σ → List (Process σ α) → σ → Journal → Prop
  | head {p q : Process σ α} {s t : σ} {j : Journal} (h : p.move? s = some (q, t, j))
    (ps : List (Process σ α)) : Moves (p :: ps) s (q :: ps) t j
  | tail (p : Process σ α) {ps qs : List (Process σ α)} {s t : σ} {j : Journal}
    (h : Moves ps s qs t j) : Moves (p :: ps) s (p :: qs) t j

/-- One process of the crew that waits is refused. -/
inductive Refuses : List (Process σ α) → List (Process σ α) → Prop
  | head {p q : Process σ α} (h : p.refuse? = some q) (ps : List (Process σ α)) :
    Refuses (p :: ps) (q :: ps)
  | tail (p : Process σ α) {ps qs : List (Process σ α)} (h : Refuses ps qs) :
    Refuses (p :: ps) (p :: qs)

/-- One step of a crew : any process that can move does, and only if none can, any that waits is
refused. -/
inductive Step : List (Process σ α) → σ → List (Process σ α) → σ → Journal → Prop
  | move {ps qs : List (Process σ α)} {s t : σ} {j : Journal} (h : Moves ps s qs t j) :
    Step ps s qs t j
  | refuse {ps qs : List (Process σ α)} {s : σ} (hstuck : ∀ p ∈ ps, p.move? s = none)
    (h : Refuses ps qs) : Step ps s qs s []

/-- What a crew ends with when steps are made in some order until none is left. -/
inductive Schedule : List (Process σ α) → σ → Outcome σ α → Prop
  | ended {ps : List (Process σ α)} {s : σ} (hstuck : ∀ p ∈ ps, p.move? s = none)
    (hnone : ∀ p ∈ ps, p.refuse? = none) : Schedule ps s ⟨ps.map Process.ending, s, []⟩
  | step {ps qs : List (Process σ α)} {s t : σ} {j : Journal} {o : Outcome σ α}
    (h : Step ps s qs t j) (rest : Schedule qs t o) :
    Schedule ps s { o with journal := j ++ o.journal }

/-- The crew becomes another by steps that its processes make by themselves. -/
inductive Reaches : List (Process σ α) → σ → List (Process σ α) → σ → Journal → Prop
  | refl (ps : List (Process σ α)) (s : σ) : Reaches ps s ps s []
  | move {ps qs rs : List (Process σ α)} {s t u : σ} {i j : Journal} (h : Moves ps s qs t i)
    (rest : Reaches qs t rs u j) : Reaches ps s rs u (i ++ j)

/-- What it can end with then, it can end with from the beginning. -/
theorem Reaches.schedule {ps qs : List (Process σ α)} {s t : σ} {j : Journal} {o : Outcome σ α}
    (h : Reaches ps s qs t j) (ho : Schedule qs t o) :
    Schedule ps s { o with journal := j ++ o.journal } := by
  induction h with
  | refl ps s => exact ho
  | move h _ ih =>
    rw [List.append_assoc]
    exact .step (.move h) (ih ho)

theorem Moves.lower {ps qs : List (Process σ α)} {s t : σ} {j : Journal} (h : Moves ps s qs t j) :
    Lower qs ps := by
  induction h with
  | head h ps => exact .head ps (Process.inside_of_move? h)
  | tail p _ ih => exact .tail p ih

theorem Refuses.lower {ps qs : List (Process σ α)} (h : Refuses ps qs) : Lower qs ps := by
  induction h with
  | head h ps => exact .head ps (Process.inside_of_refuse? h)
  | tail p _ ih => exact .tail p ih

/-- In whatever order steps are made, there is an end to them. -/
theorem Step.lower {ps qs : List (Process σ α)} {s t : σ} {j : Journal} (h : Step ps s qs t j) :
    Lower qs ps := by
  cases h with
  | move h => exact h.lower
  | refuse _ h => exact h.lower

theorem moves_of_move? {s t : σ} {j : Journal} :
    ∀ {ps qs : List (Process σ α)}, move? ps s = some (qs, t, j) → Moves ps s qs t j
  | [], _, h => by cases h
  | p :: ps, qs, h => by
    simp only [move?] at h
    split at h
    next hp => cases h; exact .head hp ps
    next =>
      obtain ⟨⟨rs, r⟩, hr, he⟩ := Option.map_eq_some_iff.mp h
      cases he
      exact .tail p (moves_of_move? hr)

theorem refuses_of_refuse? :
    ∀ {ps qs : List (Process σ α)}, refuse? ps = some qs → Refuses ps qs
  | [], _, h => by cases h
  | p :: ps, qs, h => by
    simp only [refuse?] at h
    split at h
    next hp => cases h; exact .head hp ps
    next =>
      obtain ⟨rs, hr, rfl⟩ := Option.map_eq_some_iff.mp h
      exact .tail p (refuses_of_refuse? hr)

theorem move?_eq_none_iff {ps : List (Process σ α)} {s : σ} :
    move? ps s = none ↔ ∀ p ∈ ps, p.move? s = none := by
  induction ps with
  | nil => simp [move?]
  | cons p ps ih => cases hp : p.move? s <;> simp [move?, hp, ih]

theorem refuse?_eq_none_iff {ps : List (Process σ α)} :
    refuse? ps = none ↔ ∀ p ∈ ps, p.refuse? = none := by
  induction ps with
  | nil => simp [refuse?]
  | cons p ps ih => cases hp : p.refuse? <;> simp [refuse?, hp, ih]

theorem step_of_step? {ps qs : List (Process σ α)} {s t : σ} {j : Journal}
    (h : step? ps s = some (qs, t, j)) : Step ps s qs t j := by
  rcases Option.or_eq_some_iff.mp h with hm | ⟨hm, hr⟩
  · exact .move (moves_of_move? hm)
  · obtain ⟨rs, hrs, he⟩ := Option.map_eq_some_iff.mp hr
    cases he
    exact .refuse (move?_eq_none_iff.mp hm) (refuses_of_refuse? hrs)

/-- The order that a run takes is one of the orders. -/
theorem schedule_run (ps : List (Process σ α)) (s : σ) : Schedule ps s (run ps s) := by
  induction ps, s using run.induct with
  | case1 ps s h =>
    rw [run, h]
    obtain ⟨hm, hr⟩ := Option.or_eq_none_iff.mp h
    exact .ended (move?_eq_none_iff.mp hm) (refuse?_eq_none_iff.mp (Option.map_eq_none_iff.mp hr))
  | case2 ps s qs t j h ih =>
    rw [run, h]
    exact .step (step_of_step? h) ih

end Crew

/-! ## Crews that follow one another -/

/-- One member of the first list is replaced by one that `R` relates it to. -/
inductive Changed (R : α → α → Prop) : List α → List α → Prop
  | head {a b : α} (h : R a b) (as : List α) : Changed R (a :: as) (b :: as)
  | tail (a : α) {as bs : List α} (h : Changed R as bs) : Changed R (a :: as) (a :: bs)

namespace Changed

variable {R S : α → α → Prop} {as bs : List α}

theorem imp_of_mem (h : Changed R as bs) (hS : ∀ a ∈ as, ∀ b, R a b → S a b) : Changed S as bs := by
  induction h with
  | head h as => exact .head (hS _ (List.mem_cons_self ..) _ h) as
  | tail a _ ih => exact .tail a (ih fun a ha => hS a (List.mem_cons_of_mem _ ha))

theorem exists_rel (h : Changed R as bs) : ∃ a ∈ as, ∃ b, R a b := by
  induction h with
  | head h as => exact ⟨_, List.mem_cons_self .., _, h⟩
  | tail a _ ih =>
    obtain ⟨b, hb, c, h⟩ := ih
    exact ⟨b, List.mem_cons_of_mem _ hb, c, h⟩

theorem forall_mem {P : α → Prop} (h : Changed R as bs) (hR : ∀ a b, R a b → P b)
    (has : ∀ a ∈ as, P a) : ∀ b ∈ bs, P b := by
  induction h with
  | head h as => exact List.forall_mem_cons.mpr ⟨hR _ _ h, (List.forall_mem_cons.mp has).2⟩
  | tail a _ ih =>
    obtain ⟨ha, has⟩ := List.forall_mem_cons.mp has
    exact List.forall_mem_cons.mpr ⟨ha, ih has⟩

theorem forall_mem_back {P : α → Prop} (h : Changed R as bs) (hR : ∀ a b, R a b → P b → P a)
    (hbs : ∀ b ∈ bs, P b) : ∀ a ∈ as, P a := by
  induction h with
  | head h as =>
    obtain ⟨hb, hbs⟩ := List.forall_mem_cons.mp hbs
    exact List.forall_mem_cons.mpr ⟨hR _ _ h hb, hbs⟩
  | tail a _ ih =>
    obtain ⟨ha, hbs⟩ := List.forall_mem_cons.mp hbs
    exact List.forall_mem_cons.mpr ⟨ha, ih hbs⟩

theorem map_eq {f : α → β} (h : Changed R as bs) (hR : ∀ a b, R a b → f a = f b) :
    as.map f = bs.map f := by
  induction h with
  | head h as => rw [List.map_cons, List.map_cons, hR _ _ h]
  | tail a _ ih => rw [List.map_cons, List.map_cons, ih]

theorem flatMap_perm {f : α → List β} {j : List β} (h : Changed R as bs)
    (hR : ∀ a b, R a b → f a = j ++ f b) : (j ++ bs.flatMap f).Perm (as.flatMap f) := by
  induction h with
  | head h as => rw [List.flatMap_cons, List.flatMap_cons, hR _ _ h, List.append_assoc]
  | tail a _ ih =>
    rw [List.flatMap_cons, List.flatMap_cons]
    exact (List.perm_append_comm_assoc _ _ _).trans (ih.append_left _)

/-- What one member of the first list can become, the same member of the second can. -/
theorem of_forall₂ {T : α → β → Prop} {R : α → α → Prop} {R' : β → β → Prop}
    (hT : ∀ a b a', T a b → R a a' → ∃ b', R' b b' ∧ T a' b') {as as' : List α} {bs : List β}
    (h : Changed R as as') (hall : List.Forall₂ T as bs) :
    ∃ bs', Changed R' bs bs' ∧ List.Forall₂ T as' bs' := by
  induction h generalizing bs with
  | head h as =>
    cases hall with
    | cons ha hall =>
      obtain ⟨b', hb, hb'⟩ := hT _ _ _ ha h
      exact ⟨_, .head hb _, .cons hb' hall⟩
  | tail a _ ih =>
    cases hall with
    | cons ha hall =>
      obtain ⟨bs', hbs, hall'⟩ := ih hall
      exact ⟨_, .tail _ hbs, .cons ha hall'⟩

end Changed

theorem forall_mem_of_forall₂ {T : α → β → Prop} {P : α → Prop} {Q : β → Prop}
    (hT : ∀ a b, T a b → P a → Q b) {as : List α} {bs : List β} (h : List.Forall₂ T as bs)
    (has : ∀ a ∈ as, P a) : ∀ b ∈ bs, Q b := by
  induction h with
  | nil => simp
  | cons ha _ ih =>
    obtain ⟨hP, has⟩ := List.forall_mem_cons.mp has
    exact List.forall_mem_cons.mpr ⟨hT _ _ ha hP, ih has⟩

namespace Crew

theorem moves_iff {ps qs : List (Process σ α)} {s t : σ} {j : Journal} :
    Moves ps s qs t j ↔ Changed (fun p q => p.move? s = some (q, t, j)) ps qs := by
  constructor <;> intro h
  · induction h with
    | head h ps =>
      refine Changed.head ?_ ps
      exact h
    | tail p _ ih => exact .tail p ih
  · induction h with
    | head h ps => exact .head h ps
    | tail p _ ih => exact .tail p ih

theorem refuses_iff {ps qs : List (Process σ α)} :
    Refuses ps qs ↔ Changed (fun p q => p.refuse? = some q) ps qs := by
  constructor <;> intro h
  · induction h with
    | head h ps =>
      refine Changed.head ?_ ps
      exact h
    | tail p _ ih => exact .tail p ih
  · induction h with
    | head h ps => exact .head h ps
    | tail p _ ih => exact .tail p ih

/-- Of two crews that `C` relates, the second can do what the first can. -/
structure Follows (C : List (Process σ α) → List (Process σ β) → Prop) : Prop where
  moves : ∀ {ps ps' : List (Process σ α)} {qs : List (Process σ β)} {s t : σ} {j : Journal},
    C ps qs → Changed (fun p p' => p.move? s = some (p', t, j)) ps ps' →
      ∃ qs', Changed (fun q q' => q.move? s = some (q', t, j)) qs qs' ∧ C ps' qs'
  refuses : ∀ {ps ps' : List (Process σ α)} {qs : List (Process σ β)}, C ps qs →
    Changed (fun p p' => p.refuse? = some p') ps ps' →
      ∃ qs', Changed (fun q q' => q.refuse? = some q') qs qs' ∧ C ps' qs'
  stuck : ∀ {ps : List (Process σ α)} {qs : List (Process σ β)}, C ps qs → ∀ s,
    (∀ p ∈ ps, p.move? s = none) → ∀ q ∈ qs, q.move? s = none
  none : ∀ {ps : List (Process σ α)} {qs : List (Process σ β)}, C ps qs →
    (∀ p ∈ ps, p.refuse? = none) → ∀ q ∈ qs, q.refuse? = none

/-- So it can end as the first does. -/
theorem Follows.schedule {C : List (Process σ α) → List (Process σ β) → Prop} (hC : Follows C)
    {ps : List (Process σ α)} {qs : List (Process σ β)} {s : σ} {o : Outcome σ α}
    (ho : Schedule ps s o) (h : C ps qs) : ∃ ps' qs', C ps' qs' ∧
      o.endings = ps'.map Process.ending ∧
      Schedule qs s ⟨qs'.map Process.ending, o.state, o.journal⟩ := by
  induction ho generalizing qs with
  | ended hstuck hnone =>
    exact ⟨_, qs, h, rfl, .ended (hC.stuck h _ hstuck) (hC.none h hnone)⟩
  | step hs _ ih =>
    cases hs with
    | move hm =>
      obtain ⟨qs', hq, h'⟩ := hC.moves h (moves_iff.mp hm)
      obtain ⟨ps'', qs'', hend, hends, hrest⟩ := ih h'
      exact ⟨ps'', qs'', hend, hends, .step (.move (moves_iff.mpr hq)) hrest⟩
    | refuse hstuck hr =>
      obtain ⟨qs', hq, h'⟩ := hC.refuses h (refuses_iff.mp hr)
      obtain ⟨ps'', qs'', hend, hends, hrest⟩ := ih h'
      exact ⟨ps'', qs'', hend, hends,
        .step (.refuse (hC.stuck h _ hstuck) (refuses_iff.mpr hq)) hrest⟩

end Crew

/-! ## Processes that others do not matter to -/

namespace Process

/-- Whatever states it meets and whether or not its waits are granted, the process ends with `o` and
its effects are `j`. -/
inductive Always (o : Except Fault α) : Process σ α → Journal → Prop
  | done {a : α} (h : o = .ok a) : Always o (.done a) []
  | fail {f : Fault} (h : o = .error f) : Always o (.fail f) []
  | emit (e : Event) {p : Process σ α} {j : Journal} (h : Always o p j) :
    Always o (.emit e p) (Journal.effects [e] ++ j)
  | act (change : σ → σ) {p : σ → Process σ α} {j : Journal} (h : ∀ s, Always o (p s) j) :
    Always o (.act change p) j
  | pause {p : Process σ α} {j : Journal} (h : Always o p j) : Always o (.pause p) j
  | await (ready : σ → Bool) {p q : Process σ α} {j : Journal} (hp : Always o p j)
    (hq : Always o q j) : Always o (.await ready p q) j

namespace Always

variable {p q : Process σ α} {o : Except Fault α} {j : Journal} {s t : σ}

theorem ofExcept (o : Except Fault α) : Always o (Process.ofExcept o : Process σ α) [] := by
  cases o with
  | ok a => exact .done rfl
  | error f => exact .fail rfl

theorem andThen {next : Except Fault α → Process σ β} {o' : Except Fault β} {j' : Journal}
    (h : Always o p j) (hnext : Always o' (next o) j') : Always o' (p.andThen next) (j ++ j') := by
  induction h with
  | done h => subst h; exact hnext
  | fail h => subst h; exact hnext
  | emit e _ ih => rw [List.append_assoc]; exact .emit e ih
  | act change _ ih => exact .act change ih
  | pause _ ih => exact .pause ih
  | await ready _ _ ihp ihq => exact .await ready ihp ihq

theorem keep_ok {a : α} (h : Always (.ok a) p j) (label : Text) :
    Always (.ok (some a)) (p.keep label) j := by
  rw [← List.append_nil j]
  exact h.andThen (.done rfl)

theorem keep_error {f : Fault} (h : Always (.error f) p j) (hf : f.isOrdinary = true)
    (label : Text) : Always (.ok none) (p.keep label) (j ++ [.dropped label f]) := by
  refine h.andThen ?_
  simp only [hf, if_true]
  exact .emit (.dropped label f) (.done rfl)

/-- What such a process does when it is alone. -/
theorem run (h : Always o p j) (s : σ) :
    (p.run s).outcome = o ∧ (p.run s).journal.effects = j := by
  induction h generalizing s with
  | done h => exact ⟨h.symm, rfl⟩
  | fail h => exact ⟨h.symm, rfl⟩
  | emit e _ ih =>
    obtain ⟨ho, hj⟩ := ih s
    refine ⟨ho, ?_⟩
    rw [← hj, ← Journal.effects_append]
    rfl
  | act change _ ih => exact ih s (change s)
  | pause _ ih => exact ih s
  | await ready _ _ ihp ihq =>
    rw [Process.run]
    split
    next => exact ihp s
    next => exact ihq s

/-- A step leaves the end as it is, and the effects that are not behind it. -/
theorem of_move? {i : Journal} (h : Always o p j) (hm : p.move? s = some (q, t, i)) :
    ∃ k, Always o q k ∧ j = i.effects ++ k := by
  cases h with
  | done => cases hm
  | fail => cases hm
  | emit e h => cases hm; exact ⟨_, h, rfl⟩
  | act change h => cases hm; exact ⟨_, h s, rfl⟩
  | pause h => cases hm; exact ⟨_, h, rfl⟩
  | await ready hp _ =>
    obtain ⟨-, rfl, rfl, rfl⟩ := move?_await_eq_some hm
    exact ⟨_, hp, rfl⟩

theorem of_refuse? (h : Always o p j) (hr : p.refuse? = some q) : Always o q j := by
  cases h with
  | await ready _ hq => cases hr; exact hq
  | _ => cases hr

theorem ending_eq (h : Always o p j) (hm : p.move? s = none) (hr : p.refuse? = none) :
    p.ending = o ∧ j = [] := by
  cases h with
  | done h => exact ⟨h.symm, rfl⟩
  | fail h => exact ⟨h.symm, rfl⟩
  | await => cases hr
  | _ => cases hm

end Always

end Process

namespace Crew

/-- Each process of the crew always ends as `rs` says, and with the effects it says. -/
def AlwaysAll (ps : List (Process σ α)) (rs : List (Except Fault α × Journal)) : Prop :=
  List.Forall₂ (fun p r => p.Always r.1 r.2) ps rs

section

variable {ps qs : List (Process σ α)} {rs : List (Except Fault α × Journal)} {s t : σ}
  {i : Journal}

theorem Moves.of_always (h : Moves ps s qs t i) (hps : AlwaysAll ps rs) :
    ∃ rs', AlwaysAll qs rs' ∧ rs'.map Prod.fst = rs.map Prod.fst ∧
      (i.effects ++ rs'.flatMap Prod.snd).Perm (rs.flatMap Prod.snd) := by
  induction h generalizing rs with
  | head hm ps =>
    cases hps with
    | @cons _ r _ rs hp hps =>
      obtain ⟨k, hk, hj⟩ := hp.of_move? hm
      refine ⟨(r.1, k) :: rs, .cons hk hps, rfl, ?_⟩
      simp [hj]
  | tail p _ ih =>
    cases hps with
    | @cons _ r _ rs hp hps =>
      obtain ⟨rs', hqs, hends, hperm⟩ := ih hps
      refine ⟨r :: rs', .cons hp hqs, by simp [hends], ?_⟩
      simp only [List.flatMap_cons]
      exact (List.perm_append_comm_assoc _ _ _).trans (hperm.append_left _)

theorem Refuses.of_always (h : Refuses ps qs) (hps : AlwaysAll ps rs) : AlwaysAll qs rs := by
  induction h generalizing rs with
  | head hr ps =>
    cases hps with
    | cons hp hps => exact .cons (hp.of_refuse? hr) hps
  | tail p _ ih =>
    cases hps with
    | cons hp hps => exact .cons hp (ih hps)

theorem Step.of_always (h : Step ps s qs t i) (hps : AlwaysAll ps rs) :
    ∃ rs', AlwaysAll qs rs' ∧ rs'.map Prod.fst = rs.map Prod.fst ∧
      (i.effects ++ rs'.flatMap Prod.snd).Perm (rs.flatMap Prod.snd) := by
  cases h with
  | move h => exact h.of_always hps
  | refuse _ h => exact ⟨rs, h.of_always hps, rfl, .refl _⟩

/-- When no step is left, neither are effects. -/
theorem AlwaysAll.of_stuck (hps : AlwaysAll ps rs) (hstuck : ∀ p ∈ ps, p.move? s = none)
    (hnone : ∀ p ∈ ps, p.refuse? = none) :
    ps.map Process.ending = rs.map Prod.fst ∧ rs.flatMap Prod.snd = [] := by
  induction hps with
  | nil => exact ⟨rfl, rfl⟩
  | cons hp _ ih =>
    obtain ⟨hm, hstuck⟩ := List.forall_mem_cons.mp hstuck
    obtain ⟨hr, hnone⟩ := List.forall_mem_cons.mp hnone
    obtain ⟨hend, hj⟩ := hp.ending_eq hm hr
    obtain ⟨hends, hjs⟩ := ih hstuck hnone
    simp [hend, hj, hends, hjs]

/-- In whatever order steps are made, the processes end as they always do, and the effects are
theirs, in some order. -/
theorem Schedule.of_always {o : Outcome σ α} (h : Schedule ps s o) (hps : AlwaysAll ps rs) :
    o.endings = rs.map Prod.fst ∧ o.journal.effects.Perm (rs.flatMap Prod.snd) := by
  induction h generalizing rs with
  | ended hstuck hnone =>
    obtain ⟨hends, hjs⟩ := hps.of_stuck hstuck hnone
    exact ⟨hends, by rw [hjs]; exact .refl _⟩
  | step h _ ih =>
    obtain ⟨rs', hqs, hends, hperm⟩ := h.of_always hps
    obtain ⟨ho, hj⟩ := ih hqs
    refine ⟨ho.trans hends, ?_⟩
    rw [Journal.effects_append]
    exact (hj.append_left _).trans hperm

end

end Crew

end TagTemplate
