import TagTemplate.Process

/-!
# Crews

A crew is a list of processes that share a state and run at the same time. One step moves
one of them (`Process.move?`). A process that waits for a condition can move once the
condition holds; when no process can move, one that waits is refused (`Crew.refuse?`), since
nothing is left that could make its condition hold.

`Crew.run` makes such steps until every process has ended. It always takes the first process
that can move : a run in any other order is a run of the same steps. Each step goes strictly
inside one process (`Crew.Lower`), and processes have no infinite descent, so the run ends
(`Crew.wellFounded_lower`).
-/

namespace TagTemplate

variable {σ α : Type}

namespace Process

/-- `Inside q p` : the process `q` is what remains of `p` after one step. -/
inductive Inside : Process σ α → Process σ α → Prop
  | emit (e : Event) (p : Process σ α) : Inside p (.emit e p)
  | act (change : σ → σ) (p : σ → Process σ α) (s : σ) : Inside (p s) (.act change p)
  | pause (p : Process σ α) : Inside p (.pause p)
  | granted (ready : σ → Bool) (p q : Process σ α) : Inside p (.await ready p q)
  | refused (ready : σ → Bool) (p q : Process σ α) : Inside q (.await ready p q)

/-- No process can be entered for ever. -/
theorem wellFounded_inside : WellFounded (@Inside σ α) := by
  refine ⟨fun p => ?_⟩
  induction p with
  | done a => exact ⟨_, fun _ h => by cases h⟩
  | fail f => exact ⟨_, fun _ h => by cases h⟩
  | emit e p ih => exact ⟨_, fun _ h => by cases h; exact ih⟩
  | act change p ih => exact ⟨_, fun _ h => by cases h; exact ih _⟩
  | pause p ih => exact ⟨_, fun _ h => by cases h; exact ih⟩
  | await ready p q ihp ihq =>
    exact ⟨_, fun _ h => by
      cases h with
      | granted => exact ihp
      | refused => exact ihq⟩

/-- What remains of a process after a step it can make by itself, the state after it and
what it wrote to the journal. -/
def move? : Process σ α → σ → Option (Process σ α × σ × Journal)
  | done _, _ => none
  | fail _, _ => none
  | emit e p, s => some (p, s, [e])
  | act change p, s => some (p s, change s, [])
  | pause p, s => some (p, s, [])
  | await ready p _, s => if ready s then some (p, s, []) else none

/-- What remains of a waiting process that is refused. -/
def refuse? : Process σ α → Option (Process σ α)
  | await _ _ q => some q
  | _ => none

/-- What a process has ended with; one that has not ended counts as refused for ever. -/
def ending : Process σ α → Except Fault α
  | done a => .ok a
  | fail f => .error f
  | _ => .error .neverSignalled

theorem inside_of_move? {p q : Process σ α} {s t : σ} {j : Journal}
    (h : p.move? s = some (q, t, j)) : Inside q p := by
  cases p with
  | done a => simp [move?] at h
  | fail f => simp [move?] at h
  | emit e p =>
    simp only [move?, Option.some.injEq, Prod.mk.injEq] at h; rw [← h.1]; exact .emit _ _
  | act change p =>
    simp only [move?, Option.some.injEq, Prod.mk.injEq] at h; rw [← h.1]; exact .act _ _ _
  | pause p => simp only [move?, Option.some.injEq, Prod.mk.injEq] at h; rw [← h.1]; exact .pause _
  | await ready p q =>
    simp only [move?] at h
    split at h
    · simp only [Option.some.injEq, Prod.mk.injEq] at h; rw [← h.1]; exact .granted _ _ _
    · cases h

theorem inside_of_refuse? {p q : Process σ α} (h : p.refuse? = some q) : Inside q p := by
  cases p with
  | await ready p q => simp only [refuse?, Option.some.injEq] at h; rw [← h]; exact .refused _ _ _
  | _ => simp [refuse?] at h

end Process

namespace Crew

/-- `Lower qs ps` : the crew `qs` is `ps` after one of its processes made one step. -/
inductive Lower : List (Process σ α) → List (Process σ α) → Prop
  | head {p q : Process σ α} (ps : List (Process σ α)) :
    Process.Inside q p → Lower (q :: ps) (p :: ps)
  | tail (p : Process σ α) {ps qs : List (Process σ α)} : Lower qs ps → Lower (p :: qs) (p :: ps)

/-- No crew steps for ever. -/
theorem wellFounded_lower : WellFounded (@Lower σ α) := by
  refine ⟨fun ps => ?_⟩
  induction ps with
  | nil => exact ⟨_, fun _ h => by cases h⟩
  | cons p ps ih =>
    have hp := Process.wellFounded_inside.apply p
    induction hp generalizing ps with
    | intro p _ ihp =>
      induction ih with
      | intro ps hps ihps =>
        refine ⟨_, fun qs h => ?_⟩
        cases h with
        | head _ hq => exact ihp _ hq ps ⟨_, hps⟩
        | tail _ hqs => exact ihps _ hqs

instance : WellFoundedRelation (List (Process σ α)) := ⟨Lower, wellFounded_lower⟩

/-- One step of the first process that can move. -/
def move? : List (Process σ α) → σ → Option (List (Process σ α) × σ × Journal)
  | [], _ => none
  | p :: ps, s =>
    match p.move? s with
    | some (q, t, j) => some (q :: ps, t, j)
    | none => (move? ps s).map fun (qs, r) => (p :: qs, r)

/-- The crew with the first waiting process refused. -/
def refuse? : List (Process σ α) → Option (List (Process σ α))
  | [] => none
  | p :: ps =>
    match p.refuse? with
    | some q => some (q :: ps)
    | none => (refuse? ps).map (p :: ·)

/-- One step of a crew : a process that can move does, and only if none can, one that waits is
refused. -/
def step? (ps : List (Process σ α)) (s : σ) : Option (List (Process σ α) × σ × Journal) :=
  (move? ps s).or ((refuse? ps).map fun qs => (qs, s, []))

theorem lower_of_move? {s t : σ} {j : Journal} :
    ∀ {ps qs : List (Process σ α)}, move? ps s = some (qs, t, j) → Lower qs ps
  | [], _, h => by simp [move?] at h
  | p :: ps, qs, h => by
    simp only [move?] at h
    split at h
    · next hm =>
      simp only [Option.some.injEq, Prod.mk.injEq] at h
      rw [← h.1]
      exact .head _ (Process.inside_of_move? hm)
    · obtain ⟨⟨rs, r⟩, hr, he⟩ := Option.map_eq_some_iff.mp h
      simp only [Prod.mk.injEq] at he
      rw [← he.1]
      exact .tail _ (lower_of_move? hr)

theorem lower_of_refuse? :
    ∀ {ps qs : List (Process σ α)}, refuse? ps = some qs → Lower qs ps
  | [], _, h => by simp [refuse?] at h
  | p :: ps, qs, h => by
    simp only [refuse?] at h
    split at h
    · next hm =>
      simp only [Option.some.injEq] at h
      rw [← h]
      exact .head _ (Process.inside_of_refuse? hm)
    · obtain ⟨rs, hr, rfl⟩ := Option.map_eq_some_iff.mp h
      exact .tail _ (lower_of_refuse? hr)

theorem lower_of_step? {ps qs : List (Process σ α)} {s t : σ} {j : Journal}
    (h : step? ps s = some (qs, t, j)) : Lower qs ps := by
  rcases Option.or_eq_some_iff.mp h with hm | ⟨-, hr⟩
  · exact lower_of_move? hm
  · obtain ⟨rs, hr, he⟩ := Option.map_eq_some_iff.mp hr
    simp only [Prod.mk.injEq] at he
    rw [← he.1]
    exact lower_of_refuse? hr

/-- What a crew ends with. -/
structure Outcome (σ α : Type) where
  /-- What each process ended with. -/
  endings : List (Except Fault α)
  /-- The state they leave. -/
  state : σ
  /-- What happened. -/
  journal : Journal

/-- The run of a crew. -/
def run (ps : List (Process σ α)) (s : σ) : Outcome σ α :=
  match _h : step? ps s with
  | none => ⟨ps.map Process.ending, s, []⟩
  | some (qs, t, j) =>
    let rest := run qs t
    { rest with journal := j ++ rest.journal }
termination_by ps
decreasing_by exact lower_of_step? _h

end Crew

end TagTemplate
