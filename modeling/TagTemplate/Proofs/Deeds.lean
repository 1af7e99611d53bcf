import TagTemplate.Proofs.Schedules

/-!
# What each process does

The journal of a crew says what was written, but not by which process, and not which waits were
granted. `Process.deeds` lists all that a process does when it is alone : what it writes, that it
changes the state or pauses, and how its waits are answered.

A process can take down its deeds and tell them when it ends, along with what it ends with
(`Process.told`). Doing so changes nothing of what it does, so that a crew whose processes do so
runs in the same orders as the crew itself (`Crew.schedule_iff_told`), and ends with an account of
what each of its processes has done.
-/

namespace TagTemplate

variable {σ α β : Type}

/-- What a process does in one step. -/
inductive Deed (σ : Type) where
  /-- It writes to the journal. -/
  | writes (event : Event)
  /-- It changes the state. -/
  | changes (change : σ → σ)
  /-- It lets others run. -/
  | pauses
  /-- It waits, and its wait is granted. -/
  | granted (ready : σ → Bool)
  /-- It waits, and its wait is refused. -/
  | refused (ready : σ → Bool)

namespace Process

/-- What a process does when it is alone. -/
def deeds : Process σ α → σ → List (Deed σ)
  | done _, _ => []
  | fail _, _ => []
  | emit e p, s => .writes e :: p.deeds s
  | act change p, s => .changes change :: (p s).deeds (change s)
  | pause p, s => .pauses :: p.deeds s
  | await ready p q, s =>
    if ready s then .granted ready :: p.deeds s else .refused ready :: q.deeds s

/-- The process that tells what it has done, `past` before all, and what it would have ended
with. -/
def told (past : List (Deed σ)) : Process σ α → Process σ (List (Deed σ) × Except Fault α)
  | done a => .done (past, .ok a)
  | fail f => .done (past, .error f)
  | emit e p => .emit e (p.told (past ++ [.writes e]))
  | act change p => .act change fun s => (p s).told (past ++ [.changes change])
  | pause p => .pause (p.told (past ++ [.pauses]))
  | await ready p q =>
    .await ready (p.told (past ++ [.granted ready])) (q.told (past ++ [.refused ready]))

/-- What is told is what it does. -/
theorem run_told (p : Process σ α) (past : List (Deed σ)) (s : σ) : (p.told past).run s =
    ⟨.ok (past ++ p.deeds s, (p.run s).outcome), (p.run s).state, (p.run s).journal⟩ := by
  induction p generalizing past s with
  | done a => simp [told, run, deeds]
  | fail f => simp [told, run, deeds]
  | emit e p ih => simp only [told, run, deeds, ih, List.append_assoc, List.singleton_append]
  | act change p ih => simp only [told, run, deeds, ih, List.append_assoc, List.singleton_append]
  | pause p ih => simp only [told, run, deeds, ih, List.append_assoc, List.singleton_append]
  | await ready p q ihp ihq =>
    simp only [told, run, deeds]
    split
    next => rw [ihp, List.append_assoc, List.singleton_append]
    next => rw [ihq, List.append_assoc, List.singleton_append]

/-- The second process is the first one, which tells what it has done. -/
def IsTold (p : Process σ α) (q : Process σ (List (Deed σ) × Except Fault α)) : Prop :=
  ∃ past, q = p.told past

theorem IsTold.move? {p : Process σ α} {q : Process σ (List (Deed σ) × Except Fault α)}
    (h : IsTold p q) (s : σ) :
    Option.Rel (fun x y => IsTold x.1 y.1 ∧ x.2 = y.2) (p.move? s) (q.move? s) := by
  obtain ⟨past, rfl⟩ := h
  cases p with
  | done a => exact .none
  | fail f => exact .none
  | emit e p => exact .some ⟨⟨_, rfl⟩, rfl⟩
  | act change p => exact .some ⟨⟨_, rfl⟩, rfl⟩
  | pause p => exact .some ⟨⟨_, rfl⟩, rfl⟩
  | await ready p q =>
    simp only [told, Process.move?]
    split
    next => exact .some ⟨⟨_, rfl⟩, rfl⟩
    next => exact .none

theorem IsTold.refuse? {p : Process σ α} {q : Process σ (List (Deed σ) × Except Fault α)}
    (h : IsTold p q) : Option.Rel IsTold p.refuse? q.refuse? := by
  obtain ⟨past, rfl⟩ := h
  cases p with
  | await ready p q => exact .some ⟨_, rfl⟩
  | _ => exact .none

theorem IsTold.ending_eq {p : Process σ α} {q : Process σ (List (Deed σ) × Except Fault α)}
    (h : IsTold p q) : q.ending.bind Prod.snd = p.ending := by
  obtain ⟨past, rfl⟩ := h
  cases p <;> rfl

end Process

/-! ## Crews of processes that follow one another -/

section Options

variable {r : α → β → Prop} {x : Option α} {y : Option β}

theorem rel_flip {r' : β → α → Prop} (h : Option.Rel r x y) (hr : ∀ a b, r a b → r' b a) :
    Option.Rel r' y x := by
  cases h with
  | none => exact .none
  | some h => exact .some (hr _ _ h)

theorem exists_of_rel {a : α} (h : Option.Rel r x y) (hx : x = some a) :
    ∃ b, y = some b ∧ r a b := by
  subst hx
  cases h with
  | some h => exact ⟨_, rfl, h⟩

theorem eq_none_of_rel (h : Option.Rel r x y) (hx : x = none) : y = none := by
  subst hx
  cases h
  rfl

end Options

namespace Crew

/-- Crews follow one another if their processes do. -/
theorem follows_of_forall₂ {T : Process σ α → Process σ β → Prop}
    (hmove : ∀ p q s, T p q → Option.Rel (fun x y => T x.1 y.1 ∧ x.2 = y.2) (p.move? s) (q.move? s))
    (hrefuse : ∀ p q, T p q → Option.Rel T p.refuse? q.refuse?) : Follows (List.Forall₂ T) where
  moves h hc := by
    refine hc.of_forall₂ (fun p q p' hT hp => ?_) h
    obtain ⟨⟨q', r⟩, hq, hT', hr⟩ := exists_of_rel (hmove p q _ hT) hp
    obtain rfl : _ = r := hr
    exact ⟨q', hq, hT'⟩
  refuses h hc := hc.of_forall₂ (fun p q p' hT hp => exists_of_rel (hrefuse p q hT) hp) h
  stuck h s := forall_mem_of_forall₂ (fun p q hT => eq_none_of_rel (hmove p q s hT)) h
  none h := forall_mem_of_forall₂ (fun p q hT => eq_none_of_rel (hrefuse p q hT)) h

theorem follows_told : Follows (List.Forall₂ (Process.IsTold (σ := σ) (α := α))) :=
  follows_of_forall₂ (fun _ _ s h => h.move? s) fun _ _ h => h.refuse?

theorem follows_telling :
    Follows (List.Forall₂ fun q p => Process.IsTold (σ := σ) (α := α) p q) :=
  follows_of_forall₂ (fun _ _ s h => rel_flip (h.move? s) fun _ _ h => ⟨h.1, h.2.symm⟩)
    fun _ _ h => rel_flip h.refuse? fun _ _ h => h

/-- What a crew ends with that tells what its processes have done, without that. -/
def Outcome.plain (o : Outcome σ (List (Deed σ) × Except Fault α)) : Outcome σ α :=
  ⟨o.endings.map fun ending => ending.bind Prod.snd, o.state, o.journal⟩

theorem endings_of_told {ps : List (Process σ α)}
    {qs : List (Process σ (List (Deed σ) × Except Fault α))}
    (h : List.Forall₂ Process.IsTold ps qs) :
    (qs.map Process.ending).map (fun ending => ending.bind Prod.snd) =
      ps.map Process.ending := by
  induction h with
  | nil => rfl
  | cons hp _ ih => rw [List.map_cons, List.map_cons, List.map_cons, ih, hp.ending_eq]

/-- A crew ends in the same ways if its processes tell what they have done. -/
theorem schedule_iff_told {ps : List (Process σ α)} {s : σ} {o : Outcome σ α} :
    Schedule ps s o ↔ ∃ o', Schedule (ps.map (Process.told [])) s o' ∧ o'.plain = o := by
  have hps : List.Forall₂ Process.IsTold ps (ps.map (Process.told [])) :=
    List.forall₂_map_right_iff.mpr (List.forall₂_same.mpr fun p _ => ⟨[], rfl⟩)
  constructor
  · intro ho
    obtain ⟨ps', qs', h, hends, ho'⟩ := follows_told.schedule ho hps
    refine ⟨_, ho', ?_⟩
    rw [Outcome.plain, endings_of_told h, ← hends]
  · rintro ⟨o', ho', rfl⟩
    obtain ⟨qs', ps', h, hends, ho⟩ := follows_telling.schedule ho' hps.flip
    rw [Outcome.plain, hends, endings_of_told h.flip]
    exact ho

end Crew

end TagTemplate
