import Mathlib
import TagTemplate.Command.Script
import TagTemplate.Proofs.Runs

/-!
# Machines

`Script.runIn` makes the run of a script on a `FileStore`, where an operation fails only for what
the store shows. A `Machine` is whatever answers the operations of scripts : it may refuse any of
them for reasons of its own, such as missing rights, and is held only to what files are. Reading
gives the bytes of the file that the path names, a directory that is made changes no file, a write
either changes nothing or writes the one file that its path names, and neither leads a path
elsewhere.

`Script.on` makes the run of a script on a machine (`on_bind`). A store is a machine
(`FileStore.machine`), and a run on it is the run of the script (`runIn_machine`).
-/

namespace TagTemplate

/-- What answers the operations of scripts, with states `M` and files `F`. -/
structure Machine (M F : Type) where
  /-- What a path is. -/
  kind : M → Path → Except FileFault (Option FileKind)
  /-- The absolute path of a path. -/
  resolve : M → Path → Path
  /-- The bytes of a file. -/
  read : M → Path → Except FileFault (List UInt8)
  /-- Makes a directory and those on the way to it. -/
  makeDirectories : M → Path → Option FileFault × M
  /-- Writes a file. -/
  write : M → Path → List UInt8 → Option FileFault × M
  /-- The file that a path names, there or not. -/
  named? : M → Path → Option F
  /-- The bytes of a file, if it is there. -/
  bytes? : M → F → Option (List UInt8)
  of_read : ∀ {s p bytes}, read s p = .ok bytes →
    ∃ file, named? s p = some file ∧ bytes? s file = some bytes
  bytes?_makeDirectories : ∀ s p, bytes? (makeDirectories s p).2 = bytes? s
  named?_makeDirectories : ∀ {s p q file}, named? s q = some file →
    named? (makeDirectories s p).2 q = some file
  bytes?_of_refused : ∀ {s p bytes}, (write s p bytes).1 ≠ none →
    bytes? (write s p bytes).2 = bytes? s
  of_write : ∀ {s p bytes}, (write s p bytes).1 = none → ∃ file,
    named? (write s p bytes).2 p = some file ∧
      bytes? (write s p bytes).2 file = some bytes ∧
        ∀ other, other ≠ file → bytes? (write s p bytes).2 other = bytes? s other
  named?_write : ∀ {s p bytes q file}, named? s q = some file →
    named? (write s p bytes).2 q = some file
  resolve_makeDirectories : ∀ s p, resolve (makeDirectories s p).2 = resolve s

/-! ## Runs -/

namespace Script

variable {M F α β : Type}

/-- The run of a script on a machine : its result or how it ended, and the state it leaves. -/
def on (m : Machine M F) : Script α → M → Except Ending α × M
  | done a, s => (.ok a, s)
  | stop e, s => (.error e, s)
  | emit _ p, s => p.on m s
  | print _ _ p, s => p.on m s
  | kind path k, s => (k (m.kind s path)).on m s
  | resolve path k, s => (k (m.resolve s path)).on m s
  | read path k, s => (k (m.read s path)).on m s
  | makeDirectories path k, s =>
    (k (m.makeDirectories s path).1).on m (m.makeDirectories s path).2
  | write path bytes k, s => (k (m.write s path bytes).1).on m (m.write s path bytes).2

/-- How a run ends. One that gives a result ends well. -/
def ending : Except Ending α → Ending
  | .ok _ => .exit 0
  | .error e => e

theorem on_bind (m : Machine M F) (p : Script α) (next : α → Script β) (s : M) :
    (p.bind next).on m s = match p.on m s with
      | (.ok a, t) => (next a).on m t
      | (.error e, t) => (.error e, t) := by
  induction p generalizing s with
  | done a => rfl
  | stop e => rfl
  | emit e p ih => exact ih s
  | print stream text p ih => exact ih s
  | kind path k ih => exact ih _ s
  | resolve path k ih => exact ih _ s
  | read path k ih => exact ih _ s
  | makeDirectories path k ih => exact ih _ _
  | write path bytes k ih => exact ih _ _

end Script

/-! ## Stores -/

namespace FileStore

variable {s t u : FileStore} {place : Place} {p : Path}

theorem lookup_put (place q : Place) (e : FileEntry) : ∀ entries : List (Place × FileEntry),
    (put place e entries).lookup q = if q = place then some e else entries.lookup q
  | [] => by
    by_cases hq : q = place
    · simp [put, hq]
    · simp [put, List.lookup, hq, beq_eq_false_iff_ne.mpr hq]
  | (r, d) :: entries => by
    have ih := lookup_put place q e entries
    by_cases hr : r = place
    · subst hr
      by_cases hq : q = r
      · simp [put, hq]
      · simp [put, List.lookup, hq, beq_eq_false_iff_ne.mpr hq]
    · rw [put, if_neg hr]
      by_cases hq : q = r
      · subst hq
        simp [hr]
      · simp only [List.lookup, beq_eq_false_iff_ne.mpr hq, ih]

/-- A place that is not the root gets the entry that is put there, and all others keep theirs. -/
theorem entry?_put (hplace : place ≠ []) (e : FileEntry) (q : Place) :
    FileStore.entry? { s with entries := put place e s.entries } q =
      if q = place then some e else s.entry? q := by
  unfold FileStore.entry?
  simp only [lookup_put]
  cases q with
  | nil => simp [hplace.symm]
  | cons part q => simp

theorem ne_nil_of_not_directory (h : s.entry? place ≠ some .directory) : place ≠ [] := by
  rintro rfl
  exact h rfl

/-- The bytes of the file at a place, if one is there. -/
def bytesAt? (s : FileStore) (place : Place) : Option (List UInt8) :=
  match s.entry? place with
  | some (.file bytes) => some bytes
  | _ => none

/-- `s.Within t` : every directory of `s` is one of `t`, and relative paths start at the same
place. -/
structure Within (s t : FileStore) : Prop where
  current : t.current = s.current
  directory : ∀ place, s.entry? place = some .directory → t.entry? place = some .directory

theorem Within.refl (s : FileStore) : s.Within s :=
  ⟨rfl, fun _ => id⟩

theorem Within.trans (h : s.Within t) (h' : t.Within u) : s.Within u :=
  ⟨h'.current.trans h.current, fun place hd => h'.directory place (h.directory place hd)⟩

/-- An entry put where no directory is. -/
theorem Within.put (h : s.entry? place ≠ some .directory) (e : FileEntry) :
    s.Within { s with entries := put place e s.entries } := by
  refine ⟨rfl, fun q hq => ?_⟩
  rw [entry?_put (ne_nil_of_not_directory h), if_neg, hq]
  rintro rfl
  exact h hq

/-- With more directories a path still leads where it led. -/
theorem Within.walk (h : s.Within t) : ∀ (parts : List Text) {start place : Place},
    s.walk start parts = .ok place → t.walk start parts = .ok place
  | [], _, _, hw => hw
  | part :: parts, start, place, hw => by
    rw [FileStore.walk] at hw ⊢
    cases he : s.entry? start with
    | none => rw [he] at hw; cases hw
    | some entry =>
      cases entry with
      | file bytes => rw [he] at hw; cases hw
      | directory =>
        simp only [he] at hw
        simp only [h.directory _ he]
        split at hw
        next hup => rw [if_pos hup]; exact h.walk parts hw
        next hup =>
          rw [if_neg hup]
          split at hw
          next => cases hw
          next hlong => rw [if_neg hlong]; exact h.walk parts hw

theorem Within.locate (h : s.Within t) (hl : s.locate p = .ok place) : t.locate p = .ok place := by
  unfold FileStore.locate at hl ⊢
  by_cases hnul : Char.ofNat 0 ∈ p.toText
  · simp [hnul, Except.mapError] at hl
  by_cases hlong : pathLimit ≤ byteLength p.toText
  · simp [hnul, hlong, Except.mapError] at hl
  simp only [hnul, hlong, if_false] at hl ⊢
  rw [h.current]
  cases hw : s.walk (if p.root.isEmpty then s.current else []) p.parts with
  | error cause => rw [hw] at hl; cases hl
  | ok q => rw [h.walk _ hw, ← hl, hw]

theorem Within.resolve (h : s.Within t) : t.resolve = s.resolve := by
  funext p
  rw [FileStore.resolve, FileStore.resolve, h.current]

/-- A directory that is made changes no file. -/
theorem of_makeDirectory (h : s.makeDirectory p = .ok t) :
    s.Within t ∧ t.bytesAt? = s.bytesAt? := by
  rw [makeDirectory] at h
  obtain ⟨place, -, h⟩ := Except.bind_eq_ok_iff.mp h
  cases he : s.entry? place with
  | none =>
    simp only [he, Except.ok.injEq] at h
    subst h
    have hd : s.entry? place ≠ some .directory := by simp [he]
    refine ⟨.put hd _, funext fun q => ?_⟩
    rw [bytesAt?, entry?_put (ne_nil_of_not_directory hd), bytesAt?]
    by_cases hq : q = place
    · simp [hq, he]
    · rw [if_neg hq]
  | some entry =>
    cases entry with
    | directory =>
      simp only [he, Except.ok.injEq] at h
      exact h ▸ ⟨.refl s, rfl⟩
    | file bytes => simp [he] at h

theorem of_makeDirectories (h : s.makeDirectories p = .ok t) :
    s.Within t ∧ t.bytesAt? = s.bytesAt? := by
  induction hn : p.parts.length using Nat.strongRecOn generalizing p t with
  | _ n ih =>
    subst hn
    rw [makeDirectories] at h
    split at h
    next u hu =>
      obtain rfl := Except.ok.inj h
      exact of_makeDirectory hu
    next f hf =>
      split at h
      next hparent =>
        obtain ⟨u, hu, ht⟩ := Except.bind_eq_ok_iff.mp h
        have hlt : p.parent.parts.length < p.parts.length := by
          have := List.length_pos_iff.mpr hparent.2
          simp only [Path.parent, List.length_dropLast]
          omega
        obtain ⟨hw, hb⟩ := ih _ hlt hu rfl
        obtain ⟨hw', hb'⟩ := of_makeDirectory ht
        exact ⟨hw.trans hw', hb'.trans hb⟩
      next => cases h

/-- A file that is written is the one that the path names, and no other file changes. -/
theorem of_write {bytes : List UInt8} (h : s.write p bytes = .ok t) : s.Within t ∧ ∃ place,
    s.locate p = .ok place ∧ t.bytesAt? place = some bytes ∧
      ∀ other, other ≠ place → t.bytesAt? other = s.bytesAt? other := by
  rw [write] at h
  obtain ⟨place, hl, h⟩ := Except.bind_eq_ok_iff.mp h
  have hd : s.entry? place ≠ some .directory := fun hd => by simp [hd] at h
  have ht : t = { s with entries := FileStore.put place (.file bytes) s.entries } := by
    split at h
    next hdir => exact absurd hdir hd
    next => exact (Except.ok.inj h).symm
  subst ht
  refine ⟨.put hd _, place, hl, ?_, fun other hother => ?_⟩
  · rw [bytesAt?, entry?_put (ne_nil_of_not_directory hd), if_pos rfl]
  · rw [bytesAt?, entry?_put (ne_nil_of_not_directory hd), if_neg hother, bytesAt?]

/-- The machine of a store, whose files are places. -/
def machine : Machine FileStore Place where
  kind := kind
  resolve := resolve
  read := read
  makeDirectories s p := Script.changed s (s.makeDirectories p)
  write s p bytes := Script.changed s (s.write p bytes)
  named? s p := (s.locate p).toOption
  bytes? := bytesAt?
  of_read := by
    intro s p bytes h
    rw [read] at h
    obtain ⟨place, hl, h⟩ := Except.bind_eq_ok_iff.mp h
    refine ⟨place, by rw [hl]; rfl, ?_⟩
    rw [bytesAt?]
    split at h <;> simp_all
  bytes?_makeDirectories s p := by
    cases h : s.makeDirectories p with
    | error f => rfl
    | ok t => exact (of_makeDirectories h).2
  named?_makeDirectories := by
    intro s p q place h
    cases hp : s.makeDirectories p with
    | error f => exact h
    | ok t =>
      have hl : s.locate q = .ok place := Except.toOption_eq_some_iff.mp h
      rw [Script.changed, (of_makeDirectories hp).1.locate hl]
      rfl
  bytes?_of_refused := by
    intro s p bytes h
    cases hp : s.write p bytes with
    | error f => rfl
    | ok t => rw [hp] at h; exact absurd rfl h
  of_write := by
    intro s p bytes h
    cases hp : s.write p bytes with
    | error f => rw [hp] at h; cases h
    | ok t =>
      obtain ⟨hw, place, hl, hbytes, hothers⟩ := FileStore.of_write hp
      exact ⟨place, by rw [Script.changed, hw.locate hl]; rfl, hbytes, hothers⟩
  named?_write := by
    intro s p bytes q place h
    cases hp : s.write p bytes with
    | error f => exact h
    | ok t =>
      have hl : s.locate q = .ok place := Except.toOption_eq_some_iff.mp h
      rw [Script.changed, (FileStore.of_write hp).1.locate hl]
      rfl
  resolve_makeDirectories s p := by
    cases hp : s.makeDirectories p with
    | error f => rfl
    | ok t => exact (of_makeDirectories hp).1.resolve

end FileStore

namespace Script

variable {α : Type}

/-- The run of a script on a store is its run on the store's machine. -/
theorem runIn_machine (p : Script α) (s : FileStore) : (p.runIn s).ending =
    ending (p.on FileStore.machine s).1 ∧ (p.runIn s).store = (p.on FileStore.machine s).2 := by
  induction p generalizing s with
  | done a => exact ⟨rfl, rfl⟩
  | stop e => exact ⟨rfl, rfl⟩
  | emit e p ih => exact ih s
  | print stream text p ih => cases stream <;> exact ih s
  | kind path k ih => exact ih _ s
  | resolve path k ih => exact ih _ s
  | read path k ih => exact ih _ s
  | makeDirectories path k ih => exact ih _ _
  | write path bytes k ih => exact ih _ _

end Script

end TagTemplate
