import TagTemplate.Proofs.Grammar
import TagTemplate.Registry

/-!
# Looking handlers up

What `Registry.find?` finds is registered (`mem_of_find?`), and it finds a handler for a name
exactly if the name is one of the registered names (`isSome_find?_iff`). So what is found under a
name depends on the names alone, up to what is kept beside them (`map_name_find?_congr`).
-/

namespace TagTemplate

/-- One more name goes to the end of the different ones, unless it is there. -/
theorem eraseDups_concat (names : List Text) (name : Text) :
    (names ++ [name]).eraseDups =
      if name ∈ names.eraseDups then names.eraseDups else names.eraseDups ++ [name] := by
  rw [List.eraseDups_append]
  simp only [List.mem_eraseDups]
  split
  next h => simp [List.removeAll, h]
  next h => simp [List.removeAll, h, List.eraseDups_cons]

namespace Registry

variable {B : Type} {name : Text}

theorem mem_of_findExact? {spec : Spec B} :
    ∀ {specs : List (Spec B)}, findExact? name specs = some spec → spec ∈ specs
  | [], h => by cases h
  | first :: specs, h => by
    rw [findExact?] at h
    split at h
    · obtain rfl := Option.some.inj h
      exact List.mem_cons_self ..
    · exact List.mem_cons_of_mem _ (mem_of_findExact? h)

theorem mem_of_find? {r : Registry B} {spec : Spec B} (h : r.find? name = some spec) :
    spec ∈ r.specs :=
  mem_of_findExact? h

theorem name_of_findExact? {spec : Spec B} :
    ∀ {specs : List (Spec B)}, findExact? name specs = some spec → spec.name = name
  | [], h => by cases h
  | first :: specs, h => by
    rw [findExact?] at h
    split at h
    next hname =>
      obtain rfl := Option.some.inj h
      exact hname
    next => exact name_of_findExact? h

theorem isSome_findExact?_iff {specs : List (Spec B)} :
    (findExact? name specs).isSome = true ↔ name ∈ specs.map Spec.name := by
  induction specs with
  | nil => simp [findExact?]
  | cons s specs ih =>
    rw [findExact?, List.map_cons, List.mem_cons]
    split
    next h => simp [h]
    next h => rw [ih]; simp [Ne.symm h]

/-- Registries with the same names find handlers for the same names, and under the same. -/
theorem map_name_find?_congr {B' : Type} {r : Registry B} {r' : Registry B'}
    (h : ∀ name, name ∈ r.names ↔ name ∈ r'.names) (name : Text) :
    (r.find? name).map Spec.name = (r'.find? name).map Spec.name := by
  have hsome : (r.find? name).isSome = true ↔ (r'.find? name).isSome = true :=
    isSome_findExact?_iff.trans ((h _).trans isSome_findExact?_iff.symm)
  cases hr : r.find? name with
  | none =>
    cases hr' : r'.find? name with
    | none => rfl
    | some spec' => simp [hr, hr'] at hsome
  | some spec =>
    cases hr' : r'.find? name with
    | none => simp [hr, hr'] at hsome
    | some spec' =>
      exact congrArg some ((name_of_findExact? hr).trans (name_of_findExact? hr').symm)

/-- A name has a handler exactly if it is one of the registered names. -/
theorem isSome_find?_iff (r : Registry B) (h : isName name = true) :
    (r.find? name).isSome = true ↔ name ∈ r.names := by
  rw [find?, trim_of_isName h, isSome_findExact?_iff]
  rfl

end Registry

end TagTemplate
