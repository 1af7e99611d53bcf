import TagTemplate.Proofs.History

/-!
# A registry as a map from names

A registry is looked into with any text, of which the blanks at both ends do not count, but it keeps
handlers under exactly the names they came with. The two fit together because no name that is kept
has a blank in it : every listed name is found again, and what is found under it is what is kept
there (`listed_of_sound`). So the ways of asking for a name agree with one another and with the list
(`NameMap`), and a handler that is registered changes what is found under its own name only, with
whatever blanks around it (`Registers`).
-/

namespace TagTemplate

variable {B : Type}

/-! ## Blanks around a text -/

section Trim

variable {u v : Text}

theorem trimEnd_append (s : Text) (hv : ∀ c ∈ v, isBlank c = true) :
    trimEnd (s ++ v) = trimEnd s := by
  rw [trimEnd, List.reverse_append, List.dropWhile_append_of_pos (by simpa using hv), trimEnd]

theorem dropWhile_isBlank_eq_nil (hv : ∀ c ∈ v, isBlank c = true) : v.dropWhile isBlank = [] :=
  List.dropWhile_eq_nil_iff.mpr hv

/-- Trimming removes the blanks that surround a text, and then what it removes from the text
alone. -/
theorem trim_append_append (hu : ∀ c ∈ u, isBlank c = true) (s : Text)
    (hv : ∀ c ∈ v, isBlank c = true) : trim (u ++ s ++ v) = trim s := by
  rw [trim, List.append_assoc, List.dropWhile_append_of_pos hu, List.dropWhile_append]
  split
  next hs => rw [dropWhile_isBlank_eq_nil hv, trim, List.isEmpty_iff.mp hs]
  next => rw [trimEnd_append _ hv, trim]

end Trim

/-- The request to register a handler just as it is. -/
def Spec.request (s : Spec B) : Registry.Request B :=
  .register ⟨.text s.name, some s.handler, s.description⟩ s.isAsync s.builtin

namespace Registry

/-! ## Asking for names -/

/-- The handler of a name, without what is kept beside it. -/
def handler? (r : Registry B) (name : Text) : Option (Handler B) :=
  (r.find? name).map Spec.handler

/-- The number of registered handlers. -/
def size (r : Registry B) : Nat :=
  r.specs.length

/-- The ways of asking for a name agree. -/
structure NameMap (r : Registry B) : Prop where
  /-- A name is found exactly if it is listed, blanks around it aside. -/
  found : ∀ name, (r.find? name).isSome = true ↔ trim name ∈ r.names
  /-- Its handler is there in the same cases. -/
  handled : ∀ name, (r.handler? name).isSome = true ↔ trim name ∈ r.names
  /-- So is the answer that the name is registered. -/
  held : ∀ name, r.holds (.text name) = true ↔ trim name ∈ r.names
  /-- Blanks around a name change none of the answers. -/
  blanks : ∀ (u name v : Text), (∀ c ∈ u, isBlank c = true) → (∀ c ∈ v, isBlank c = true) →
    r.find? (u ++ name ++ v) = r.find? name ∧ r.handler? (u ++ name ++ v) = r.handler? name ∧
      r.holds (.text (u ++ name ++ v)) = r.holds (.text name)
  /-- Under the listed names the registered handlers are found, in order. -/
  listed : r.names.map r.find? = r.specs.map some
  /-- No name is listed twice. -/
  nodup : r.names.Nodup
  /-- There are as many handlers as names. -/
  size : r.size = r.names.length

/-- The registry `r'` is `r` with `s` registered. -/
structure Registers (r : Registry B) (s : Spec B) (r' : Registry B) : Prop where
  /-- The handler is found under its name, blanks around it aside, and under every other name there
  is what was there before. -/
  found : ∀ name, r'.find? name = if trim name = s.name then some s else r.find? name
  /-- A name that is replaced keeps its place. -/
  replaced : s.name ∈ r.names → r'.names = r.names
  /-- A new name goes to the end. -/
  appended : s.name ∉ r.names → r'.names = r.names ++ [s.name]

/-! ## The laws -/

theorem isSome_find?_iff_trim (r : Registry B) (name : Text) :
    (r.find? name).isSome = true ↔ trim name ∈ r.names :=
  isSome_findExact?_iff

/-- If no name occurs twice, each is found where it is listed. -/
theorem map_findExact?_names {specs : List (Spec B)} (h : (specs.map Spec.name).Nodup) :
    specs.map (fun s => findExact? s.name specs) = specs.map some := by
  induction specs with
  | nil => rfl
  | cons first specs ih =>
    rw [List.map_cons, List.nodup_cons] at h
    have hrest : ∀ s ∈ specs, findExact? s.name (first :: specs) = findExact? s.name specs := by
      intro s hs
      rw [findExact?, if_neg]
      intro hsame
      exact h.1 (hsame ▸ List.mem_map_of_mem hs)
    rw [List.map_cons, List.map_cons, ← ih h.2, List.map_congr_left hrest, findExact?, if_pos rfl]

/-- What is kept under a name is found under it, though names are trimmed when they are looked
up. -/
theorem listed_of_sound {r : Registry B} {history : List (Spec B)} (h : Sound r history) :
    r.names.map r.find? = r.specs.map some := by
  have htrim : ∀ s ∈ r.specs, r.find? s.name = findExact? s.name r.specs := by
    intro s hs
    have hsome := isSome_findExact?_iff.mpr (List.mem_map_of_mem (f := Spec.name) hs)
    obtain ⟨t, ht⟩ := Option.isSome_iff_exists.mp hsome
    rw [find?, trim_of_isName (h.named s.name t ht).2]
  rw [← map_findExact?_names h.nodup, names, List.map_map]
  exact List.map_congr_left htrim

theorem nameMap_of_sound {r : Registry B} {history : List (Spec B)} (h : Sound r history) :
    NameMap r where
  found := r.isSome_find?_iff_trim
  handled name := by rw [handler?, Option.isSome_map, isSome_find?_iff_trim]
  held := r.isSome_find?_iff_trim
  blanks u name v hu hv := by
    have htrim : r.find? (u ++ name ++ v) = r.find? name := by
      rw [find?, trim_append_append hu name hv, find?]
    exact ⟨htrim, congrArg (Option.map Spec.handler) htrim, congrArg Option.isSome htrim⟩
  listed := listed_of_sound h
  nodup := h.nodup
  size := (List.length_map _).symm

theorem registers_put (r : Registry B) (s : Spec B) : Registers r s (r.put s) where
  found name := by
    rw [find?, put, findExact?_putSpec]
    exact if_congr eq_comm rfl rfl
  replaced h := (names_putSpec s r.specs).trans (if_pos h)
  appended h := (names_putSpec s r.specs).trans (if_neg h)

/-- What is accepted comes with a name that tags can have. -/
theorem isName_of_fault {r : Registry B} {s : Spec B} (h : (s.request.change r).fault = none) :
    isName s.name = true := by
  rw [Spec.request, Request.change, fault_register_text] at h
  cases hn : isName s.name with
  | true => rfl
  | false => rw [hn] at h; cases h

/-- What an accepted request registers is put in. -/
theorem registry_of_fault {r : Registry B} {s : Spec B} (h : (s.request.change r).fault = none) :
    (s.request.change r).registry = r.put s := by
  have hspec : (Offer.mk (.text s.name) (some s.handler) s.description).spec? s.isAsync s.builtin =
      some s :=
    if_pos (isName_of_fault h)
  rw [Spec.request, Request.change, registry_register, hspec]
  rfl

variable {cwd : Option Text} {defaults : List (Offer B)}

/-- Whatever a registry has been asked for since it was made, a name is found, has a handler and is
said to be registered in the same cases, which are those in which it is listed without the blanks
around it; the number of handlers is that of the listed names. A handler that is accepted is then
found under its name and changes nothing under any other, and its name keeps its place if it was
listed and goes to the end otherwise. -/
theorem nameMap_of_requests (hnew : (new cwd defaults).fault = none)
    (requests : List (Request B)) :
    let r := (new cwd defaults).registry.after requests
    NameMap r ∧ ∀ s : Spec B, (s.request.change r).fault = none →
      Registers r s (s.request.change r).registry ∧ NameMap (s.request.change r).registry := by
  intro r
  have hmap (requests : List (Request B)) :
      NameMap ((new cwd defaults).registry.after requests) :=
    nameMap_of_sound (inUse_after hnew requests).toSound
  refine ⟨hmap requests, fun s haccepted => ⟨?_, ?_⟩⟩
  · rw [registry_of_fault haccepted]
    exact registers_put r s
  · have hone := hmap (requests ++ [s.request])
    rwa [after, List.foldl_append] at hone

/-- A handler that takes the place of another one and is found with a tab and a wide space around
its name, and one of a new name. -/
theorem nameMap_of_requests_overriding : (new none overriding).fault = none ∧
    let r := (new none overriding).registry.after mixedRequests
    let date : Spec Unit := ⟨['d', 'a', 't', 'e'], .custom () .undeclared, true, false, []⟩
    let fresh : Spec Unit := ⟨['@', '-'], .builtin .cwd, false, true, []⟩
    NameMap r ∧ (date.request.change r).fault = none ∧
      (date.request.change r).registry.find? "\tdate\u3000".toList = some date ∧
      (date.request.change r).registry.names = r.names ∧
      (fresh.request.change r).fault = none ∧
      (fresh.request.change r).registry.names = r.names ++ [['@', '-']] := by
  have hnew : (new none overriding).fault = none := rfl
  obtain ⟨hmap, hregister⟩ := nameMap_of_requests hnew mixedRequests
  have hdate := (hregister ⟨['d', 'a', 't', 'e'], .custom () .undeclared, true, false, []⟩ rfl).1
  have hfresh := (hregister ⟨['@', '-'], .builtin .cwd, false, true, []⟩ rfl).1
  exact ⟨hnew, hmap, rfl, (hdate.found _).trans (if_pos (by decide)), hdate.replaced (by decide),
    rfl, hfresh.appended (by decide)⟩

end Registry

end TagTemplate
