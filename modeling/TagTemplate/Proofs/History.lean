import Mathlib.Data.List.Induction
import TagTemplate.Proofs.Lookup

/-!
# The history of a registry

A registry tells more than its handlers do : whether an asynchronous one was registered since it
was last empty, even if that one has been replaced. So what holds of a registry in use is said of
it together with its history, which is the handlers registered since then, in order
(`Registry.since`). A request adds to the history what it offers, if that has a name and can be
called (`Request.spec?`); clearing starts it anew with the handlers every registry of these
defaults starts with (`Registry.starters`).

What holds of a registry in view of its history (`Registry.Sound`) is kept by every handler that is
put into it (`Sound.put`), and what its names begin with stays their beginning
(`names_prefix_putAll`). A registry starts as what the starting handlers make of an empty one
(`registry_new`), and clearing brings it back there, whatever was put in (`clear_putAll`). Which
names and handlers these are is told by the list of the starting handlers alone
(`names_putAll_vacant`, `findExact?_putAll_vacant`).
-/

namespace TagTemplate

variable {B : Type}

namespace Registry

/-! ## Requests -/

/-- What changes a registry. -/
inductive Request (B : Type) where
  /-- It registers a handler with the given marks. -/
  | register (offer : Offer B) (isAsync builtin : Bool)
  /-- It registers a handler, marked asynchronous if that is declared so. -/
  | add (offer : Offer B)
  /-- It brings the registry back to its start. -/
  | clear

/-- The change that a request makes. -/
def Request.change (r : Registry B) : Request B → Change B
  | .register offer isAsync builtin => r.register offer isAsync builtin
  | .add offer => r.add offer
  | .clear => r.clear

/-- The registry after requests, each of which may have failed. -/
def after (r : Registry B) (requests : List (Request B)) : Registry B :=
  requests.foldl (fun r q => (q.change r).registry) r

end Registry

/-- The handler that an offer registers with the given marks, if its name is one and there is
something to call. -/
def Offer.spec? (o : Offer B) (isAsync builtin : Bool) : Option (Spec B) :=
  match o.name, o.handler with
  | .text name, some handler =>
    if isName name then some ⟨name, handler, isAsync, builtin, o.description⟩ else none
  | _, _ => none

/-- The handler that an offer registers with the mark that its declaration gives. -/
def Offer.added? (o : Offer B) : Option (Spec B) :=
  o.spec? (o.handler.any Handler.isDeclaredAsync) false

namespace Registry

/-- The handler that a request other than clearing registers, if it registers one. -/
def Request.spec? : Request B → Option (Spec B)
  | .register offer isAsync builtin => offer.spec? isAsync builtin
  | .add offer => offer.added?
  | .clear => none

/-- The handlers that a registry starts with : the engine's own and then the defaults. -/
def starters (defaults : List (Offer B)) : List (Spec B) :=
  builtins.filterMap (fun o => o.spec? false true) ++ defaults.filterMap Offer.added?

/-- The history after one more request, where clearing leads back to `start`. -/
def Request.extend (start history : List (Spec B)) : Request B → List (Spec B)
  | .clear => start
  | q => history ++ q.spec?.toList

/-- The handlers registered since the registry was last empty, in order, when it was made with
`defaults` and then asked for `requests`. -/
def since (defaults : List (Offer B)) (requests : List (Request B)) : List (Spec B) :=
  requests.foldl (fun history q => q.extend (starters defaults) history) (starters defaults)

/-! ## One registration -/

/-- Puts handlers under their names, one after another. -/
def putAll (r : Registry B) (specs : List (Spec B)) : Registry B :=
  specs.foldl put r

theorem putAll_append (r : Registry B) (specs others : List (Spec B)) :
    r.putAll (specs ++ others) = (r.putAll specs).putAll others :=
  List.foldl_append

section Register

variable (r : Registry B) (o : Offer B) (isAsync builtin : Bool)

theorem isName_of_spec? {s : Spec B} (h : o.spec? isAsync builtin = some s) :
    isName s.name = true := by
  unfold Offer.spec? at h
  split at h
  · split at h
    next hname =>
      obtain rfl := Option.some.inj h
      exact hname
    next => cases h
  · cases h

/-- A registration puts in the offered handler if there is one, and leaves the registry as it is
otherwise. -/
theorem registry_register :
    (r.register o isAsync builtin).registry = r.putAll (o.spec? isAsync builtin).toList := by
  obtain ⟨name, handler, description⟩ := o
  unfold register Offer.spec?
  cases name with
  | text name =>
    dsimp only
    split
    next hname => cases handler <;> simp [hname, putAll]
    next hname => cases handler <;> simp [hname, putAll]
  | _ => rfl

theorem fault_register_eq_none_iff :
    (r.register o isAsync builtin).fault = none ↔ (o.spec? isAsync builtin).isSome = true := by
  obtain ⟨name, handler, description⟩ := o
  unfold register Offer.spec?
  cases name with
  | text name =>
    dsimp only
    split
    next hname => cases handler <;> simp [hname]
    next hname => cases handler <;> simp [hname]
  | _ => simp

/-- With a text for a name, a registration fails because the text is no name, or else because
there is nothing to call. -/
theorem fault_register_text (name : Text) (handler : Option (Handler B)) (description : Text) :
    (r.register ⟨.text name, handler, description⟩ isAsync builtin).fault =
      if isName name then if handler.isSome then none else some (.notCallable name)
      else some (.invalidName (quoted name)) := by
  unfold register
  dsimp only
  split
  next => cases handler <;> rfl
  next => rfl

end Register

/-! ## The registry that a history makes -/

/-- A registry without handlers. -/
def vacant (cwd : Option Text) (defaults : List (Offer B)) : Registry B :=
  ⟨cwd, defaults, [], false⟩

theorem new_eq_clear (cwd : Option Text) (defaults : List (Offer B)) :
    new cwd defaults = (vacant cwd defaults).clear :=
  rfl

/-- What clearing leads to depends on nothing that was registered. -/
theorem clear_putAll (r : Registry B) (specs : List (Spec B)) :
    (r.putAll specs).clear = r.clear := by
  induction specs generalizing r with
  | nil => rfl
  | cons s specs ih => exact ih (r.put s)

theorem Change.thenDo_of_none {c : Change B} (op : Registry B → Change B) (h : c.fault = none) :
    (c.thenDo op).registry = (op c.registry).registry ∧
      (c.thenDo op).fault = (op c.registry).fault := by
  unfold thenDo
  rw [h]
  exact ⟨rfl, rfl⟩

theorem Change.fault_of_thenDo {c : Change B} {op : Registry B → Change B}
    (h : (c.thenDo op).fault = none) : c.fault = none := by
  cases hc : c.fault with
  | none => rfl
  | some f => rw [thenDo, hc, hc] at h; cases h

/-- Operations on offers that are done one after another and all succeed put in what is offered. -/
theorem registry_foldl_thenDo {op : Offer B → Registry B → Change B}
    {spec? : Offer B → Option (Spec B)}
    (hop : ∀ o r, (op o r).registry = r.putAll (spec? o).toList) (offers : List (Offer B))
    (c : Change B) (h : (offers.foldl (fun c o => c.thenDo (op o)) c).fault = none) :
    c.fault = none ∧ (offers.foldl (fun c o => c.thenDo (op o)) c).registry =
      c.registry.putAll (offers.filterMap spec?) := by
  induction offers generalizing c with
  | nil => exact ⟨h, rfl⟩
  | cons o offers ih =>
    obtain ⟨hnone, hrest⟩ := ih _ h
    have hc := Change.fault_of_thenDo hnone
    refine ⟨hc, ?_⟩
    rw [List.foldl_cons, hrest, (Change.thenDo_of_none _ hc).1, hop, ← putAll_append]
    cases hs : spec? o <;> simp [hs]

variable {cwd : Option Text} {defaults : List (Offer B)}

/-- A new registry holds what its starters make. -/
theorem registry_new (h : (new cwd defaults).fault = none) :
    (new cwd defaults).registry = (vacant cwd defaults).putAll (starters defaults) := by
  obtain ⟨hown, hall⟩ := registry_foldl_thenDo
    (fun o r => registry_register r o (o.handler.any Handler.isDeclaredAsync) false) defaults _ h
  obtain ⟨-, hbuiltins⟩ := registry_foldl_thenDo
    (fun o r => registry_register r o false true) builtins _ hown
  rw [starters, putAll_append]
  exact hall.trans (congrArg (putAll · _) hbuiltins)

/-! ## What holds of a registry and its history -/

section PutSpec

variable (s : Spec B) (specs : List (Spec B))

/-- What is found after a handler was put in : that handler under its name, and what was found
before under any other. -/
theorem findExact?_putSpec (name : Text) : findExact? name (putSpec s specs) =
    if s.name = name then some s else findExact? name specs := by
  induction specs with
  | nil => simp [putSpec, findExact?]
  | cons first specs ih =>
    rw [putSpec]
    split
    next hname => rw [findExact?, findExact?, hname]; split <;> simp_all
    next hname =>
      rw [findExact?, findExact?, ih]
      split
      next hfirst => rw [if_neg]; rintro rfl; exact hname hfirst
      next => rfl

/-- A name that is there keeps its place, and a new one goes to the end. -/
theorem names_putSpec : (putSpec s specs).map Spec.name =
    if s.name ∈ specs.map Spec.name then specs.map Spec.name
    else specs.map Spec.name ++ [s.name] := by
  induction specs with
  | nil => simp [putSpec]
  | cons first specs ih =>
    rw [putSpec]
    split
    next hname => simp [hname]
    next hname =>
      rw [List.map_cons, ih, List.map_cons]
      simp only [List.mem_cons, Ne.symm hname, false_or]
      split <;> rfl

theorem mem_of_mem_putSpec {s t : Spec B} {specs : List (Spec B)} (h : t ∈ putSpec s specs) :
    t = s ∨ t ∈ specs := by
  induction specs with
  | nil => exact .inl (List.mem_singleton.mp h)
  | cons first specs ih =>
    rw [putSpec] at h
    split at h
    next =>
      rcases List.mem_cons.mp h with rfl | h
      · exact .inl rfl
      · exact .inr (List.mem_cons_of_mem _ h)
    next =>
      rcases List.mem_cons.mp h with rfl | h
      · exact .inr (List.mem_cons_self ..)
      · exact (ih h).imp_right (List.mem_cons_of_mem _)

end PutSpec

/-- What holds of a registry in which `history` was registered since it was last empty. -/
structure Sound (r : Registry B) (history : List (Spec B)) : Prop where
  /-- What is kept under a name has that name, and it is a name that tags can have. -/
  named : ∀ name s, findExact? name r.specs = some s → s.name = name ∧ isName name = true
  /-- No name is listed twice. -/
  nodup : r.names.Nodup
  /-- What is registered is from the history. -/
  held : ∀ s ∈ r.specs, s ∈ history
  /-- An asynchronous handler is remembered exactly if there was one. -/
  flag : r.hasAsync = true ↔ ∃ s ∈ history, s.isAsync = true
  /-- While none is remembered, none is registered. -/
  quiet : r.hasAsync = false → ∀ s ∈ r.specs, s.isAsync = false

theorem sound_vacant (cwd : Option Text) (defaults : List (Offer B)) :
    Sound (vacant cwd defaults) [] where
  named name s h := by cases h
  nodup := List.nodup_nil
  held s h := by cases h
  flag := by simp [vacant]
  quiet _ s h := by cases h

theorem Sound.put {r : Registry B} {history : List (Spec B)} (h : Sound r history) {s : Spec B}
    (hs : isName s.name = true) : Sound (r.put s) (history ++ [s]) where
  named name t ht := by
    rw [Registry.put, findExact?_putSpec] at ht
    split at ht
    next hname =>
      obtain rfl := Option.some.inj ht
      exact ⟨hname, hname ▸ hs⟩
    next => exact h.named name t ht
  nodup := by
    have hnodup := h.nodup
    rw [names] at hnodup
    rw [names, Registry.put, names_putSpec]
    split
    next => exact hnodup
    next hnew =>
      refine List.nodup_append.mpr ⟨hnodup, by simp, fun a ha b hb => ?_⟩
      rw [List.mem_singleton.mp hb]
      exact fun hsame => hnew (hsame ▸ ha)
  held t ht := by
    rcases mem_of_mem_putSpec ht with rfl | ht
    · exact List.mem_append_right _ (List.mem_singleton_self t)
    · exact List.mem_append_left _ (h.held t ht)
  flag := by
    rw [Registry.put, Bool.or_eq_true, h.flag]
    simp [or_and_right, exists_or]
  quiet hflag t ht := by
    obtain ⟨hr, hs⟩ := Bool.or_eq_false_iff.mp hflag
    rcases mem_of_mem_putSpec ht with rfl | ht
    · exact hs
    · exact h.quiet hr t ht

theorem Sound.putAll {r : Registry B} {history specs : List (Spec B)} (h : Sound r history)
    (hspecs : ∀ s ∈ specs, isName s.name = true) : Sound (r.putAll specs) (history ++ specs) := by
  induction specs generalizing r history with
  | nil => rwa [List.append_nil]
  | cons s specs ih =>
    have := ih (h.put (hspecs s (List.mem_cons_self ..)))
      fun t ht => hspecs t (List.mem_cons_of_mem _ ht)
    rwa [List.append_assoc] at this

/-- However many handlers are put in, the names that were listed stay the first ones. -/
theorem names_prefix_putAll (r : Registry B) (specs : List (Spec B)) :
    r.names <+: (r.putAll specs).names := by
  induction specs generalizing r with
  | nil => exact List.prefix_refl _
  | cons s specs ih =>
    refine List.IsPrefix.trans ?_ (ih (r.put s))
    rw [names, names, Registry.put, names_putSpec]
    split
    · exact List.prefix_refl _
    · exact List.prefix_append ..

theorem hasAsync_putAll (r : Registry B) (specs : List (Spec B)) (h : r.hasAsync = true) :
    (r.putAll specs).hasAsync = true := by
  induction specs generalizing r with
  | nil => exact h
  | cons s specs ih => exact ih (r.put s) (by simp [Registry.put, h])

/-! ## Registries in use -/

/-- The names of the engine's own handlers. -/
def ownNames : List Text :=
  [['c', 'w', 'd'], ['d', 'a', 't', 'e'], ['t', 'i', 'm', 'e']]

/-- What holds of a registry that was made with a working directory and defaults, whatever it has
been asked for since. -/
structure InUse (cwd : Option Text) (defaults : List (Offer B)) (r : Registry B)
    (history : List (Spec B)) : Prop extends Sound r history where
  /-- The engine's own names are listed first. -/
  own : ownNames <+: r.names
  /-- Clearing makes it as new. -/
  clears : r.clear = new cwd defaults

theorem isName_of_mem_filterMap {spec? : Offer B → Option (Spec B)}
    (h : ∀ o s, spec? o = some s → isName s.name = true) {offers : List (Offer B)} :
    ∀ s ∈ offers.filterMap spec?, isName s.name = true := by
  intro s hs
  obtain ⟨o, -, ho⟩ := List.mem_filterMap.mp hs
  exact h o s ho

theorem isName_of_mem_starters : ∀ s ∈ starters defaults, isName s.name = true := by
  intro s hs
  rcases List.mem_append.mp hs with hs | hs
  · exact isName_of_mem_filterMap (fun o _ => isName_of_spec? o false true) s hs
  · exact isName_of_mem_filterMap (fun o _ => isName_of_spec? o _ false) s hs

theorem InUse.putAll {r : Registry B} {history specs : List (Spec B)}
    (h : InUse cwd defaults r history) (hspecs : ∀ s ∈ specs, isName s.name = true) :
    InUse cwd defaults (r.putAll specs) (history ++ specs) where
  toSound := h.toSound.putAll hspecs
  own := h.own.trans (names_prefix_putAll r specs)
  clears := (clear_putAll r specs).trans h.clears

theorem names_builtins (cwd : Option Text) (defaults : List (Offer B)) :
    ((vacant cwd defaults).putAll (builtins.filterMap fun o => o.spec? false true)).names =
      ownNames := by
  rfl

theorem inUse_new (h : (new cwd defaults).fault = none) :
    InUse cwd defaults (new cwd defaults).registry (starters defaults) := by
  rw [registry_new h]
  refine ⟨(sound_vacant cwd defaults).putAll isName_of_mem_starters, ?_, ?_⟩
  · rw [starters, putAll_append]
    rw [← names_builtins cwd defaults]
    exact names_prefix_putAll _ _
  · rw [clear_putAll, new_eq_clear]

/-- A request keeps it so, with the history that the request leads to. -/
theorem InUse.change {r : Registry B} {history : List (Spec B)} (h : InUse cwd defaults r history)
    (hnew : (new cwd defaults).fault = none) (q : Request B) :
    InUse cwd defaults (q.change r).registry (q.extend (starters defaults) history) := by
  cases q with
  | register offer isAsync builtin =>
    rw [Request.change, registry_register]
    refine h.putAll fun s hs => ?_
    exact isName_of_spec? offer isAsync builtin (Option.mem_toList.mp hs)
  | add offer =>
    rw [Request.change, add, registry_register]
    refine h.putAll fun s hs => ?_
    exact isName_of_spec? offer _ false (Option.mem_toList.mp hs)
  | clear =>
    rw [Request.change, h.clears]
    exact inUse_new hnew

/-- After any requests, it is so. -/
theorem inUse_after (hnew : (new cwd defaults).fault = none) (requests : List (Request B)) :
    InUse cwd defaults ((new cwd defaults).registry.after requests) (since defaults requests) := by
  suffices key : ∀ r history, InUse cwd defaults r history → InUse cwd defaults (r.after requests)
      (requests.foldl (fun history q => q.extend (starters defaults) history) history) from
    key _ _ (inUse_new hnew)
  induction requests with
  | nil => exact fun _ _ h => h
  | cons q requests ih => exact fun r history h => ih _ _ (h.change hnew q)

/-! ## One request -/

/-- How a registry answers requests. -/
structure Answers (r : Registry B) : Prop where
  /-- A request that fails leaves everything as it is. -/
  unchanged : ∀ q : Request B, (q.change r).fault ≠ none → (q.change r).registry = r
  /-- A request other than clearing succeeds exactly if there is a handler for it to register. -/
  succeeds : ∀ q : Request B, q ≠ .clear → ((q.change r).fault = none ↔ q.spec?.isSome = true)
  /-- Clearing succeeds. -/
  clears : r.clear.fault = none
  /-- Of requests with a text for a name, those with an invalid one are refused for it, and others
  for a handler that cannot be called. -/
  refuses : ∀ (name : Text) (handler : Option (Handler B)) (description : Text)
    (isAsync builtin : Bool) (q : Request B),
    (q = .register ⟨.text name, handler, description⟩ isAsync builtin ∨
      q = .add ⟨.text name, handler, description⟩) →
    ((q.change r).fault = some (.invalidName (quoted name)) ↔ isName name = false) ∧
      ((q.change r).fault = some (.notCallable name) ↔ isName name = true ∧ handler = none) ∧
      ((q.change r).fault = none ↔ isName name = true ∧ handler.isSome = true)

theorem unchanged_of_fault {r : Registry B} {o : Offer B} {isAsync builtin : Bool}
    (h : (r.register o isAsync builtin).fault ≠ none) :
    (r.register o isAsync builtin).registry = r := by
  rw [ne_eq, fault_register_eq_none_iff, Option.not_isSome_iff_eq_none] at h
  rw [registry_register, h]
  rfl

theorem refuses_register (r : Registry B) (name : Text) (handler : Option (Handler B))
    (description : Text) (isAsync builtin : Bool) :
    let fault := (r.register ⟨.text name, handler, description⟩ isAsync builtin).fault
    (fault = some (.invalidName (quoted name)) ↔ isName name = false) ∧
      (fault = some (.notCallable name) ↔ isName name = true ∧ handler = none) ∧
      (fault = none ↔ isName name = true ∧ handler.isSome = true) := by
  rw [fault_register_text]
  cases isName name <;> cases handler <;> simp

theorem InUse.answers {r : Registry B} {history : List (Spec B)}
    (h : InUse cwd defaults r history) (hnew : (new cwd defaults).fault = none) : Answers r where
  unchanged q hq := by
    cases q with
    | register offer isAsync builtin => exact unchanged_of_fault hq
    | add offer => exact unchanged_of_fault hq
    | clear => rw [Request.change, h.clears] at hq; exact absurd hnew hq
  succeeds q hq := by
    cases q with
    | register offer isAsync builtin => exact fault_register_eq_none_iff r offer isAsync builtin
    | add offer => exact fault_register_eq_none_iff r offer _ false
    | clear => exact absurd rfl hq
  clears := by rw [h.clears, hnew]
  refuses name handler description isAsync builtin q hq := by
    rcases hq with rfl | rfl
    · exact refuses_register r name handler description isAsync builtin
    · exact refuses_register r name handler description _ false

/-- Only clearing can make a registry forget that an asynchronous handler was registered. -/
theorem hasAsync_after {r : Registry B} {requests : List (Request B)}
    (hclear : Request.clear ∉ requests) (h : r.hasAsync = true) :
    (r.after requests).hasAsync = true := by
  induction requests generalizing r with
  | nil => exact h
  | cons q requests ih =>
    rw [List.mem_cons, not_or] at hclear
    refine ih hclear.2 ?_
    change (q.change r).registry.hasAsync = true
    cases q with
    | register offer isAsync builtin =>
      rw [Request.change, registry_register]
      exact hasAsync_putAll r _ h
    | add offer =>
      rw [Request.change, add, registry_register]
      exact hasAsync_putAll r _ h
    | clear => exact absurd rfl hclear.1

/-- Whatever a registry has been asked for since it was made, what is kept under a name has that
name, which is a valid one, no name is listed twice, and the engine's own names are listed first.
It remembers an asynchronous handler exactly if one was registered since it was last empty, goes on
remembering it until it is cleared, and holds none while it remembers none. A request that fails
leaves it as it is; requests fail exactly for invalid names and for what cannot be called, and
clearing never fails. -/
theorem inUse_of_requests (hnew : (new cwd defaults).fault = none) (requests : List (Request B)) :
    let r := (new cwd defaults).registry.after requests
    Sound r (since defaults requests) ∧ ownNames <+: r.names ∧
      (∀ more : List (Request B), Request.clear ∉ more → r.hasAsync = true →
        (r.after more).hasAsync = true) ∧
      Answers r := by
  have h := inUse_after hnew requests
  exact ⟨h.toSound, h.own, fun _ => hasAsync_after, h.answers hnew⟩

/-- Offers of which the first takes an own name for an asynchronous handler. -/
def overriding : List (Offer Unit) :=
  [⟨.ofString "date", some (.custom () .declared), []⟩,
    ⟨.ofString "x-1", some (.custom () .direct), []⟩]

/-- Names that are invalid or no texts, something that cannot be called, a handler with a mark of
its own, and one that takes the place of an asynchronous one after clearing. -/
def mixedRequests : List (Request Unit) :=
  [.add ⟨.ofString "a b", some (.custom () .declared), []⟩,
    .register ⟨.int 3, none, []⟩ true true, .add ⟨.ofString "time", none, []⟩,
    .register ⟨.ofString "@", some (.custom () .direct), []⟩ true false, .clear,
    .add ⟨.ofString "date", some (.custom () .direct), []⟩]

theorem inUse_of_requests_overriding : (new none overriding).fault = none ∧
    Sound ((new none overriding).registry.after mixedRequests) (since overriding mixedRequests) ∧
    ((new none overriding).registry.after mixedRequests).hasAsync = true ∧
    Answers ((new none overriding).registry.after mixedRequests) := by
  have hnew : (new none overriding).fault = none := rfl
  obtain ⟨hsound, -, -, hanswers⟩ := inUse_of_requests hnew mixedRequests
  have hdate : (since overriding mixedRequests)[3]? =
      some ⟨['d', 'a', 't', 'e'], .custom () .declared, true, false, []⟩ := rfl
  exact ⟨hnew, hsound, hsound.flag.mpr ⟨_, List.mem_of_getElem? hdate, rfl⟩, hanswers⟩

/-! ## Clearing -/

/-- The names of handlers put in are those of the handlers, each at the place where it occurs
first. -/
theorem names_putAll_vacant (cwd : Option Text) (defaults : List (Offer B))
    (specs : List (Spec B)) :
    ((vacant cwd defaults).putAll specs).names = (specs.map Spec.name).eraseDups := by
  induction specs using List.reverseRecOn with
  | nil => rfl
  | append_singleton specs s ih =>
    have hput : ((vacant cwd defaults).putAll (specs ++ [s])).names =
        (putSpec s ((vacant cwd defaults).putAll specs).specs).map Spec.name := by
      rw [putAll_append]
      rfl
    rw [names] at ih
    rw [hput, names_putSpec, ih, List.map_append]
    exact (eraseDups_concat _ s.name).symm

/-- Under each name is the last handler that was put in there. -/
theorem findExact?_putAll_vacant (cwd : Option Text) (defaults : List (Offer B))
    (specs : List (Spec B)) (name : Text) :
    findExact? name ((vacant cwd defaults).putAll specs).specs =
      specs.reverse.find? fun s => s.name = name := by
  induction specs using List.reverseRecOn with
  | nil => rfl
  | append_singleton specs s ih =>
    rw [putAll_append, List.reverse_append]
    refine (findExact?_putSpec s _ name).trans ?_
    rw [ih]
    by_cases h : s.name = name <;> simp [h]

/-- Whatever a registry has been asked for since it was made, clearing it does not fail, and makes
it the registry that is made anew with the same working directory and defaults. That has the names
of the engine's own handlers and then of the defaults, each at the place where it occurs first and
with the last handler of that name, and remembers an asynchronous handler exactly if one of these
handlers is asynchronous. -/
theorem clear_of_requests (hnew : (new cwd defaults).fault = none) (requests : List (Request B)) :
    let r := (new cwd defaults).registry.after requests
    r.clear.fault = none ∧ r.clear = new cwd defaults ∧
      r.clear.registry.names = ((starters defaults).map Spec.name).eraseDups ∧
      (∀ name, findExact? name r.clear.registry.specs =
        (starters defaults).reverse.find? fun s => s.name = name) ∧
      (r.clear.registry.hasAsync = true ↔ ∃ s ∈ starters defaults, s.isAsync = true) := by
  have hclear := (inUse_after hnew requests).clears
  have hstart := (inUse_new hnew).toSound
  intro r
  refine ⟨hclear ▸ hnew, hclear, ?_, fun name => ?_, hclear ▸ hstart.flag⟩
  · rw [hclear, registry_new hnew, names_putAll_vacant]
  · rw [hclear, registry_new hnew, findExact?_putAll_vacant]

theorem clear_of_requests_overriding : (new none overriding).fault = none ∧
    let r := (new none overriding).registry.after mixedRequests
    r.clear.fault = none ∧ r.clear = new none overriding ∧
      r.clear.registry.names =
        [['c', 'w', 'd'], ['d', 'a', 't', 'e'], ['t', 'i', 'm', 'e'], ['x', '-', '1']] ∧
      r.clear.registry.hasAsync = true := by
  have hnew : (new none overriding).fault = none := rfl
  obtain ⟨hfault, hclear, hnames, -, hflag⟩ := clear_of_requests hnew mixedRequests
  have hdate : (starters overriding)[3]? =
      some ⟨['d', 'a', 't', 'e'], .custom () .declared, true, false, []⟩ := rfl
  exact ⟨hnew, hfault, hclear, hnames.trans (by decide +kernel),
    hflag.mpr ⟨_, List.mem_of_getElem? hdate, rfl⟩⟩

end Registry

end TagTemplate
