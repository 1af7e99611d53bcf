import TagTemplate.Proofs.Locality
import TagTemplate.Proofs.NameMap

/-!
# Names that tags can have

A handler is registered under a name that `isName` accepts, and a tag is read with a name that the
grammar spells. The two rules are said apart, and they agree : the names that are accepted are
exactly those of the matches of all texts (`isName_iff_matched`). One text is enough to see it, the
opening of a tag with nothing around it.

Such an opening alone is one tag without a content (`Opening.Spells.leftmost`), whatever stands in
it, and if its name is registered its evaluation makes one call, whose result takes the place of the
text (`callsOnce_of_spells`). Blanks around the name are no attributes, and they are not looked up
with the name.
-/

namespace TagTemplate

variable {B σ α : Type}

/-! ## An opening alone -/

/-- Evaluated from the state `s`, the text makes the one call `c`, and what that is answered with
takes the place of the whole text. -/
structure CallsOnce (e : Engine B σ) (d : Driver) (source : Text) (c : Call B) (s : σ) : Prop where
  /-- The call is made, and no other. -/
  calls : e.calls d source s = [⟨c, s, (d.answer e.perform c).run s⟩]
  /-- Nothing happens but in its answer. -/
  made : Made (d.answer e.perform) s [⟨c, s, (d.answer e.perform c).run s⟩]
    ((e.textBy d source).run s)
  /-- What the result is spliced as is the text that comes out. -/
  replaced : ∀ v text, ((d.answer e.perform c).run s).outcome = .ok v → v.spliced? = some text →
    ∃ found, ((e.textBy d source).run s).outcome = .ok ⟨text, found⟩
  /-- If the call fails, the evaluation fails with the same fault. -/
  failed : ∀ f, ((d.answer e.perform c).run s).outcome = .error f →
    ((e.textBy d source).run s).outcome = .error f

namespace Evaluation

/-- What is spliced asks for no call. -/
theorem executions_splice_bind (perform : Call B → Process σ Value) (v : Value) (f : Text → α)
    (s : σ) : ((splice v).bind fun text => .done (f text)).executions perform s = [] := by
  cases hv : v.spliced? with
  | none => rw [splice_of_none hv]; rfl
  | some text => rw [splice_of_some hv]; rfl

theorem executions_call_splice (perform : Call B → Process σ Value) (c : Call B) (f : Text → α)
    (s : σ) : (call c fun v => (splice v).bind fun text => .done (f text)).executions perform s =
      [⟨c, s, (perform c).run s⟩] := by
  rw [executions]
  cases ((perform c).run s).outcome with
  | ok v => simp only [executions_splice_bind]
  | error f => rfl

end Evaluation

/-- A tag without a content is replaced by what the handler of its name returns. -/
theorem replaceTag_opening {look : Text → Option (Spec B)} {o : Opening} {spec : Spec B}
    (hplain : o.escaped = false) (hlook : look o.name = some spec) (w : Text) (start : Nat) :
    replaceTag look (Tag.placedAt ⟨o, [], w⟩ start) =
      .call ⟨⟨[], .ofPairs (attributePairs (dropEscapes o.attributeText)), w⟩, spec⟩
        Evaluation.splice := by
  rw [replaceTag_of_known hplain hlook]
  change (evaluate look []).bind _ = _
  rw [evaluate_nil]
  rfl

section Alone

variable {o : Opening} {w : Text} (h : o.Spells w)
include h

variable (hfit : attributesFit o.attributeText = true)
include hfit

theorem matchesOf_of_spells :
    matchesOf (.text w) = .ok [Tag.placedAt ⟨o, [], w⟩ 0] :=
  matchesOf_eq_ok h.leftmost (List.forall_mem_singleton.mpr hfit)

variable {spec : Spec B} (hplain : o.escaped = false)
include hplain

/-- Its evaluation asks for the handler of its name, and is done with what the result is spliced
as. -/
theorem evaluate_of_spells {look : Text → Option (Spec B)} (hlook : look o.name = some spec) :
    evaluate look w = .note (.found 1 w.length)
      (.call ⟨⟨[], .ofPairs (attributePairs (dropEscapes o.attributeText)), w⟩, spec⟩ fun v =>
        (Evaluation.splice v).bind fun text => .done ⟨text, [Tag.placedAt ⟨o, [], w⟩ 0]⟩) := by
  have htag := replaceTag_opening hplain hlook w 0
  rw [evaluate_eq_replaceReading look h.leftmost (List.forall_mem_singleton.mpr hfit), noteFound,
    replaceReading]
  simp [placedFrom, replaceAll, htag, Evaluation.bind_assoc]

theorem callsOnce_of_spells (e : Engine B σ) (d : Driver)
    (hlook : e.registry.find? o.name = some spec) (s : σ) :
    CallsOnce e d w
      ⟨⟨[], .ofPairs (attributePairs (dropEscapes o.attributeText)), w⟩, spec⟩ s := by
  have heval := evaluate_of_spells h hfit hplain hlook
  generalize (⟨⟨[], _, w⟩, spec⟩ : Call B) = c at heval ⊢
  have hcalls : e.calls d w s = [⟨c, s, (d.answer e.perform c).run s⟩] := by
    rw [Engine.calls, heval, Evaluation.executions, Evaluation.executions_call_splice]
  refine ⟨hcalls, hcalls ▸ made_textBy e d w s, fun v text hv htext => ?_, fun f hf => ?_⟩
  · refine ⟨[Tag.placedAt ⟨o, [], w⟩ 0], ?_⟩
    rw [e.textBy_eq, heval, Evaluation.drive, Process.run_emit, Evaluation.drive, Process.run_bind,
      Run.bind, hv]
    simp only [Evaluation.splice_of_some htext, Evaluation.done_bind, Evaluation.drive,
      Process.run_done]
  · rw [e.textBy_eq, heval, Evaluation.drive, Process.run_emit, Evaluation.drive, Process.run_bind,
      Run.bind, hf]

end Alone

/-! ## Names between blanks -/

/-- The opening of a tag with blanks, or nothing, on both sides of its name, and no attributes. -/
def spacedTag (before name after : Text) : Text :=
  '[' :: '@' :: (before ++ (name ++ (after ++ [']'])))

section Spaced

variable {u v name : Text} (hname : isName name = true) (hu : ∀ c ∈ u, isBlank c = true)
  (hv : ∀ c ∈ v, isBlank c = true)

theorem isBracket_of_isBlank {c : Char} (h : isBlank c = true) : isBracket c = false := by
  by_contra hb
  simp only [isBracket, Bool.not_eq_false, Bool.or_eq_true, beq_iff_eq] at hb
  rcases hb with rfl | rfl <;> exact absurd h (by decide)

theorem attributesFit_nil : attributesFit [] = true := by
  rw [attributesFit, attributePairs_nil]
  rfl

include hname hu hv

/-- The blanks behind the name are no attributes. -/
theorem spells_spacedTag : Opening.Spells ⟨false, name, []⟩ (spacedTag u name v) := by
  have htrim : trim v = [] := by
    rw [trim, dropWhile_isBlank_eq_nil hv]
    rfl
  have hspells := Opening.Spells.intro false hu hname (fun c hc => isBracket_of_isBlank (hv c hc))
    fun c hc => hv c (List.mem_of_mem_head? hc)
  rwa [htrim] at hspells

theorem matchesOf_spacedTag : matchesOf (.text (spacedTag u name v)) =
    .ok [⟨name, [], [], spacedTag u name v, false, 0⟩] := by
  rw [matchesOf_of_spells (spells_spacedTag hname hu hv) attributesFit_nil, Tag.placedAt,
    attributePairs_nil]
  rfl

theorem callsOnce_spacedTag (e : Engine B σ) (d : Driver) {spec : Spec B}
    (hlook : e.registry.find? name = some spec) (s : σ) :
    CallsOnce e d (spacedTag u name v) ⟨⟨[], [], spacedTag u name v⟩, spec⟩ s := by
  have honce :=
    callsOnce_of_spells (spells_spacedTag hname hu hv) attributesFit_nil rfl e d hlook s
  rwa [attributePairs_nil] at honce

end Spaced

/-! ## Names of matches -/

/-- The matches of a text are its tags. -/
theorem exists_of_mem_pieces {source : Text} {r : Reading Match}
    (hr : Reading.matchesOfText source = .ok r) {p : Text × Match} (hp : p ∈ r.pieces) :
    ∃ t ∈ (Reading.ofText source).matches, ∃ n, p.2 = t.placedAt n := by
  rcases matchesOfText_cases source with hok | ⟨f, hf⟩
  · obtain rfl := Except.ok.inj (hr.symm.trans hok)
    obtain ⟨t, ht, n, -, hplaced⟩ := exists_of_mem_placedFrom hp
    exact ⟨t, ht, n, hplaced⟩
  · cases hr.symm.trans hf

/-- Every match of a text has a name that `isName` accepts. -/
theorem isName_of_mem_matchesOf {source : Text} {ms : List Match}
    (h : matchesOf (.text source) = .ok ms) {m : Match} (hm : m ∈ ms) : isName m.name = true := by
  obtain ⟨r, hr, hms⟩ := Except.bind_eq_ok_iff.mp h
  obtain rfl := Except.ok.inj hms
  obtain ⟨p, hp, rfl⟩ := List.mem_map.mp hm
  obtain ⟨t, ht, n, hplaced⟩ := exists_of_mem_pieces hr hp
  obtain ⟨_, _, _, -, hheads⟩ := Reading.exists_heads_of_mem ht
  rw [hplaced]
  exact hheads.isName_name

/-- The names that a handler can be registered under are those of the matches of all texts, and the
shortest text shows it : the opening of a tag with that name is one match and nothing else, without
a content or attributes, whatever blanks stand around the name. So a handler that was added to a
registry is called exactly once for such a text, with an empty content and no attributes. -/
theorem isName_iff_matched (name : Text) :
    (isNameValue (.text name) = true ↔
      ∃ source ms, matchesOf (.text source) = .ok ms ∧ ∃ m ∈ ms, m.name = name) ∧
    (isNameValue (.text name) = true → ∀ u v : Text, (∀ c ∈ u, isBlank c = true) →
      (∀ c ∈ v, isBlank c = true) → matchesOf (.text (spacedTag u name v)) =
        .ok [⟨name, [], [], spacedTag u name v, false, 0⟩]) ∧
    ∀ {B σ : Type} (r : Registry B) (handler : Handler B) (description : Text),
      let added := r.add ⟨.text name, some handler, description⟩
      added.fault = none → ∀ (e : Engine B σ), e.registry = added.registry →
        ∀ u v : Text, (∀ c ∈ u, isBlank c = true) → (∀ c ∈ v, isBlank c = true) →
          ∀ (d : Driver) (s : σ), CallsOnce e d (spacedTag u name v)
            ⟨⟨[], [], spacedTag u name v⟩,
              ⟨name, handler, handler.isDeclaredAsync, false, description⟩⟩ s := by
  refine ⟨⟨fun hname => ?_, ?_⟩, fun hname u v hu hv => matchesOf_spacedTag hname hu hv, ?_⟩
  · have hnone : ∀ c ∈ ([] : Text), isBlank c = true := List.forall_mem_nil _
    exact ⟨_, _, matchesOf_spacedTag hname hnone hnone, _, List.mem_singleton_self _, rfl⟩
  · rintro ⟨source, ms, hms, m, hm, rfl⟩
    exact isName_of_mem_matchesOf hms hm
  · intro B σ r handler description added hadded e he u v hu hv d s
    let spec : Spec B := ⟨name, handler, handler.isDeclaredAsync, false, description⟩
    have hrequest : added = spec.request.change r := rfl
    have hname : isName spec.name = true := Registry.isName_of_fault (hrequest ▸ hadded)
    refine callsOnce_spacedTag hname hu hv e d ?_ s
    rw [he, hrequest, Registry.registry_of_fault (hrequest ▸ hadded),
      (Registry.registers_put r spec).found]
    exact if_pos (trim_of_isName hname)

/-- A registry in use to which one more handler is added. -/
def addedInUse : Registry.Change Unit :=
  ((Registry.new none Registry.overriding).registry.after Registry.mixedRequests).add
    ⟨.text ['@', '-'], some (.custom () .direct), []⟩

/-- Its engine, with handlers that answer with a star for each earlier call, and then the
content. -/
def addedEngine : Engine Unit Nat where
  registry := addedInUse.registry
  settings := {}
  custom _ _ args := .act (· + 1) fun n => .done (.text (List.replicate n '*' ++ args.content))

/-- A name without letters, with a tab before it, and a wide space and another space behind it. -/
theorem isName_iff_matched_spaced : isNameValue (.text ['@', '-']) = true ∧
    addedInUse.fault = none ∧ (∀ c ∈ ['\t'], isBlank c = true) ∧
    (∀ c ∈ ['\u3000', ' '], isBlank c = true) ∧
    (∃ source ms, matchesOf (.text source) = .ok ms ∧ ∃ m ∈ ms, m.name = ['@', '-']) ∧
    let tag := spacedTag ['\t'] ['@', '-'] ['\u3000', ' ']
    matchesOf (.text tag) = .ok [⟨['@', '-'], [], [], tag, false, 0⟩] ∧
      ∃ found, ((addedEngine.textBy .sync tag).run 3).outcome = .ok ⟨"***".toList, found⟩ := by
  have hname : isNameValue (.text ['@', '-']) = true := by decide
  have hadded : addedInUse.fault = none := rfl
  have hbefore : ∀ c ∈ ['\t'], isBlank c = true := List.forall_mem_singleton.mpr (by decide)
  have hafter : ∀ c ∈ ['\u3000', ' '], isBlank c = true := by
    rw [List.forall_mem_cons]
    exact ⟨by decide, List.forall_mem_singleton.mpr (by decide)⟩
  obtain ⟨hiff, hread, hcalled⟩ := isName_iff_matched ['@', '-']
  have honce := hcalled _ _ _ hadded addedEngine rfl _ _ hbefore hafter .sync 3
  exact ⟨hname, hadded, hbefore, hafter, hiff.mp hname, hread hname _ _ hbefore hafter,
    honce.replaced (.text "***".toList) _ rfl rfl⟩

end TagTemplate
