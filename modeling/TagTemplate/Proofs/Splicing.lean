import Mathlib.Data.List.Forall2
import TagTemplate.Proofs.AttributeTokens
import TagTemplate.Proofs.Coercion
import TagTemplate.Proofs.TagNames
import TagTemplate.Recipe

/-!
# Integers spliced into a text

An integer goes into a tag as an attribute, and comes out of it as a text : it is read by `coerce`,
handed to the handler, and what the handler returns is shown in the place of the tag. If the handler
hands the attribute back, what comes out is what went in (`Replaces`), in a text without other tags
and in every other text whose evaluation succeeds.

The one integer that does not come out is one with too many digits, which no attribute is read as
but a handler may return. It ends the evaluation, with a fault that is reported as it is and no
further call (`Evaluation.Proper.ends_at_unspliced`).
-/

namespace TagTemplate

variable {B σ α β : Type}

/-! ## Results that cannot be spliced -/

/-- A result that cannot be spliced is the last, and the evaluation fails for it. -/
theorem Evaluation.Proper.ends_at_unspliced {look : Text → Option (Spec B)} {e : Evaluation B α}
    (he : e.Proper look) (answer : Call B → Process σ Value) (s : σ) {x : Execution B σ}
    (hx : x ∈ e.executions answer s) {v : Value} (hv : x.run.outcome = .ok v)
    (hnone : v.spliced? = none) :
    ((e.drive answer).run s).outcome = .error .integerTooLong ∧
      ∃ before, e.executions answer s = before ++ [x] := by
  induction he generalizing s with
  | done a => cases hx
  | fail _ => cases hx
  | note n _ ih => exact ih s hx
  | @call c resume _ hstop _ ih =>
    rw [drive, executions, Process.run_bind, Run.bind]
    rw [executions] at hx
    rcases List.mem_cons.mp hx with rfl | hx
    · have hc : ((answer c).run s).outcome = .ok v := hv
      simp only [hc, hstop v hnone]
      exact ⟨rfl, [], rfl⟩
    · cases ho : ((answer c).run s).outcome with
      | error f => rw [ho] at hx; cases hx
      | ok w =>
        rw [ho] at hx
        obtain ⟨hout, before, hbefore⟩ := ih w _ hx
        exact ⟨hout, ⟨c, s, (answer c).run s⟩ :: before, congrArg _ hbefore⟩

/-! ## What takes the places of matches -/

/-- The text that a reading becomes when texts take the places of its matches. -/
def Reading.filledWith (r : Reading α) (results : List Text) : Text :=
  (List.zipWith (fun p result => p.1 ++ result) r.pieces results).flatten ++ r.tail

namespace Evaluation.Yields

variable {answer : Call B → Process σ Value} {s t u : σ} {a : α} {b : β} {e : Evaluation B α}

theorem done_iff {b : α} :
    (Evaluation.done a : Evaluation B α).Yields answer s b t ↔ a = b ∧ s = t := by
  constructor
  · rintro ⟨ho, hs⟩
    exact ⟨Except.ok.inj ho, hs⟩
  · rintro ⟨rfl, rfl⟩
    exact .done a s

/-- What goes on from an evaluation yields only after the evaluation does. -/
theorem of_bind {next : α → Evaluation B β} (h : (e.bind next).Yields answer s b u) :
    ∃ a t, e.Yields answer s a t ∧ (next a).Yields answer t b u := by
  induction e generalizing s with
  | done a => exact ⟨a, s, .done a s, h⟩
  | fail f => cases h.outcome
  | note n e ih =>
    obtain ⟨a, t, he, hnext⟩ := ih ⟨h.outcome, h.state⟩
    exact ⟨a, t, he.note, hnext⟩
  | call c resume ih =>
    obtain ⟨v, hc, hv⟩ := call_iff.mp h
    obtain ⟨a, t, he, hnext⟩ := ih v hv
    exact ⟨a, t, call_iff.mpr ⟨v, hc, he⟩, hnext⟩

theorem of_noteFound {source : Text} {r : Reading Match}
    (h : (noteFound source r e).Yields answer s a t) : e.Yields answer s a t := by
  unfold noteFound at h
  split at h
  next => exact h
  next => exact ⟨h.outcome, h.state⟩

end Evaluation.Yields

section Filled

variable {answer : Call B → Process σ Value} {look : Text → Option (Spec B)}

/-- `result` is what the match is replaced by, from one state or another. -/
def Fills (answer : Call B → Process σ Value) (look : Text → Option (Spec B)) (p : Text × Match)
    (result : Text) : Prop :=
  ∃ s t, (replaceTag look p.2).Yields answer s result t

theorem exists_of_yields_replaceAll :
    ∀ {pieces : List (Text × Match)} {s t : σ} {text : Text},
      (replaceAll look pieces).Yields answer s text t →
      ∃ results, text = (List.zipWith (fun p result => p.1 ++ result) pieces results).flatten ∧
        List.Forall₂ (Fills answer look) pieces results
  | [], _, _, _, h => by
    obtain ⟨rfl, -⟩ := Evaluation.Yields.done_iff.mp h
    exact ⟨[], rfl, .nil⟩
  | (gap, m) :: pieces, s, _, _, h => by
    obtain ⟨result, t, hm, h⟩ := h.of_bind
    obtain ⟨others, u, hothers, h⟩ := h.of_bind
    obtain ⟨rfl, -⟩ := Evaluation.Yields.done_iff.mp h
    obtain ⟨results, rfl, hresults⟩ := exists_of_yields_replaceAll hothers
    exact ⟨result :: results, by simp, .cons ⟨s, t, hm⟩ hresults⟩

/-- A text that is evaluated successfully is filled with what its matches are replaced by. -/
theorem exists_of_yields_evaluate {source : Text} {r : Reading Match}
    (hr : Reading.matchesOfText source = .ok r) {s t : σ} {ev : Evaluated}
    (h : (evaluate look source).Yields answer s ev t) :
    ∃ results, ev.text = r.filledWith results ∧
      List.Forall₂ (Fills answer look) r.pieces results := by
  rw [evaluate_of_ok look hr] at h
  obtain ⟨text, u, hall, h⟩ := h.of_noteFound.of_bind
  obtain ⟨rfl, -⟩ := Evaluation.Yields.done_iff.mp h
  obtain ⟨results, rfl, hresults⟩ := exists_of_yields_replaceAll hall
  exact ⟨results, rfl, hresults⟩

end Filled

/-- The text `tag` is a tag that is always replaced by `result`. -/
structure Replaces (e : Engine B σ) (d : Driver) (tag result : Text) : Prop where
  /-- In a text that has no other tag, evaluation succeeds, and leaves the text around the tag. -/
  between : ∀ (p q : Text) (s : σ), '[' ∉ p → p.getLast? ≠ some '\\' → ']' ∉ q →
    ∃ found, ((e.textBy d (p ++ tag ++ q)).run s).outcome = .ok ⟨p ++ result ++ q, found⟩
  /-- Whenever a text is evaluated successfully, each match that is written so is replaced so. -/
  within : ∀ {source : Text} {r : Reading Match} {s : σ} {ev : Evaluated},
    Reading.matchesOfText source = .ok r → ((e.textBy d source).run s).outcome = .ok ev →
    ∃ results, ev.text = r.filledWith results ∧
      List.Forall₂ (fun p filled => p.2.written = tag → filled = result) r.pieces results

section Spells

variable {o : Opening} {w : Text} (h : o.Spells w)
include h

/-- A match that is written as an opening alone is that opening. -/
theorem eq_placedAt_of_written {source : Text} {r : Reading Match}
    (hr : Reading.matchesOfText source = .ok r) {p : Text × Match} (hp : p ∈ r.pieces)
    (hw : p.2.written = w) : ∃ n, p.2 = Tag.placedAt ⟨o, [], w⟩ n := by
  obtain ⟨t, ht, n, hplaced⟩ := exists_of_mem_pieces hr hp
  obtain ⟨⟨gap, t'⟩, hpiece, rfl⟩ := List.mem_map.mp ht
  obtain ⟨front, back, hsplit⟩ := List.append_of_mem hpiece
  have hsource := Reading.leftmost_ofText source
  rw [show Reading.ofText source = ⟨front ++ (gap, t') :: back, (Reading.ofText source).tail⟩ by
    rw [← hsplit]] at hsource
  have hwritten : t'.written = w := by rw [← hw, hplaced]; rfl
  -- Both are what the text of the match is read as.
  have halone := hwritten ▸ hsource.alone
  have heq := halone.eq_ofText.trans h.leftmost.eq_ofText.symm
  refine ⟨n, hplaced.trans ?_⟩
  simp only [Reading.mk.injEq, List.cons.injEq, Prod.mk.injEq, and_true, true_and] at heq
  rw [← heq]

/-- A tag without a content is replaced by the one text that the results of its call are spliced
as. -/
theorem replaces_of_spells (hfit : attributesFit o.attributeText = true)
    (hplain : o.escaped = false) {e : Engine B σ} {d : Driver} {spec : Spec B}
    (hlook : e.registry.find? o.name = some spec) {result : Text}
    (hresult : ∀ s, ∃ v, ((d.answer e.perform
      ⟨⟨[], .ofPairs (attributePairs (dropEscapes o.attributeText)), w⟩, spec⟩).run s).outcome =
        .ok v ∧ v.spliced? = some result) : Replaces e d w result := by
  refine ⟨fun p q s hp hlast hq => ?_, fun {source r s ev} hr hev => ?_⟩
  · obtain ⟨v, hv, hspliced⟩ := hresult s
    obtain ⟨found, halone⟩ :=
      (callsOnce_of_spells h hfit hplain e d hlook s).replaced v result hv hspliced
    have haround := ((mirrors_around hp hlast hq e.registry.find? h.leftmost
      (List.forall_mem_singleton.mpr hfit)).run (d.answer e.perform) s).outcome
    rw [← e.textBy_eq, ← e.textBy_eq, halone] at haround
    exact ⟨_, haround⟩
  · have hyields : (evaluate e.registry.find? source).Yields (d.answer e.perform) s ev
        ((e.textBy d source).run s).state := by
      rw [e.textBy_eq] at hev ⊢
      exact ⟨hev, rfl⟩
    obtain ⟨results, htext, hfills⟩ := exists_of_yields_evaluate hr hyields
    refine ⟨results, htext, ?_⟩
    have hmem := (List.forall₂_and_left _ _).mpr ⟨fun p hp => hp, hfills⟩
    refine hmem.imp ?_
    rintro p filled ⟨hp, s, t, hyields⟩ hw
    obtain ⟨n, hplaced⟩ := eq_placedAt_of_written h hr hp hw
    rw [hplaced, replaceTag_opening hplain hlook, Evaluation.Yields.call_iff] at hyields
    obtain ⟨v, hv, hyields⟩ := hyields
    obtain ⟨v', hv', hspliced⟩ := hresult s
    obtain rfl := Except.ok.inj (hv.symm.trans hv')
    rw [Evaluation.splice_of_some hspliced] at hyields
    exact (Evaluation.Yields.done_iff.mp hyields).1.symm

end Spells

/-! ## A tag with one attribute -/

/-- The opening of a tag with one attribute, its value without quotes. -/
def attributeTag (name key value : Text) : Text :=
  '[' :: '@' :: (name ++ ' ' :: (key ++ '=' :: (value ++ [']'])))

section AttributeTag

variable {name key value : Text} (hkey : isName key = true) (hvalue : isName value = true)

include hkey hvalue

/-- Neither end of the attribute is a blank. -/
theorem trim_attribute : trim (' ' :: (key ++ '=' :: value)) = key ++ '=' :: value := by
  rw [trim_cons_of_isBlank (by decide)]
  refine trim_of_ends (fun c hc => ?_) fun c hc => ?_
  · have hmem : c ∈ key := by
      rw [List.head?_append_of_ne_nil _ (isName_iff.mp hkey).1] at hc
      exact List.mem_of_mem_head? hc
    exact isBlank_of_isNameChar (isNameChar_of_mem hkey hmem)
  · have hmem : c ∈ value := by
      rw [List.append_cons, List.getLast?_append_of_ne_nil _ (isName_iff.mp hvalue).1] at hc
      exact List.mem_of_getLast? hc
    exact isBlank_of_isNameChar (isNameChar_of_mem hvalue hmem)

theorem spells_attributeTag (hname : isName name = true) :
    Opening.Spells ⟨false, name, key ++ '=' :: value⟩ (attributeTag name key value) := by
  have hbracket : ∀ c ∈ ' ' :: (key ++ '=' :: value), isBracket c = false := by
    simp only [List.forall_mem_cons, List.forall_mem_append]
    exact ⟨by decide, fun c hc => isBracket_of_isNameChar (isNameChar_of_mem hkey hc), by decide,
      fun c hc => isBracket_of_isNameChar (isNameChar_of_mem hvalue hc)⟩
  have hsep : ∀ c ∈ (' ' :: (key ++ '=' :: value)).head?, isBlank c = true := by
    rintro c ⟨⟩
    decide
  have hspells := Opening.Spells.intro false (List.forall_mem_nil _) hname hbracket hsep
  rw [trim_attribute hkey hvalue] at hspells
  simpa [escapeMark, attributeTag] using hspells

/-- A name is a value that needs no quotes. -/
theorem attributePairs_attribute :
    attributePairs (dropEscapes (key ++ '=' :: value)) = [(key, value)] := by
  have hne {c d : Char} (hc : c ∈ value) (hd : isNameChar d = false) : c ≠ d := by
    rintro rfl
    exact absurd (isNameChar_of_mem hvalue hc) (by simp [hd])
  have hquotes : Quotes value value :=
    .bare (isName_iff.mp hvalue).1 (fun c hc => isBlank_of_isNameChar (isNameChar_of_mem hvalue hc))
      (fun hc => hne hc (by decide) rfl)
      (fun hc => hne (List.mem_of_mem_head? hc) (by decide) rfl)
      fun hc => hne (List.mem_of_mem_head? hc) (by decide) rfl
  have hwrites : Writes [(key, value)] (key ++ ([] ++ '=' :: ([] ++ (value ++ [])))) :=
    .pair hkey (List.forall_mem_nil _) (List.forall_mem_nil _) hquotes endsToken_nil .nil
  simpa using hwrites.attributePairs_eq

end AttributeTag

/-! ## Integers -/

/-- The handler returns the attribute `key` whenever it is there. -/
def Engine.HandsBack (e : Engine B σ) (spec : Spec B) (key : Text) : Prop :=
  ∀ (args : Arguments) (s : σ) (v : Value), args.attributes.get? key = some v →
    ((e.perform ⟨args, spec⟩).run s).outcome = .ok v

/-- A driver gets the result of a handler, unless it would have to await it and does not. -/
theorem Driver.outcome_answer (d : Driver) (perform : Call B → Process σ Value) {c : Call B}
    (hd : d = .sync → c.spec.handler.isAwaited = false) {s : σ} {v : Value}
    (hv : ((perform c).run s).outcome = .ok v) : ((d.answer perform c).run s).outcome = .ok v := by
  have hasync : ((c.answerAsync perform).run s).outcome = .ok v := by
    rw [Call.run_answerAsync, Call.run_bodyProcess]
    simp only [hv]
    rfl
  cases d with
  | async => exact hasync
  | sync => rwa [Driver.answer, Call.run_answerSync _ _ _ (hd rfl)]

/-- An integer that a tag has as its attribute comes out in the place of the tag as it went in, if
the handler hands the attribute back. -/
theorem replaces_attributeTag (e : Engine B σ) (d : Driver) {name key : Text} {spec : Spec B}
    {n : Int} (hname : isName name = true) (hkey : isName key = true)
    (hlook : e.registry.find? name = some spec)
    (hd : d = .sync → spec.handler.isAwaited = false) (hback : e.HandsBack spec key)
    (hn : digitCount n ≤ digitLimit) :
    Replaces e d (attributeTag name key (intDigits n)) (intDigits n) := by
  have hpairs := attributePairs_attribute hkey (isName_intDigits n)
  have hcoerce := coerce_intDigits hn
  have hfit : attributesFit (key ++ '=' :: intDigits n) = true := by
    rw [attributesFit, hpairs]
    simp [isOverlong_of_coerce hcoerce]
  refine replaces_of_spells (spells_attributeTag hkey (isName_intDigits n) hname) hfit rfl hlook
    fun s => ⟨.int n, d.outcome_answer e.perform hd (hback _ s _ ?_), ?_⟩
  · rw [hpairs, get?_ofPairs]
    simp [coerced, hcoerce, Except.toOption]
  · exact (Value.shown?_int n).trans (if_pos hn)

/-- What a text stands for is told by its form : an integer exactly for an optional minus sign and
as many digits as the limit allows, leading zeros counted, and the text itself exactly for what is
no integer literal and has no point between digits. An integer within the limit is written as a text
that stands for it, so as the attribute of a tag whose handler hands it back it is what the tag is
replaced by. An integer beyond the limit that is the result of any call ends the evaluation with
that call, and the fault is not reported as the handler's. -/
theorem splicing_of_integers (e : Engine B σ) (d : Driver) :
    (∀ v, Coerces v) ∧
    (∀ n, digitCount n ≤ digitLimit →
      (Value.int n).shown? = some (intDigits n) ∧ coerce (intDigits n) = .ok (.int n)) ∧
    (∀ (name key : Text) (spec : Spec B) (n : Int), isName name = true → isName key = true →
      e.registry.find? name = some spec → (d = .sync → spec.handler.isAwaited = false) →
      e.HandsBack spec key → digitCount n ≤ digitLimit →
        Replaces e d (attributeTag name key (intDigits n)) (intDigits n)) ∧
    ∀ (source : Text) (s : σ) (x : Execution B σ) (n : Int), x ∈ e.calls d source s →
      x.run.outcome = .ok (.int n) → digitLimit < digitCount n →
        ((e.textBy d source).run s).outcome = .error .integerTooLong ∧
          Fault.integerTooLong.kind = .value ∧ ∃ before, e.calls d source s = before ++ [x] := by
  refine ⟨coerces, fun n hn => ⟨?_, coerce_intDigits hn⟩,
    fun name key spec n hname hkey hlook hd hback hn =>
      replaces_attributeTag e d hname hkey hlook hd hback hn,
    fun source s x n hx hout hn => ?_⟩
  · rw [Value.shown?_int, if_pos hn]
  · have hnone : (Value.int n).spliced? = none :=
      (Value.shown?_int n).trans (if_neg (Nat.not_le.mpr hn))
    obtain ⟨hfails, hlast⟩ := (proper_evaluate e.registry.find? source).ends_at_unspliced
      (d.answer e.perform) s hx hout hnone
    rw [e.textBy_eq]
    exact ⟨hfails, rfl, hlast⟩

/-- A registry of a handler that hands its attribute `k` back and of one that returns an integer. -/
def echoingRegistry (n : Int) : Registry Scripted where
  cwd := none
  defaults := []
  specs := [⟨['e'], .custom ⟨.attributeAt ['k'], []⟩ .direct, false, false, []⟩,
    ⟨['b'], .custom ⟨.const (.int n), []⟩ .direct, false, false, []⟩]
  hasAsync := false

theorem handsBack_echoing (n : Int) :
    (Scripted.engine (echoingRegistry n) {}).HandsBack
      ⟨['e'], .custom ⟨.attributeAt ['k'], []⟩ .direct, false, false, []⟩ ['k'] := by
  intro args s v hv
  change ((Recipe.withKey ['k'] args .done).run s).outcome = .ok v
  rw [Recipe.withKey, hv]
  rfl

/-- A negative integer between texts with brackets, and the least integer that is too long. -/
theorem splicing_of_integers_echoing :
    let e := Scripted.engine (echoingRegistry leastOverlong) {}
    let echo : Spec Scripted := ⟨['e'], .custom ⟨.attributeAt ['k'], []⟩ .direct, false, false, []⟩
    isName ['e'] = true ∧ isName ['k'] = true ∧ e.registry.find? ['e'] = some echo ∧
      echo.handler.isAwaited = false ∧ e.HandsBack echo ['k'] ∧ digitCount (-120) ≤ digitLimit ∧
      (∃ found, ((e.textBy .sync "a][@e k=-120]b[@e".toList).run {}).outcome =
        .ok ⟨"a]-120b[@e".toList, found⟩) ∧
      ∃ x ∈ e.calls .sync "[@b]".toList {}, x.run.outcome = .ok (.int leastOverlong) ∧
        digitLimit < digitCount leastOverlong ∧
        ((e.textBy .sync "[@b]".toList).run {}).outcome = .error .integerTooLong := by
  have hlong := digitLimit_lt_digitCount
  -- All that matters of the integer is that it is too long.
  generalize leastOverlong = n at hlong ⊢
  intro e echo
  have hname : isName ['e'] = true := by decide
  have hkey : isName ['k'] = true := by decide
  have hback : e.HandsBack echo ['k'] := handsBack_echoing n
  have hshort : digitCount (-120) ≤ digitLimit := by decide
  obtain ⟨-, -, hreplaced, hended⟩ := splicing_of_integers e .sync
  have htag := (hreplaced ['e'] ['k'] echo (-120) hname hkey rfl (fun _ => rfl) hback
    hshort).between "a]".toList "b[@e".toList {} (by decide) (by decide) (by decide)
  have hdigits : intDigits (-120) = "-120".toList := by decide
  rw [hdigits] at htag
  have honce := callsOnce_spacedTag (by decide : isName ['b'] = true) (List.forall_mem_nil _)
    (List.forall_mem_nil _) e .sync rfl {}
  obtain ⟨x, hcalls, hout⟩ : ∃ x, e.calls .sync "[@b]".toList {} = [x] ∧
      x.run.outcome = .ok (.int n) := ⟨_, honce.calls, rfl⟩
  have hx : x ∈ e.calls .sync "[@b]".toList {} := hcalls ▸ List.mem_singleton_self x
  exact ⟨hname, hkey, rfl, rfl, hback, hshort, htag, x, hx, hout, hlong,
    (hended _ _ x n hx hout hlong).1⟩

end TagTemplate
