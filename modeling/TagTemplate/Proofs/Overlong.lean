import TagTemplate.Engine
import TagTemplate.Proofs.Attributes
import TagTemplate.Proofs.Lookup
import TagTemplate.Proofs.Replacement
import TagTemplate.Proofs.Runs

/-!
# What reading a text can fail on

Attribute text may be written in any way, and so may tags and what stands in place of them : what
makes no sense as one is passed over. There is one thing that reading fails on, an attribute whose
value is an integer literal of more digits than a numeral may have, and the fault is that of the
first of them (`overlongFault?`). It makes no difference whether the tag is escaped or has a
handler, so a text fails also where no handler is called.

A text in which no tag has a handler evaluates without calls, and to itself but for the backslashes
of the escaped tags (`evaluate_eq_noting`, `settles_evaluate`).
-/

namespace TagTemplate

variable {B σ α β : Type}

/-! ## The first value that is too long -/

/-- The fault that an outcome ends with. -/
def faultOf? : Except Fault α → Option Fault
  | .ok _ => none
  | .error f => some f

/-- What fails first decides on the fault, if what comes after a success fails the same way
whatever the result. -/
theorem faultOf?_bind {o : Except Fault α} {next : α → Except Fault β} {fault? : Option Fault}
    (h : ∀ a, faultOf? (next a) = fault?) : faultOf? (o >>= next) = (faultOf? o).or fault? := by
  cases o with
  | ok a => exact h a
  | error f => rfl

/-- What is made of a result fails as the result does. -/
theorem faultOf?_bind_pure (o : Except Fault α) (f : α → β) :
    faultOf? (o >>= fun a => pure (f a)) = faultOf? o := by
  cases o <;> rfl

/-- The fault of an attribute's value : that it is an integer literal with too many digits. -/
def overlongFault? (value : Text) : Option Fault :=
  if isOverlong value then some (.numeralTooLong (splitSign value).2.length) else none

/-- The values of an attribute text, in order. -/
def attributeValues (s : Text) : List Text :=
  (attributePairs (dropEscapes s)).map Prod.snd

/-- The attributes' values of all tags of a text, in order, whether or not anything is to be called
for the tags. -/
def tagValues (s : Text) : List Text :=
  (Reading.ofText s).matches.flatMap fun t => attributeValues t.attributeText

theorem faultOf?_coerce (value : Text) : faultOf? (coerce value) = overlongFault? value := by
  rw [overlongFault?]
  split
  next h => rw [coerce_of_isOverlong h]; rfl
  next h => rw [coerce_eq_ok (by simpa using h)]; rfl

theorem findSome?_overlongFault?_cons (value : Text) (values : List Text) :
    (value :: values).findSome? overlongFault? =
      (overlongFault? value).or (values.findSome? overlongFault?) := by
  rw [List.findSome?_cons]
  cases overlongFault? value <;> rfl

theorem findSome?_overlongFault?_append (values others : List Text) :
    (values ++ others).findSome? overlongFault? =
      (values.findSome? overlongFault?).or (others.findSome? overlongFault?) :=
  List.findSome?_append

/-- Reading attributes fails on the first value that is too long, and on nothing else. -/
theorem faultOf?_read (s : Text) :
    faultOf? (Attributes.read s) = (attributeValues s).findSome? overlongFault? := by
  unfold Attributes.read attributeValues
  generalize attributePairs (dropEscapes s) = pairs, ([] : Attributes) = start
  induction pairs generalizing start with
  | nil => rfl
  | cons p pairs ih =>
    rw [List.foldlM_cons, faultOf?_bind ih, faultOf?_bind_pure, faultOf?_coerce, List.map_cons,
      findSome?_overlongFault?_cons]

theorem faultOf?_matchesFrom (tags : List (Text × Tag)) (start : Nat) :
    faultOf? (matchesFrom start tags) =
      (tags.flatMap fun p => attributeValues p.2.attributeText).findSome? overlongFault? := by
  induction tags generalizing start with
  | nil => rfl
  | cons p tags ih =>
    obtain ⟨gap, t⟩ := p
    rw [matchesFrom, List.flatMap_cons, findSome?_overlongFault?_append, Tag.matchAt,
      faultOf?_bind fun m => by rw [faultOf?_bind_pure, ih], faultOf?_bind_pure, faultOf?_read]

/-- So does reading a text. -/
theorem faultOf?_matchesOfText (s : Text) :
    faultOf? (Reading.matchesOfText s) = (tagValues s).findSome? overlongFault? := by
  rw [Reading.matchesOfText, faultOf?_bind_pure, faultOf?_matchesFrom, tagValues, Reading.matches,
    List.flatMap_map]

/-! ## Texts without a handler -/

/-- The evaluation asks for no call and is done with `a`. -/
inductive Evaluation.Settles : Evaluation B α → α → Prop
  | done (a : α) : Settles (.done a) a
  | note (n : Note) {e : Evaluation B α} {a : α} (h : Settles e a) : Settles (.note n e) a

/-- However calls would be answered, it leaves the state as it is. -/
theorem Evaluation.Settles.yields {e : Evaluation B α} {a : α} (h : e.Settles a)
    (answer : Call B → Process σ Value) (s : σ) : e.Yields answer s a s := by
  induction h with
  | done a => exact .done a s
  | note n _ ih => exact .note ih

namespace Evaluation

/-- The evaluation that takes notes and is then done with `a`. -/
def noting (notes : List Note) (a : α) : Evaluation B α :=
  notes.foldr .note (.done a)

theorem settles_noting (notes : List Note) (a : α) :
    (noting notes a : Evaluation B α).Settles a := by
  induction notes with
  | nil => exact .done a
  | cons n notes ih => exact .note n ih

theorem noting_bind (notes : List Note) (a : α) (next : α → Evaluation B β) :
    (noting notes a).bind next = notes.foldr .note (next a) := by
  induction notes with
  | nil => rfl
  | cons n notes ih => exact congrArg (note n) ih

end Evaluation

/-- What stands in the place of a tag for which nothing is called : the tag, without its
backslash. -/
def Tag.standing (t : Tag) : Text :=
  if t.escaped then t.written.drop 1 else t.written

/-- The same of a match. -/
def Match.standing (m : Match) : Text :=
  if m.escaped then m.written.drop 1 else m.written

/-- The notes on a match for which nothing is called. -/
def Match.passed (m : Match) : List Note :=
  if m.escaped then [] else [.unknown m.name]

/-- The notes on a text for whose matches nothing is called : how many they are, if there are any,
and each that is not escaped. -/
def passingNotes (s : Text) (ms : List Match) : List Note :=
  (if ms.isEmpty then [] else [.found ms.length s.length]) ++ ms.flatMap Match.passed

/-- The text that was read, without the backslashes of its escaped tags. -/
def Reading.standing (r : Reading Tag) : Text :=
  (r.pieces.flatMap fun p => p.1 ++ p.2.standing) ++ r.tail

section Standing

variable {look : Text → Option (Spec B)}

theorem replaceTag_eq_noting {m : Match} (h : m.escaped = false → look m.name = none) :
    replaceTag look m = .noting m.passed m.standing := by
  rw [Match.passed, Match.standing]
  cases he : m.escaped with
  | true => exact replaceTag_of_escaped he
  | false => exact replaceTag_of_unknown he (h he)

theorem replaceAll_eq_noting : ∀ pieces : List (Text × Match),
    (∀ p ∈ pieces, p.2.escaped = false → look p.2.name = none) →
      replaceAll look pieces = .noting (pieces.flatMap fun p => p.2.passed)
        (pieces.flatMap fun p => p.1 ++ p.2.standing)
  | [], _ => rfl
  | (gap, m) :: pieces, h => by
    obtain ⟨hm, hpieces⟩ := List.forall_mem_cons.mp h
    rw [replaceAll, replaceTag_eq_noting hm, replaceAll_eq_noting pieces hpieces,
      Evaluation.noting_bind, Evaluation.noting_bind]
    simp [Evaluation.noting]

/-- A text of which no tag has a handler unless it is escaped evaluates to itself without the
backslashes of the escaped tags, and nothing is noted but these tags and the others. -/
theorem evaluate_eq_noting {s : Text} {r : Reading Match} (hr : Reading.matchesOfText s = .ok r)
    (h : ∀ m ∈ r.matches, m.escaped = false → look m.name = none) :
    evaluate look s = .noting (passingNotes s r.matches)
      ⟨(r.pieces.flatMap fun p => p.1 ++ p.2.standing) ++ r.tail, r.matches⟩ := by
  have hall := replaceAll_eq_noting r.pieces fun p hp => h p.2 (List.mem_map_of_mem hp)
  rw [evaluate_of_ok look hr, hall, Evaluation.noting_bind, noteFound, passingNotes,
    Reading.matches, List.flatMap_map, List.isEmpty_map, List.length_map]
  split <;> rfl

theorem flatMap_standing_placedFrom (start : Nat) (tags : List (Text × Tag)) :
    (placedFrom start tags).flatMap (fun p => p.1 ++ p.2.standing) =
      tags.flatMap fun p => p.1 ++ p.2.standing := by
  induction tags generalizing start with
  | nil => rfl
  | cons p tags ih => rw [placedFrom, List.flatMap_cons, List.flatMap_cons, ih]; rfl

variable {s : Text}
  (h : ∀ t ∈ (Reading.ofText s).matches, t.escaped = false → look t.name = none)

include h

/-- A text that can be read, and of which no tag has a handler unless it is escaped, evaluates to
itself without the backslashes of the escaped tags. -/
theorem settles_evaluate {r : Reading Match} (hr : Reading.matchesOfText s = .ok r) :
    (evaluate look s).Settles ⟨(Reading.ofText s).standing, r.matches⟩ := by
  obtain hok | ⟨f, hf⟩ := matchesOfText_cases s
  · obtain rfl := Except.ok.inj (hr.symm.trans hok)
    have hnoting := evaluate_eq_noting hr fun m hm hescaped => by
      obtain ⟨p, hp, rfl⟩ := List.mem_map.mp hm
      obtain ⟨t, ht, n, -, hplaced⟩ := exists_of_mem_placedFrom hp
      rw [hplaced] at hescaped ⊢
      exact h t ht hescaped
    rw [hnoting, flatMap_standing_placedFrom]
    exact Evaluation.settles_noting ..
  · rw [hr] at hf
    cases hf

/-- Its evaluation fails where reading it does. -/
theorem faultOf?_evaluate (answer : Call B → Process σ Value) (st : σ) :
    faultOf? (((evaluate look s).drive answer).run st).outcome =
      faultOf? (Reading.matchesOfText s) := by
  cases hr : Reading.matchesOfText s with
  | error f => rw [evaluate_of_error look hr]; rfl
  | ok r => rw [((settles_evaluate h hr).yields answer st).outcome]; rfl

end Standing

/-- An empty attribute text has no attributes, as reading it says too. -/
theorem attributesOf_text (raw : Text) : attributesOf (.text raw) = Attributes.read raw := by
  cases raw with
  | nil =>
    rw [Attributes.read, attributePairs_nil]
    rfl
  | cons c cs => rfl

theorem faultOf?_attributesOf (raw : Text) :
    faultOf? (attributesOf (.text raw)) = (attributeValues raw).findSome? overlongFault? := by
  rw [attributesOf_text, faultOf?_read]

/-- Reading attributes, reading a text and, without asynchronous handlers, evaluating a text of
which no tag that is not escaped has a handler fail in one case : if an attribute has an integer
literal of more digits than a numeral may have as its value. -/
theorem fault_of_values (raw s : Text) (e : Engine B σ) (hsync : e.registry.hasAsync = false)
    (hnames : ∀ t ∈ (Reading.ofText s).matches, t.escaped = false → t.name ∉ e.registry.names)
    (st : σ) :
    faultOf? (attributesOf (.text raw)) = (attributeValues raw).findSome? overlongFault? ∧
      faultOf? (matchesOf (.text s)) = (tagValues s).findSome? overlongFault? ∧
      faultOf? ((e.parseSync (.text s)).run st).outcome =
        (tagValues s).findSome? overlongFault? := by
  have hlook : ∀ t ∈ (Reading.ofText s).matches, t.escaped = false →
      e.registry.find? t.name = none := by
    intro t ht hescaped
    obtain ⟨_, _, _, -, hheads⟩ := Reading.exists_heads_of_mem ht
    have hiff := e.registry.isSome_find?_iff hheads.isName_name
    simpa using mt hiff.mp (hnames t ht hescaped)
  refine ⟨faultOf?_attributesOf raw, ?_, ?_⟩
  · rw [← faultOf?_matchesOfText]
    exact faultOf?_bind_pure ..
  · rw [← faultOf?_matchesOfText, ← faultOf?_evaluate hlook (Call.answerSync e.perform) st,
      Engine.parseSync, Engine.gated, hsync]
    rfl

/-- An engine without handlers. -/
def emptyEngine : Engine Empty Unit where
  registry := ⟨none, [], [], false⟩
  settings := {}
  custom body _ _ := nomatch body

section Quoted

variable {value : Text} (h : ∀ c ∈ value, c ≠ '"' ∧ c ≠ '\\' ∧ isBracket c = false)

/-- An attribute text of one attribute, whose value stands between double quotes. -/
def quotedAttribute (value : Text) : Text :=
  'n' :: '=' :: '"' :: (value ++ ['"'])

include h

theorem attributeValues_quotedAttribute : attributeValues (quotedAttribute value) = [value] := by
  have hbackslash : '\\' ∉ quotedAttribute value := by
    have hvalue : '\\' ∉ value := fun hm => (h _ hm).2.1 rfl
    simp [quotedAttribute, hvalue]
  rw [attributeValues, dropEscapes_of_not_mem hbackslash,
    show quotedAttribute value = ['n'] ++ '=' :: '"' :: (value ++ '"' :: []) from rfl,
    attributePairs_quoted [] (by decide) fun hm => (h _ hm).1 rfl, attributePairs]
  rfl

/-- A tag with that attribute, which has no closer. -/
def quotedTag (value : Text) : Tag :=
  ⟨⟨false, ['x'], quotedAttribute value⟩, [],
    '[' :: '@' :: 'x' :: ' ' :: (quotedAttribute value ++ [']'])⟩

omit h in
theorem trim_quotedAttribute (value : Text) :
    trim (' ' :: quotedAttribute value) = quotedAttribute value := by
  rw [trim_cons_of_isBlank (by decide), trim_of_ends]
  · rintro c ⟨⟩
    decide
  · intro c hc
    rw [quotedAttribute, List.getLast?_cons, List.getLast?_cons, List.getLast?_cons,
      List.getLast?_concat] at hc
    obtain rfl : '"' = c := Option.some.inj hc
    decide

theorem ofText_quotedTag :
    Reading.ofText (quotedTag value).written = ⟨[([], quotedTag value)], []⟩ := by
  have hinner : ∀ c ∈ ' ' :: quotedAttribute value, isBracket c = false := by
    have hvalue : ∀ c ∈ value, isBracket c = false := fun c hc => (h c hc).2.2
    simp only [quotedAttribute, List.forall_mem_cons, List.forall_mem_append]
    exact ⟨by decide, by decide, by decide, by decide, hvalue, by decide, by simp⟩
  have hspells := @Opening.Spells.intro false [] ['x'] _ (by simp) (by decide) hinner
    (by rintro c ⟨⟩; decide)
  rw [trim_quotedAttribute] at hspells
  exact hspells.leftmost.eq_ofText.symm

theorem tagValues_quotedTag : tagValues (quotedTag value).written = [value] := by
  rw [tagValues, ofText_quotedTag h]
  exact (List.append_nil _).trans (attributeValues_quotedAttribute h)

end Quoted

theorem fault_of_values_unknown :
    let s := (quotedTag ['1']).written
    emptyEngine.registry.hasAsync = false ∧
      (∀ t ∈ (Reading.ofText s).matches, t.escaped = false → t.name ∉ emptyEngine.registry.names) ∧
      faultOf? (attributesOf (.text (quotedAttribute ['1']))) = none ∧
      faultOf? (matchesOf (.text s)) = none ∧
      faultOf? ((emptyEngine.parseSync (.text s)).run ()).outcome = none := by
  intro s
  have hvalue : ∀ c ∈ ['1'], c ≠ '"' ∧ c ≠ '\\' ∧ isBracket c = false :=
    List.forall_mem_singleton.mpr (by decide)
  have hnames : ∀ t ∈ (Reading.ofText s).matches, t.escaped = false →
      t.name ∉ emptyEngine.registry.names := fun _ _ _ => List.not_mem_nil
  obtain ⟨hread, hmatches, hparse⟩ :=
    fault_of_values (quotedAttribute ['1']) s emptyEngine rfl hnames ()
  rw [attributeValues_quotedAttribute hvalue] at hread
  rw [tagValues_quotedTag hvalue] at hmatches hparse
  exact ⟨rfl, hnames, hread, hmatches, hparse⟩

theorem overlongFault?_replicate {n : Nat} (h : digitLimit < n) :
    overlongFault? (List.replicate n '1') = some (.numeralTooLong n) := by
  obtain ⟨n, rfl⟩ := Nat.exists_eq_add_one_of_ne_zero (Nat.ne_zero_of_lt h)
  have hsign : splitSign (List.replicate (n + 1) '1') = (false, List.replicate (n + 1) '1') := by
    rw [List.replicate_succ]
    rfl
  have hdigits : isDigits (List.replicate (n + 1) '1') = true := by
    simp [isDigits, List.all_replicate, Char.isDigit]
  rw [overlongFault?, isOverlong, hsign, hdigits, List.length_replicate, if_pos (by simpa using h)]

/-- A tag without a handler fails the evaluation if the value of its attribute is too long, and so
does its attribute text alone. -/
theorem faultOf?_quoted {value : Text} (h : ∀ c ∈ value, c ≠ '"' ∧ c ≠ '\\' ∧ isBracket c = false) :
    faultOf? (attributesOf (.text (quotedAttribute value))) = overlongFault? value ∧
      faultOf? (matchesOf (.text (quotedTag value).written)) = overlongFault? value ∧
      faultOf? ((emptyEngine.parseSync (.text (quotedTag value).written)).run ()).outcome =
        overlongFault? value := by
  have hfault : [value].findSome? overlongFault? = overlongFault? value := by
    rw [findSome?_overlongFault?_cons, List.findSome?_nil, Option.or_none]
  have hlook : ∀ t ∈ (Reading.ofText (quotedTag value).written).matches, t.escaped = false →
      emptyEngine.registry.find? t.name = none := fun _ _ _ => rfl
  rw [← hfault]
  refine ⟨?_, ?_, ?_⟩
  · rw [faultOf?_attributesOf, attributeValues_quotedAttribute h]
  · rw [← tagValues_quotedTag h, ← faultOf?_matchesOfText]
    exact faultOf?_bind_pure ..
  · rw [← tagValues_quotedTag h, ← faultOf?_matchesOfText,
      ← faultOf?_evaluate hlook (Call.answerSync emptyEngine.perform) ()]
    rfl

theorem fault_of_overlong : emptyEngine.registry.names = [] ∧
    emptyEngine.registry.hasAsync = false ∧
    let value := List.replicate (digitLimit + 1) '1'
    faultOf? (attributesOf (.text (quotedAttribute value))) =
        some (.numeralTooLong (digitLimit + 1)) ∧
      faultOf? (matchesOf (.text (quotedTag value).written)) =
        some (.numeralTooLong (digitLimit + 1)) ∧
      faultOf? ((emptyEngine.parseSync (.text (quotedTag value).written)).run ()).outcome =
        some (.numeralTooLong (digitLimit + 1)) := by
  refine ⟨rfl, rfl, ?_⟩
  rw [← overlongFault?_replicate (Nat.lt_succ_self digitLimit)]
  refine faultOf?_quoted fun c hc => ?_
  rw [List.eq_of_mem_replicate hc]
  decide

end TagTemplate
