import TagTemplate.Engine
import TagTemplate.Proofs.Attributes
import TagTemplate.Proofs.Lookup
import TagTemplate.Proofs.Replacement
import TagTemplate.Proofs.Runs

/-!
# Well-nested documents

A document is a sequence of texts and nodes, and a node has a document inside. `Document.written`
writes it with tags. `Document.meaning` says what it stands for, by recursion on the document and
without reading any text : a text stands for itself, and a node that is neither escaped nor
without a handler for what its handler answers to the meaning of what is inside.

Evaluating what was written gives the meaning if the document is `WellNested`. The reason is that no
text of a document holds a closer of a name that the document must not use (`avoids_written`), so
that the first closer after the opening of a node is the node's own and the reader finds the nodes
again (`ofText_written`).
-/

namespace TagTemplate

/-! ## Documents -/

/-- A node of a document, without what is inside. -/
structure Node where
  /-- Whether its tag is escaped. -/
  escaped : Bool
  /-- Its name. -/
  name : Text
  /-- Its attributes with their texts, in order. -/
  attributes : List (Text × Text)
deriving Repr, DecidableEq

/-- A sequence of texts and nodes. -/
inductive Document where
  | empty
  | text (t : Text) (rest : Document)
  | node (n : Node) (inside rest : Document)
deriving Repr, DecidableEq

namespace Node

/-- The opening, without a backslash. -/
def openingText (n : Node) : Text :=
  '[' :: '@' :: (n.name ++ (attributeText n.attributes ++ [']']))

/-- The tag around the text `inside`, without a backslash. It has a closer if tags of its name
are written in pairs. -/
def tagText (paired : Text → Bool) (n : Node) (inside : Text) : Text :=
  n.openingText ++ (inside ++ if paired n.name then closer n.name else [])

/-- The tag that the reader is to find. -/
def tag (paired : Text → Bool) (n : Node) (inside : Text) : Tag :=
  ⟨⟨n.escaped, n.name, trim (attributeText n.attributes)⟩, inside,
    escapeMark n.escaped ++ n.tagText paired inside⟩

/-- The name of the node is a name, and its attributes can be written. -/
def WellFormed (n : Node) : Prop :=
  isName n.name = true ∧ ∀ p ∈ n.attributes, Writable p

instance (n : Node) : Decidable n.WellFormed :=
  inferInstanceAs (Decidable (_ ∧ _))

end Node

namespace Document

/-- The document as a text. Tags of the names in `paired` are written with a closer, and others
as an opening alone. -/
def written (paired : Text → Bool) : Document → Text
  | empty => []
  | text t rest => t ++ rest.written paired
  | node n inside rest =>
    escapeMark n.escaped ++ (n.tagText paired (inside.written paired) ++ rest.written paired)

/-- The tags of the document as the reader is to find them. -/
def reading (paired : Text → Bool) : Document → Reading Tag
  | empty => ⟨[], []⟩
  | text t rest => (rest.reading paired).after t
  | node n inside rest =>
    let after := rest.reading paired
    ⟨([], n.tag paired (inside.written paired)) :: after.pieces, after.tail⟩

/-- Texts hold no opening bracket and do not end in a backslash, nodes are well-formed and have
none of the names around them, and nothing is inside a node that is written without a closer. -/
def WellNested (paired : Text → Bool) (enclosing : List Text) : Document → Prop
  | empty => True
  | text t rest => '[' ∉ t ∧ t.getLast? ≠ some '\\' ∧ rest.WellNested paired enclosing
  | node n inside rest =>
    n.WellFormed ∧ n.name ∉ enclosing ∧ (paired n.name = false → inside = empty) ∧
      inside.WellNested paired (n.name :: enclosing) ∧ rest.WellNested paired enclosing

instance decidableWellNested (paired : Text → Bool) :
    ∀ (enclosing : List Text) (d : Document), Decidable (d.WellNested paired enclosing)
  | _, empty => isTrue trivial
  | enclosing, text _ rest =>
    have := decidableWellNested paired enclosing rest
    inferInstanceAs (Decidable (_ ∧ _ ∧ _))
  | enclosing, node n inside rest =>
    have := decidableWellNested paired (n.name :: enclosing) inside
    have := decidableWellNested paired enclosing rest
    inferInstanceAs (Decidable (_ ∧ _ ∧ (_ → _) ∧ _ ∧ _))

end Document

variable {B σ : Type}

section Meaning

variable (paired : Text → Bool) (look : Text → Option (Spec B)) (h : Call B → σ → Value × σ)

/-- What a node stands for when the state is `s`, and the state after that. The handlers are found
by `look`, and `h` tells what they answer and how they change the state. The text `inside` is
inside the node as it is written, and stands for `content`. -/
def Node.meaning (n : Node) (inside : Text) (content : σ → Text × σ) (s : σ) : Text × σ :=
  let tag := n.tagText paired inside
  if n.escaped then (tag, s)
  else match look n.name with
    | none => (tag, s)
    | some spec =>
      let (text, t) := content s
      let (v, u) := h ⟨⟨text, .ofPairs n.attributes, tag⟩, spec⟩ t
      (v.spliced?.getD [], u)

/-- What a document stands for when the state is `s`, and the state after that. -/
def Document.meaning : Document → σ → Text × σ
  | empty, s => ([], s)
  | text t rest, s =>
    let (after, u) := rest.meaning s
    (t ++ after, u)
  | node n inside rest, s =>
    let (here, t) := n.meaning paired look h (inside.written paired) inside.meaning s
    let (after, u) := rest.meaning t
    (here ++ after, u)

end Meaning

/-! ## Texts without a closer -/

/-- No closer of the name begins in the text `w`, whatever follows it. -/
def Avoids (name w : Text) : Prop :=
  ∀ v rest, v ≠ [] → v <:+ w → ¬closer name <+: v ++ rest

theorem avoids_nil (name : Text) : Avoids name [] :=
  fun _ _ hv hw => absurd (List.suffix_nil.mp hw) hv

theorem Avoids.append {name a b : Text} (ha : Avoids name a) (hb : Avoids name b) :
    Avoids name (a ++ b) := by
  intro v rest hv hw
  -- The suffix begins in the second text, or in the first and goes through the second.
  rcases List.suffix_or_suffix_of_suffix hw (List.suffix_append a b) with hvb | ⟨u, rfl⟩
  · exact hb v rest hv hvb
  · rcases List.eq_nil_or_concat u with rfl | ⟨u', c, rfl⟩
    · exact hb _ rest hv (List.suffix_refl b)
    · rw [List.append_assoc]
      exact ha _ _ (by simp) (List.suffix_append_self_iff.mp hw)

theorem Avoids.cons {name w : Text} {c : Char} (hc : ∀ rest, ¬closer name <+: c :: (w ++ rest))
    (h : Avoids name w) : Avoids name (c :: w) := by
  intro v rest hv hw
  rcases List.suffix_cons_iff.mp hw with rfl | hw
  · exact hc rest
  · exact h v rest hv hw

theorem avoids_of_not_mem {name w : Text} (h : '[' ∉ w) : Avoids name w := by
  rintro (_ | ⟨c, v⟩) rest hv hw ⟨u, hu⟩
  · exact hv rfl
  · obtain rfl : '[' = c := (List.cons.inj hu).1
    exact h (hw.mem (List.mem_cons_self ..))

/-- A text that has no closer is followed by the first one. -/
theorem Avoids.firstAt {name w : Text} (h : Avoids name w) (rest : Text) :
    FirstAt (closer name) (w ++ (closer name ++ rest)) w rest := by
  refine ⟨rfl, fun a b hab => ?_⟩
  by_contra hlt
  -- An earlier closer would begin in what is left of `w` after `a`.
  obtain ⟨v, rfl, hrest⟩ | ⟨v, rfl, -⟩ := List.append_eq_append_iff.mp hab.symm
  · refine h v (closer name ++ rest) ?_ (List.suffix_append ..) ⟨b, hrest⟩
    rintro rfl
    simp at hlt
  · simp at hlt

theorem Avoids.not_isInfix {name w : Text} (h : Avoids name w) : ¬closer name <:+: w := by
  rintro ⟨a, b, rfl⟩
  refine h (closer name ++ b) [] (by simp [closer]) ⟨a, by simp⟩ ?_
  simp

theorem avoids_escapeMark (name : Text) (escaped : Bool) : Avoids name (escapeMark escaped) :=
  avoids_of_not_mem (by cases escaped <;> decide)

theorem avoids_openingText (name : Text) {n : Node} (h : n.WellFormed) :
    Avoids name n.openingText := by
  have hname : '[' ∉ n.name := fun hc => absurd (isNameChar_of_mem h.1 hc) (by decide)
  have hattributes : '[' ∉ attributeText n.attributes := fun hc =>
    absurd (isBracket_of_mem_attributeText h.2 _ hc) (by decide)
  refine Avoids.cons (fun rest => ?_) (avoids_of_not_mem (by simp [hname, hattributes]))
  rintro ⟨b, hb⟩
  simp [closer] at hb

/-- A name is told by its closer. -/
theorem eq_of_closer_isPrefix {a b rest : Text} (ha : isName a = true) (hb : isName b = true)
    (h : closer a <+: closer b ++ rest) : a = b := by
  obtain ⟨u, hu⟩ := h
  have hstop : ∀ v, ∀ c ∈ (']' :: v : Text).head?, isNameChar c = false := by
    intro v c hc
    obtain rfl := Option.some.inj hc
    decide
  have heq : a ++ ']' :: u = b ++ ']' :: rest := by simpa [closer] using hu
  have hrun := congrArg (List.takeWhile isNameChar) heq
  rwa [takeWhile_append_of_stop (isName_iff.mp ha).2 (hstop _),
    takeWhile_append_of_stop (isName_iff.mp hb).2 (hstop _)] at hrun

theorem avoids_closer {name other : Text} (hname : isName name = true)
    (hother : isName other = true) (hne : other ≠ name) : Avoids name (closer other) := by
  have htail : '[' ∉ other := fun hc => absurd (isNameChar_of_mem hother hc) (by decide)
  refine Avoids.cons (fun rest h => ?_) (avoids_of_not_mem (by simp [htail]))
  exact hne (eq_of_closer_isPrefix hname hother h).symm

/-! ## The reader finds the nodes -/

section Written

variable {paired : Text → Bool} {enclosing : List Text}

/-- What is inside a node, or written in a document where the name occurs only without a closer,
holds no closer of the name. -/
theorem avoids_written {name : Text} (hname : isName name = true) {d : Document}
    (hd : d.WellNested paired enclosing) (h : name ∈ enclosing ∨ paired name = false) :
    Avoids name (d.written paired) := by
  induction d generalizing enclosing with
  | empty => exact avoids_nil name
  | text t rest ih =>
    obtain ⟨hplain, -, hrest⟩ := hd
    exact (avoids_of_not_mem hplain).append (ih hrest h)
  | node n inside rest ihinside ih =>
    obtain ⟨hn, hnew, -, hinside, hrest⟩ := hd
    have hending : Avoids name (if paired n.name then closer n.name else []) := by
      split
      case isFalse => exact avoids_nil name
      next hpaired =>
        refine avoids_closer hname hn.1 ?_
        rintro rfl
        exact h.elim hnew fun hsingle => absurd hpaired (by simp [hsingle])
    have hwithin := ihinside hinside (h.imp_left (List.mem_cons_of_mem _))
    exact (avoids_escapeMark name n.escaped).append
      (((avoids_openingText name hn).append (hwithin.append hending)).append (ih hrest h))

theorem spells_openingText {n : Node} (h : n.WellFormed) :
    Opening.Spells ⟨n.escaped, n.name, trim (attributeText n.attributes)⟩
      (escapeMark n.escaped ++ n.openingText) := by
  have hsep : ∀ c ∈ (attributeText n.attributes).head?, isBlank c = true := by
    cases n.attributes with
    | nil => simp [attributeText]
    | cons p attributes =>
      intro c hc
      obtain rfl := Option.some.inj hc
      decide
  exact @Opening.Spells.intro n.escaped [] _ _ (by simp) h.1 (isBracket_of_mem_attributeText h.2)
    hsep

/-- A node is written as its tag, and what follows it is left. -/
theorem heads_tag {n : Node} {inside rest : Document}
    (h : (Document.node n inside rest).WellNested paired enclosing) :
    (n.tag paired (inside.written paired)).Heads ((Document.node n inside rest).written paired)
      (rest.written paired) := by
  obtain ⟨hn, -, hsingle, hinside, hrest⟩ := h
  have hspells := spells_openingText hn
  cases hpaired : paired n.name with
  | true =>
    have hfirst := (avoids_written hn.1 hinside (Or.inl (List.mem_cons_self ..))).firstAt
      (rest.written paired)
    have hheads := Tag.Heads.paired hspells hfirst
    simpa [Node.tag, Node.tagText, Document.written, hpaired] using hheads
  | false =>
    obtain rfl := hsingle hpaired
    have hheads := Tag.Heads.single hspells (avoids_written hn.1 hrest (Or.inr hpaired)).not_isInfix
    simpa [Node.tag, Node.tagText, Document.written, hpaired] using hheads

/-- Reading what was written gives the tags of the nodes. -/
theorem ofText_written {d : Document} (hd : d.WellNested paired enclosing) :
    Reading.ofText (d.written paired) = d.reading paired := by
  induction d generalizing enclosing with
  | empty => exact Reading.ofText_nil
  | text t rest ih =>
    obtain ⟨hplain, hlast, hrest⟩ := hd
    rw [Document.written, Reading.ofText_append_of_plain _ hplain hlast, ih hrest,
      Document.reading]
  | node n inside rest _ ih =>
    rw [Reading.ofText_of_heads (heads_tag hd), ih hd.2.2.2.2, Document.reading]

theorem attributesFit_of_mem_reading {d : Document} (hd : d.WellNested paired enclosing) :
    ∀ t ∈ (d.reading paired).matches, attributesFit t.attributeText = true := by
  induction d generalizing enclosing with
  | empty => simp [Document.reading, Reading.matches]
  | text t rest ih =>
    rw [Document.reading, Reading.matches_after]
    exact ih hd.2.2
  | node n inside rest _ ih =>
    obtain ⟨hn, -, -, -, hrest⟩ := hd
    exact List.forall_mem_cons.mpr ⟨attributesFit_trim_attributeText hn.2, ih hrest⟩

end Written

/-! ## Evaluation gives the meaning -/

/-- Calls to the handlers that `look` finds are answered as `h` says : without a fault, and with a
result that can be spliced into a text. -/
def AnsweredBy (answer : Call B → Process σ Value) (look : Text → Option (Spec B))
    (h : Call B → σ → Value × σ) : Prop :=
  ∀ (c : Call B) (s : σ), (∃ name, look name = some c.spec) →
    ((answer c).run s).outcome = .ok (h c s).1 ∧ ((answer c).run s).state = (h c s).2 ∧
      (h c s).1.spliced?.isSome = true

section Meaning

variable {paired : Text → Bool} {enclosing : List Text} {look : Text → Option (Spec B)}
  {answer : Call B → Process σ Value} {h : Call B → σ → Value × σ}

/-- A written document is evaluated as its tags are. -/
theorem yields_evaluate {d : Document} (hd : d.WellNested paired enclosing) {s t : σ} {text : Text}
    (hyields : (replaceReading look (d.reading paired)).Yields answer s text t) :
    ∃ found, (evaluate look (d.written paired)).Yields answer s ⟨text, found⟩ t := by
  have hread := Reading.leftmost_iff.mpr (ofText_written hd).symm
  refine ⟨(placedFrom 0 (d.reading paired).pieces).map Prod.snd, ?_⟩
  rw [evaluate_eq_replaceReading look hread (attributesFit_of_mem_reading hd), noteFound]
  split
  · exact hyields.bind (.done _ _)
  · exact .note (hyields.bind (.done _ _))

/-- A tag is replaced by what its node stands for, if what is inside is evaluated to what that
stands for. -/
theorem yields_tag (ha : AnsweredBy answer look h) {n : Node} (hn : n.WellFormed) {inside : Text}
    {content : σ → Text × σ} {s : σ} (hinside : ∃ found, (evaluate look inside).Yields answer s
      ⟨(content s).1, found⟩ (content s).2) :
    (replaceTag look ((n.tag paired inside).placedAt 0)).Yields answer s
      (n.meaning paired look h inside content s).1
      (n.meaning paired look h inside content s).2 := by
  have hwritten : ((n.tag paired inside).placedAt 0).written =
      escapeMark n.escaped ++ n.tagText paired inside := rfl
  have hattributes : ((n.tag paired inside).placedAt 0).attributes = .ofPairs n.attributes :=
    congrArg Attributes.ofPairs (attributePairs_trim_attributeText hn.2)
  rw [Node.meaning]
  cases he : n.escaped with
  | true =>
    rw [replaceTag_of_escaped he, hwritten, he]
    exact .done _ _
  | false =>
    cases hlook : look n.name with
    | none =>
      rw [replaceTag_of_unknown he hlook, hwritten, he]
      exact .note (.done _ _)
    | some spec =>
      rw [replaceTag_of_known he hlook, hwritten, hattributes, he]
      obtain ⟨found, hinside⟩ := hinside
      refine hinside.bind (Evaluation.Yields.call_iff.mpr ?_)
      obtain ⟨hanswer, hstate, hv⟩ := ha ⟨⟨(content s).1, .ofPairs n.attributes,
        n.tagText paired inside⟩, spec⟩ (content s).2 ⟨n.name, hlook⟩
      refine ⟨_, hanswer, ?_⟩
      obtain ⟨text, htext⟩ := Option.isSome_iff_exists.mp hv
      rw [Evaluation.splice, htext]
      exact ⟨congrArg Except.ok (by simp [htext]), hstate⟩

/-- The tags of a document are replaced by what its nodes stand for. -/
theorem yields_reading (ha : AnsweredBy answer look h) {d : Document}
    (hd : d.WellNested paired enclosing) (s : σ) :
    (replaceReading look (d.reading paired)).Yields answer s (d.meaning paired look h s).1
      (d.meaning paired look h s).2 := by
  induction d generalizing enclosing s with
  | empty => exact .done _ _
  | text t rest ih =>
    rw [Document.reading, replaceReading_after]
    exact (ih hd.2.2 s).bind (.done _ _)
  | node n inside rest ihinside ih =>
    obtain ⟨hn, -, -, hinside, hrest⟩ := hd
    rw [Document.reading, replaceReading_cons, Document.meaning]
    have hcontent := yields_evaluate hinside (ihinside hinside s)
    exact (yields_tag ha hn hcontent).bind ((ih hrest _).bind (.done _ _))

end Meaning

/-! ## The engine -/

/-- The registered handlers of the engine do what `h` says when they are called. -/
def Engine.HandledBy (e : Engine B σ) (h : Call B → σ → Value × σ) : Prop :=
  AnsweredBy e.perform e.registry.find? h

/-- The run succeeds with the text of a meaning, and leaves its state. -/
def Run.Gives (r : Run σ Evaluated) (meaning : Text × σ) : Prop :=
  ∃ found, r.outcome = .ok ⟨meaning.1, found⟩ ∧ r.state = meaning.2

section Engine

variable {e : Engine B σ} {h : Call B → σ → Value × σ}

theorem answeredBy_async (hh : e.HandledBy h) :
    AnsweredBy (Call.answerAsync e.perform) e.registry.find? h := by
  intro c s hname
  obtain ⟨hout, hstate, hv⟩ := hh c s hname
  rw [Call.run_answerAsync, Call.run_bodyProcess]
  exact ⟨by rw [hout]; rfl, hstate, hv⟩

theorem answeredBy_sync (hh : e.HandledBy h)
    (hdirect : ∀ spec ∈ e.registry.specs, spec.handler.isAwaited = false) :
    AnsweredBy (Call.answerSync e.perform) e.registry.find? h := by
  rintro c s ⟨name, hname⟩
  rw [Call.run_answerSync _ _ _ (hdirect _ (Registry.mem_of_find? hname))]
  exact answeredBy_async hh c s ⟨name, hname⟩

end Engine

/-- Evaluating a well-nested document that was written gives what it stands for and leaves the
state that it says : asynchronously always, and synchronously if no handler has a result that has
to be awaited. -/
theorem evaluation_of_written (e : Engine B σ) (h : Call B → σ → Value × σ) (hh : e.HandledBy h)
    (paired : Text → Bool) (d : Document) (hd : d.WellNested paired []) (s : σ) :
    ((e.textAsync (d.written paired)).run s).Gives (d.meaning paired e.registry.find? h s) ∧
      ((∀ spec ∈ e.registry.specs, spec.handler.isAwaited = false) →
        ((e.textSync (d.written paired)).run s).Gives
          (d.meaning paired e.registry.find? h s)) := by
  constructor
  · obtain ⟨found, hyields⟩ := yields_evaluate hd (yields_reading (answeredBy_async hh) hd s)
    exact ⟨found, hyields.outcome, hyields.state⟩
  · intro hdirect
    obtain ⟨found, hyields⟩ := yields_evaluate hd (yields_reading (answeredBy_sync hh hdirect) hd s)
    exact ⟨found, hyields.outcome, hyields.state⟩

/-- An engine whose handler `a` counts its calls, and puts its content into parentheses at every
other one of them and leaves nothing behind at the others. -/
def alternatingEngine : Engine Unit Nat where
  registry := ⟨none, [], [⟨['a'], .custom () .direct, false, false, []⟩], false⟩
  settings := {}
  custom _ _ args := .act (· + 1) fun n =>
    .done (if n % 2 = 0 then .text ('(' :: args.content ++ [')']) else .null)

/-- Siblings of one name, names one of which begins with the other, an escaped node and one without
a handler. -/
theorem evaluation_of_written_alternating :
    ∃ (h : Call Unit → Nat → Value × Nat) (d : Document),
      alternatingEngine.HandledBy h ∧ d.WellNested (fun name => name != ['b']) [] ∧
      d.written (fun name => name != ['b']) =
        "x[@ab k=\"v\"][@a][/@a][/@ab][@a][@b]\\[@ab]y[/@ab][/@a]z[@a][/@a]".toList ∧
      ((alternatingEngine.textSync (d.written fun name => name != ['b'])).run 0).Gives
        (d.meaning (fun name => name != ['b']) alternatingEngine.registry.find? h 0) := by
  have hh : alternatingEngine.HandledBy fun c n =>
      (if n % 2 = 0 then .text ('(' :: c.content ++ [')']) else .null, n + 1) := by
    rintro ⟨args, spec⟩ n ⟨name, hname⟩
    obtain rfl : spec = ⟨['a'], .custom () .direct, false, false, []⟩ :=
      List.mem_singleton.mp (Registry.mem_of_find? hname)
    refine ⟨rfl, rfl, ?_⟩
    dsimp only
    split <;> rfl
  have hd : (Document.text ['x'] (.node ⟨false, ['a', 'b'], [(['k'], ['v'])]⟩
      (.node ⟨false, ['a'], []⟩ .empty .empty)
      (.node ⟨false, ['a'], []⟩ (.node ⟨false, ['b'], []⟩ .empty
        (.node ⟨true, ['a', 'b'], []⟩ (.text ['y'] .empty) .empty))
        (.text ['z'] (.node ⟨false, ['a'], []⟩ .empty .empty))))).WellNested
      (fun name => name != ['b']) [] := by decide +kernel
  have hrun := evaluation_of_written alternatingEngine _ hh _ _ hd 0
  exact ⟨_, _, hh, hd, by decide +kernel, hrun.2 (by decide)⟩

end TagTemplate
