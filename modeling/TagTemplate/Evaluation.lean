import TagTemplate.Handler
import TagTemplate.Process
import TagTemplate.Value.Shown

/-!
# Evaluation

Evaluating a text replaces its tags, the inner ones first. `evaluate` does not call
handlers : it is a value of `Evaluation`, which says what happens next, asks for the
handler calls one after another and goes on with the results it is given. Whoever has an
`Evaluation` decides how the calls are made : `Evaluation.drive` makes them as processes,
and `Evaluation.answered` gives recorded results.

An escaped tag loses its backslash and is otherwise left alone; so is a tag without a
handler, with everything inside it. The content of any other tag is evaluated before its
own handler is called, and the result takes the place of the tag. The text of a result is
never read for tags again.
-/

namespace TagTemplate

/-- An evaluation that asks for handler calls. -/
inductive Evaluation (B α : Type) where
  /-- It is done. -/
  | done (result : α)
  /-- It fails. -/
  | fail (fault : Fault)
  /-- It notes something and goes on. -/
  | note (n : Note) (next : Evaluation B α)
  /-- It asks for a call and goes on with the result. -/
  | call (request : Call B) (resume : Value → Evaluation B α)

/-- A text after evaluation. -/
structure Evaluated where
  /-- The text with its tags replaced. -/
  text : Text
  /-- The tags of the text as it was, those inside others left out. -/
  found : List Match

namespace Evaluation

variable {B α β : Type}

/-- The evaluation that goes on with the result of `e`. -/
def bind (e : Evaluation B α) (next : α → Evaluation B β) : Evaluation B β :=
  match e with
  | done a => next a
  | fail f => fail f
  | note n e => note n (e.bind next)
  | call c resume => call c fun v => (resume v).bind next

instance : Monad (Evaluation B) where
  pure := done
  bind := bind

/-- The evaluation that ends as an outcome says. -/
def ofExcept : Except Fault α → Evaluation B α
  | .ok a => done a
  | .error f => fail f

/-- The text that takes the place of a tag with this result. -/
def splice (v : Value) : Evaluation B Text :=
  match v.spliced? with
  | some t => done t
  | none => fail .integerTooLong

/-- The process that makes each call as `answer` says. -/
def drive {σ : Type} (answer : Call B → Process σ Value) : Evaluation B α → Process σ α
  | done a => .done a
  | fail f => .fail f
  | note n e => .emit (.note n) (e.drive answer)
  | call c resume => (answer c).bind fun v => (resume v).drive answer

/-- The calls that are asked for when the results are `results` and absent after them, and
how the evaluation ends. -/
def answered : Evaluation B α → List Value → List (Call B) × Except Fault α
  | done a, _ => ([], .ok a)
  | fail f, _ => ([], .error f)
  | note _ e, results => e.answered results
  | call c resume, results =>
    let rest := (resume (results.headD .null)).answered results.tail
    (c :: rest.1, rest.2)

end Evaluation

/-! ## Evaluating a text -/

variable {B : Type}

mutual

/-- The evaluation of a text, with `look` telling the handler of a name. -/
def evaluate (look : Text → Option (Spec B)) (source : Text) : Evaluation B Evaluated :=
  match h : Reading.matchesOfText source with
  | .error f => .fail f
  | .ok reading =>
    let result := (evaluatePieces look source.length reading.pieces
      (fun _ hp => Reading.length_content_of_mem h hp)).bind fun text =>
        .done ⟨text ++ reading.tail, reading.matches⟩
    if reading.pieces.isEmpty then result
    else .note (.found reading.pieces.length source.length) result
termination_by (source.length, 1, 0)

/-- The evaluation of tags and the gaps before them, whose contents are all shorter than
`bound`. -/
def evaluatePieces (look : Text → Option (Spec B)) (bound : Nat) :
    (pieces : List (Text × Match)) → (∀ p ∈ pieces, p.2.content.length < bound) →
      Evaluation B Text
  | [], _ => .done []
  | (gap, tag) :: rest, h =>
    let others (replaced : Text) : Evaluation B Text :=
      (evaluatePieces look bound rest fun p hp => h p (List.mem_cons_of_mem _ hp)).bind
        fun text => .done (gap ++ replaced ++ text)
    if tag.escaped then others (tag.written.drop 1)
    else match look tag.name with
      | none => .note (.unknown tag.name) (others tag.written)
      | some spec =>
        have : tag.content.length < bound := h _ (List.mem_cons_self ..)
        let inner := if tag.content.isEmpty then .done []
          else (evaluate look tag.content).bind fun r => .done r.text
        inner.bind fun content =>
          .call ⟨⟨content, tag.attributes, tag.written⟩, spec⟩ fun result =>
            (Evaluation.splice result).bind others
termination_by pieces => (bound, 0, pieces.length)

end

/-! ## Making the calls -/

namespace Call

variable {σ : Type}

/-- The body of a handler, as the evaluation sees it : recorded when it starts, and with its
fault reported together with the tag. -/
def bodyProcess (perform : Call B → Process σ Value) (c : Call B) : Process σ Value :=
  .emit (.called c.toRecord) ((perform c).mapFault (Fault.ofHandler c.spec.name c.written))

/-- A call in a synchronous run. An awaitable is refused before its body starts. -/
def answerSync (perform : Call B → Process σ Value) (c : Call B) : Process σ Value :=
  .emit (.note (.calling c.spec.name c.written))
    (if c.spec.handler.isAwaited then .fail (.awaitableReturned c.spec.name)
      else c.bodyProcess perform)

/-- A call in an asynchronous run. What has to be awaited is awaited. -/
def answerAsync (perform : Call B → Process σ Value) (c : Call B) : Process σ Value :=
  .emit (.note (.calling c.spec.name c.written))
    (if c.spec.handler.isAwaited then .pause (c.bodyProcess perform)
      else c.bodyProcess perform)

end Call

variable {σ : Type}

/-- The synchronous evaluation of a text. -/
def evaluateSync (perform : Call B → Process σ Value) (look : Text → Option (Spec B))
    (source : Text) : Process σ Evaluated :=
  (evaluate look source).drive (Call.answerSync perform)

/-- The asynchronous evaluation of a text. -/
def evaluateAsync (perform : Call B → Process σ Value) (look : Text → Option (Spec B))
    (source : Text) : Process σ Evaluated :=
  (evaluate look source).drive (Call.answerAsync perform)

end TagTemplate
