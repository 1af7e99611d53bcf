import TagTemplate.Crew
import TagTemplate.Tag.Reading
import TagTemplate.Value.Shown

/-!
# Trees

A tree is a value looked at through its mappings, lists and tuples. Walking a tree replaces
each of its texts by what evaluation makes of it, and keeps its shape. A walk is given a test
that picks the texts to be evaluated; the others stay as they are, and an engine's walks go by
the quick test. Every entry of a mapping and every item of a list or tuple is a boundary : if it
fails, the failure goes to the journal under the entry's key or the item's place, and the entry
is left out. Only the root has no boundary.

`Value.walkSync` goes through the entries in order. The asynchronous walk runs all texts of
the tree at once, as a crew : `Value.entryJobs` lists their processes in order and
`Value.fill` puts the results back in their places. That each container gathers its own entries
makes no difference (`gathers_iff`).
-/

namespace TagTemplate

namespace Value

variable {σ : Type}

/-- The label of an item. -/
def itemLabel (index : Nat) : Text :=
  s!"item {index}".toList

/-- The texts that keys are shown as, unless one of them holds an integer that is too long. -/
def keyLabels? (entries : List (Value × Value)) : Option (List Text) :=
  entries.mapM fun e => e.1.shown?

/-- The process that evaluates a text of the tree. -/
def leafProcess (evaluateText : Text → Process σ Text) (s : Text) : Process σ Value :=
  (evaluateText s).bind fun t => .done (.text t)

/-! ## One entry after another -/

mutual

/-- The walk that takes the entries in order. -/
def walkSync (test : Text → Bool) (evaluateText : Text → Process σ Text) :
    Value → Process σ Value
  | .text s => if test s then leafProcess evaluateText s else .done (.text s)
  | .list items => (walkItemsSync test evaluateText 0 items).bind fun vs => .done (.list vs)
  | .tuple items => (walkItemsSync test evaluateText 0 items).bind fun vs => .done (.tuple vs)
  | .dict entries => (walkEntriesSync test evaluateText entries).bind fun es => .done (.dict es)
  | .view entries => (walkEntriesSync test evaluateText entries).bind fun es => .done (.dict es)
  | v => .done v

/-- The walk through items from a place on. -/
def walkItemsSync (test : Text → Bool) (evaluateText : Text → Process σ Text) (index : Nat) :
    List Value → Process σ (List Value)
  | [] => .done []
  | v :: rest =>
    ((walkSync test evaluateText v).keep (itemLabel index)).bind fun kept =>
      (walkItemsSync test evaluateText (index + 1) rest).bind fun vs => .done (kept.toList ++ vs)

/-- The walk through the entries of a mapping. -/
def walkEntriesSync (test : Text → Bool) (evaluateText : Text → Process σ Text) :
    List (Value × Value) → Process σ (List (Value × Value))
  | [] => .done []
  | (k, v) :: rest =>
    match k.shown? with
    | none => .fail .integerTooLong
    | some label =>
      ((walkSync test evaluateText v).keep label).bind fun kept =>
        (walkEntriesSync test evaluateText rest).bind fun es =>
          .done ((kept.map fun w => (k, w)).toList ++ es)

end

/-! ## All entries at once -/

mutual

/-- The processes of an entry, in the order of the texts. A mapping with a key that cannot be
shown fails before any of its entries is looked at. -/
def entryJobs (test : Text → Bool) (evaluateText : Text → Process σ Text) (label : Text) :
    Value → List (Process σ (Option Value))
  | .text s => if test s then [(leafProcess evaluateText s).keep label] else []
  | .list items => itemJobs test evaluateText 0 items
  | .tuple items => itemJobs test evaluateText 0 items
  | .dict entries =>
    if (keyLabels? entries).isSome then mappingJobs test evaluateText entries
    else [Process.keep label (.fail .integerTooLong)]
  | .view entries =>
    if (keyLabels? entries).isSome then mappingJobs test evaluateText entries
    else [Process.keep label (.fail .integerTooLong)]
  | _ => []

/-- The processes of items from a place on. -/
def itemJobs (test : Text → Bool) (evaluateText : Text → Process σ Text) (index : Nat) :
    List Value → List (Process σ (Option Value))
  | [] => []
  | v :: rest =>
    entryJobs test evaluateText (itemLabel index) v ++ itemJobs test evaluateText (index + 1) rest

/-- The processes of a mapping's entries. -/
def mappingJobs (test : Text → Bool) (evaluateText : Text → Process σ Text) :
    List (Value × Value) → List (Process σ (Option Value))
  | [] => []
  | (k, v) :: rest =>
    entryJobs test evaluateText (k.shown?.getD []) v ++ mappingJobs test evaluateText rest

end

mutual

/-- An entry with the results of its processes in place, nothing if it is dropped, and the
results left over. -/
def fill (test : Text → Bool) :
    Value → List (Option Value) → Option Value × List (Option Value)
  | .text s, results =>
    if test s then (results.headD none, results.tail) else (some (.text s), results)
  | .list items, results =>
    let (vs, results) := fillItems test items results
    (some (.list vs), results)
  | .tuple items, results =>
    let (vs, results) := fillItems test items results
    (some (.tuple vs), results)
  | .dict entries, results =>
    if (keyLabels? entries).isSome then
      let (es, results) := fillEntries test entries results
      (some (.dict es), results)
    else (results.headD none, results.tail)
  | .view entries, results =>
    if (keyLabels? entries).isSome then
      let (es, results) := fillEntries test entries results
      (some (.dict es), results)
    else (results.headD none, results.tail)
  | v, results => (some v, results)

/-- The items that are kept, with the results in place. -/
def fillItems (test : Text → Bool) :
    List Value → List (Option Value) → List Value × List (Option Value)
  | [], results => ([], results)
  | v :: rest, results =>
    let (kept, results) := fill test v results
    let (vs, results) := fillItems test rest results
    (kept.toList ++ vs, results)

/-- The entries that are kept, with the results in place. -/
def fillEntries (test : Text → Bool) :
    List (Value × Value) → List (Option Value) → List (Value × Value) × List (Option Value)
  | [], results => ([], results)
  | (k, v) :: rest, results =>
    let (kept, results) := fill test v results
    let (es, results) := fillEntries test rest results
    ((kept.map fun w => (k, w)).toList ++ es, results)

end

/-- The processes of the whole tree : a text at the root is a process without a boundary, and
so is a mapping at the root whose keys cannot be shown. -/
def rootJobs (test : Text → Bool) (evaluateText : Text → Process σ Text) :
    Value → List (Process σ (Option Value))
  | .text s =>
    if test s then [(leafProcess evaluateText s).bind fun v => .done (some v)] else []
  | .dict entries =>
    if (keyLabels? entries).isSome then mappingJobs test evaluateText entries
    else [.fail .integerTooLong]
  | .view entries =>
    if (keyLabels? entries).isSome then mappingJobs test evaluateText entries
    else [.fail .integerTooLong]
  | v => entryJobs test evaluateText [] v

/-- The tree that the endings of its processes make. A process of an entry ends with a fault
only if the fault is not an ordinary one; the first such fault is the tree's. -/
def ofEndings (test : Text → Bool) (tree : Value) (endings : List (Except Fault (Option Value))) :
    Except Fault Value := do
  let results ← endings.mapM id
  return (fill test tree results).1.getD .null

/-- The run of the walk that takes all texts at once. -/
def runAsync (test : Text → Bool) (evaluateText : Text → Process σ Text) (tree : Value)
    (s : σ) : Run σ Value :=
  let crew := Crew.run (rootJobs test evaluateText tree) s
  ⟨ofEndings test tree crew.endings, crew.state, crew.journal⟩

end Value

end TagTemplate
