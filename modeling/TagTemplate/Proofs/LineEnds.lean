import TagTemplate.Proofs.Atomicity
import TagTemplate.Proofs.Encoding
import TagTemplate.Proofs.Escaping
import TagTemplate.Proofs.Leaves

/-!
# What a run of the command line copies

A text source is read with its line ends unified (`Unified`), so a run copies what is between the
tags of the text with line feeds for line ends (`Copied`), and every other character as it is. A
text without an opening is so copied as a whole, and byte for byte exactly if it holds no carriage
return : unifying line ends makes no opening where there was none (`not_opensAt_unifyLineEnds`).
-/

namespace TagTemplate

/-! ## Line ends -/

/-- `Unified s t` : the text `t` is `s` with a line feed for every carriage return, of which one
before a line feed may be left out. -/
inductive Unified : Text → Text → Prop
  | nil : Unified [] []
  | keep {c : Char} (hc : c ≠ '\r') {s t : Text} (h : Unified s t) : Unified (c :: s) (c :: t)
  | alone {s t : Text} (h : Unified s t) : Unified ('\r' :: s) ('\n' :: t)
  | pair {s t : Text} (h : Unified s t) : Unified ('\r' :: '\n' :: s) ('\n' :: t)

namespace Unified

/-- The pieces of the text come from pieces of what it was. -/
theorem split {s u v : Text} (h : Unified s (u ++ v)) :
    ∃ a b, s = a ++ b ∧ Unified a u ∧ Unified b v := by
  generalize ht : u ++ v = t at h
  induction h generalizing u with
  | nil =>
    obtain ⟨rfl, rfl⟩ := List.append_eq_nil_iff.mp ht
    exact ⟨[], [], rfl, .nil, .nil⟩
  | @keep c hc s t h ih =>
    rcases List.append_eq_cons_iff.mp ht with ⟨rfl, rfl⟩ | ⟨u, rfl, hu⟩
    · exact ⟨[], c :: s, rfl, .nil, .keep hc h⟩
    · obtain ⟨a, b, rfl, ha, hb⟩ := ih hu.symm
      exact ⟨c :: a, b, rfl, .keep hc ha, hb⟩
  | @alone s t h ih =>
    rcases List.append_eq_cons_iff.mp ht with ⟨rfl, rfl⟩ | ⟨u, rfl, hu⟩
    · exact ⟨[], '\r' :: s, rfl, .nil, .alone h⟩
    · obtain ⟨a, b, rfl, ha, hb⟩ := ih hu.symm
      exact ⟨'\r' :: a, b, rfl, .alone ha, hb⟩
  | @pair s t h ih =>
    rcases List.append_eq_cons_iff.mp ht with ⟨rfl, rfl⟩ | ⟨u, rfl, hu⟩
    · exact ⟨[], '\r' :: '\n' :: s, rfl, .nil, .pair h⟩
    · obtain ⟨a, b, rfl, ha, hb⟩ := ih hu.symm
      exact ⟨'\r' :: '\n' :: a, b, rfl, .pair ha, hb⟩

/-- A text without a line feed was what it is. -/
theorem eq_of_not_mem {s t : Text} (h : Unified s t) (hn : '\n' ∉ t) : s = t := by
  induction h with
  | nil => rfl
  | keep hc _ ih => rw [ih fun hmem => hn (List.mem_cons_of_mem _ hmem)]
  | alone _ _ => exact absurd (List.mem_cons_self ..) hn
  | pair _ _ => exact absurd (List.mem_cons_self ..) hn

/-- What holds of line feeds and of carriage returns, and of the text, held of what it was. -/
theorem forall_mem {p : Char → Prop} (hp : p '\n' ∧ p '\r') {s t : Text} (h : Unified s t)
    (ht : ∀ c ∈ t, p c) : ∀ c ∈ s, p c := by
  induction h with
  | nil => simp
  | keep hc _ ih => simp_all
  | alone _ ih => simp_all
  | pair _ ih => simp_all

theorem head {s t : Text} (h : Unified s t) {p : Char → Prop} (hp : p '\r')
    (ht : ∀ c ∈ t.head?, p c) : ∀ c ∈ s.head?, p c := by
  cases h with
  | nil => exact ht
  | keep hc h => exact ht
  | alone h => simpa using hp
  | pair h => simpa using hp

/-- An opening was one before line ends were unified. -/
theorem exists_spells {o : Opening} {s t : Text} (h : Unified s t) (ho : o.Spells t) :
    ∃ o' : Opening, o'.Spells s := by
  cases ho with
  | @intro escaped blanks name inner hblanks hname hinner hsep =>
    have hmark : escapeMark escaped ++ '[' :: '@' :: (blanks ++ (name ++ (inner ++ [']']))) =
        (escapeMark escaped ++ ['[', '@']) ++ (blanks ++ (name ++ (inner ++ [']']))) := by simp
    rw [hmark] at h
    obtain ⟨a, s, rfl, ha, h⟩ := h.split
    obtain ⟨blanks', s, rfl, hb, h⟩ := h.split
    obtain ⟨name', s, rfl, hn, h⟩ := h.split
    obtain ⟨inner', s, rfl, hi, hc⟩ := h.split
    obtain rfl := ha.eq_of_not_mem (by cases escaped <;> decide)
    obtain rfl := hn.eq_of_not_mem fun hmem => absurd (isNameChar_of_mem hname hmem) (by decide)
    obtain rfl := hc.eq_of_not_mem (by decide)
    refine ⟨⟨escaped, name', trim inner'⟩, ?_⟩
    have hspells := Opening.Spells.intro escaped (hb.forall_mem (by decide) hblanks) hname
      (hi.forall_mem (by decide) hinner) (hi.head (by decide) hsep)
    simpa using hspells

end Unified

/-- The text after `previous` with its line ends unified. -/
def unifyAfter (previous : Char) (s : Text) : Text :=
  ((previous :: s).zip s).filterMap fun (previous, c) =>
    if previous = '\r' ∧ c = '\n' then none else some (if c = '\r' then '\n' else c)

theorem unifyAfter_cons (previous c : Char) (s : Text) : unifyAfter previous (c :: s) =
    if previous = '\r' ∧ c = '\n' then unifyAfter c s
    else (if c = '\r' then '\n' else c) :: unifyAfter c s := by
  rw [unifyAfter, List.zip_cons_cons, List.filterMap_cons]
  split <;> simp_all [unifyAfter]

theorem unified_unifyAfter (s : Text) : ∀ previous : Char,
    (previous ≠ '\r' → Unified s (unifyAfter previous s)) ∧
      (previous = '\r' → Unified ('\r' :: s) ('\n' :: unifyAfter previous s)) := by
  induction s with
  | nil => exact fun previous => ⟨fun _ => .nil, fun _ => .alone .nil⟩
  | cons c s ih =>
    intro previous
    obtain ⟨hother, hreturn⟩ := ih c
    have hplain (h : ¬(previous = '\r' ∧ c = '\n')) :
        Unified (c :: s) (unifyAfter previous (c :: s)) := by
      rw [unifyAfter_cons, if_neg h]
      split
      next hc => exact hc ▸ hreturn hc
      next hc => exact .keep hc (hother hc)
    refine ⟨fun hp => hplain fun h => hp h.1, fun hp => ?_⟩
    by_cases hc : c = '\n'
    · rw [unifyAfter_cons, if_pos ⟨hp, hc⟩, hc]
      exact .pair (hc ▸ hother (by rw [hc]; decide))
    · exact .alone (hplain fun h => hc h.2)

theorem unified_unifyLineEnds (s : Text) : Unified s (unifyLineEnds s) :=
  (unified_unifyAfter s ' ').1 (by decide)

/-- No carriage return is left, and without one nothing changes. -/
theorem unifyLineEnds_eq_self_iff {s : Text} : unifyLineEnds s = s ↔ '\r' ∉ s := by
  have hleft : '\r' ∉ unifyLineEnds s := by
    intro h
    obtain ⟨⟨previous, c⟩, -, hc⟩ := List.mem_filterMap.mp h
    simp only at hc
    split at hc
    · cases hc
    · split at hc <;> simp_all
  have hkeep {s t : Text} (h : Unified s t) (hs : '\r' ∉ s) : t = s := by
    induction h with
    | nil => rfl
    | keep _ _ ih => rw [ih fun hmem => hs (List.mem_cons_of_mem _ hmem)]
    | alone _ _ => exact absurd (List.mem_cons_self ..) hs
    | pair _ _ => exact absurd (List.mem_cons_self ..) hs
  exact ⟨fun h => h ▸ hleft, hkeep (unified_unifyLineEnds s)⟩

/-- Where no opening is written, none is after line ends are unified. -/
theorem not_opensAt_unifyLineEnds {s : Text} (h : ∀ k, ¬OpensAt (s.drop k)) (k : Nat) :
    ¬OpensAt ((unifyLineEnds s).drop k) := by
  rintro ⟨o, w, ho, rest, hrest⟩
  have hs := unified_unifyLineEnds s
  rw [← List.take_append_drop k (unifyLineEnds s), ← hrest] at hs
  obtain ⟨a, b, rfl, -, hb⟩ := hs.split
  obtain ⟨c, d, rfl, hc, -⟩ := hb.split
  obtain ⟨o', ho'⟩ := hc.exists_spells ho
  refine h a.length ⟨o', c, ho', ?_⟩
  rw [List.drop_left]
  exact List.prefix_append c d

/-! ## Copied texts -/

variable {B σ α β : Type}

/-- What may take the place of a tag in a text that was copied : an escaped tag loses its backslash,
and one whose name is not registered stays. -/
inductive Filled (look : Text → Option (Spec B)) (t : Tag) : Text → Prop
  | escaped (h : t.escaped = true) : Filled look t (t.written.drop 1)
  | unregistered (h : t.escaped = false) (hlook : look t.name = none) : Filled look t t.written
  | registered {spec : Spec B} (h : t.escaped = false) (hlook : look t.name = some spec)
    (result : Text) : Filled look t result

/-- `Copied look pieces tail written` : what was written are the gaps of the pieces and the tail, in
order and as they were, with something in the place of each tag. -/
inductive Copied (look : Text → Option (Spec B)) : List (Text × Tag) → Text → Text → Prop
  | tail (tail : Text) : Copied look [] tail tail
  | piece (gap : Text) {t : Tag} {result : Text} {pieces : List (Text × Tag)} {tail written : Text}
    (ht : Filled look t result) (h : Copied look pieces tail written) :
    Copied look ((gap, t) :: pieces) tail (gap ++ result ++ written)

namespace Evaluation

/-- Whatever the results of its calls are, the evaluation ends only with what has the property `Q`,
or fails. -/
def Ends (Q : α → Prop) : Evaluation B α → Prop
  | done a => Q a
  | fail _ => True
  | note _ e => e.Ends Q
  | call _ resume => ∀ v, (resume v).Ends Q

variable {Q : α → Prop} {e : Evaluation B α}

theorem Ends.bind {next : α → Evaluation B β} {R : β → Prop} (he : e.Ends Q)
    (hnext : ∀ a, Q a → (next a).Ends R) : (e.bind next).Ends R := by
  induction e with
  | done a => exact hnext a he
  | fail f => trivial
  | note n e ih => exact ih he
  | call c resume ih => exact fun v => ih v (he v)

theorem ends_of_forall (h : ∀ a, Q a) : e.Ends Q := by
  induction e with
  | done a => exact h a
  | fail f => trivial
  | note n e ih => exact ih
  | call c resume ih => exact ih

theorem Ends.gives (he : e.Ends Q) (answer : Call B → Process σ Value) :
    (e.drive answer).Gives Q := by
  induction e with
  | done a => exact .done he
  | fail f => exact .fail f
  | note n e ih => exact ih he
  | call c resume ih =>
    exact Process.Gives.bind (Q := fun _ => True) (fun _ _ _ => trivial) fun v _ => ih v (he v)

end Evaluation

theorem ends_replaceTag (look : Text → Option (Spec B)) (t : Tag) (start : Nat) :
    (replaceTag look (t.placedAt start)).Ends (Filled look t) := by
  cases he : t.escaped with
  | true => rw [replaceTag_of_escaped he]; exact .escaped he
  | false =>
    cases hlook : look t.name with
    | none => rw [replaceTag_of_unknown he hlook]; exact .unregistered he hlook
    | some spec =>
      rw [replaceTag_of_known he hlook]
      exact (Evaluation.ends_of_forall (Q := fun _ => True) fun _ => trivial).bind fun _ _ _ =>
        Evaluation.ends_of_forall (.registered he hlook)

theorem ends_replaceAll (look : Text → Option (Spec B)) (tail : Text) :
    ∀ (tags : List (Text × Tag)) (start : Nat), (replaceAll look (placedFrom start tags)).Ends
      fun text => Copied look tags tail (text ++ tail)
  | [], _ => .tail tail
  | (gap, t) :: tags, start =>
    (ends_replaceTag look t _).bind fun result hresult =>
      (ends_replaceAll look tail tags _).bind fun text htext => by
        rw [Evaluation.Ends, List.append_assoc]
        exact .piece gap hresult htext

/-- An evaluation that succeeds has copied its text. -/
theorem ends_evaluate (look : Text → Option (Spec B)) (source : Text) :
    (evaluate look source).Ends fun e => Copied look (Reading.ofText source).pieces
      (Reading.ofText source).tail e.text := by
  rcases matchesOfText_cases source with h | ⟨f, h⟩
  · rw [evaluate_of_ok look h, noteFound]
    have hall := ends_replaceAll look (Reading.ofText source).tail (Reading.ofText source).pieces 0
    split
    · exact hall.bind fun _ => id
    · exact hall.bind fun _ => id
  · rw [evaluate_of_error look h]
    trivial

/-! ## Runs on text -/

namespace Command

variable {M F : Type}

/-- A run on a text that is expanded, if the result can be written. -/
theorem expandFile_on_of_ok (m : Machine M F) {frontend : Frontend} {settings : Settings}
    {o : CommandLine.Options} {s t u : M} {d : Path × Path} {plan : Plan} {source : Text}
    {e : Evaluated} (hd : (frontend.directories o.inputdir o.outputdir).on m s = (.ok d, t))
    (hprepare : (prepare o d).on m t = (.ok (plan, .text source), u))
    (hformat : plan.format = .text)
    (hrun : (((engineIn settings plan.cwd).textBy .sync source).run ()).outcome = .ok e)
    (hwrite : (m.write u plan.target (Utf8.encode e.text)).1 = none) :
    (expandFile frontend settings o).on m s =
      (.ok (), (m.write u plan.target (Utf8.encode e.text)).2) := by
  have hrender (count : Option Nat) :
      render plan.format ⟨.text e.text, count⟩ = .done e.text := by
    rw [hformat]
    rfl
  have hresult : (writeResult plan e.text).on m u =
      (.ok (), (m.write u plan.target (Utf8.encode e.text)).2) := by
    rcases writeResult_on m plan e.text u with ⟨h, -⟩ | ⟨_, -, -, h⟩
    · exact h
    · exact absurd hwrite h
  simp only [expandFile_eq, compose, Script.on_bind, hd, hprepare, expand_on,
    outcome_expansionRun hformat, hrun, Except.map, hrender, Script.on, hresult, report_on]

theorem copied_of_expansion {settings : Settings} {cwd source written : Text}
    (h : Expansion settings cwd .text source written) :
    Copied (engineIn settings cwd).registry.find? (Reading.ofText source).pieces
      (Reading.ofText source).tail written := by
  obtain ⟨v, w, rfl, ⟨e, he, rfl⟩, hw⟩ := h
  obtain rfl := Value.text.inj hw
  rw [run_parseSync, Engine.textBy_eq] at he
  exact (ends_evaluate _ source).gives _ () e he

/-- A run from `s` to `t` whose plan is for a text : the bytes of the source file encode `source`,
and those of the target file `written`. -/
structure CopiesText (m : Machine M F) (settings : Settings) (plan : Plan) (s t : M)
    (source written : Text) : Prop where
  read : ∃ file, m.named? t plan.source = some file ∧ m.bytes? s file = some (Utf8.encode source)
  wrote : ∃ file, m.named? t plan.target = some file ∧ m.bytes? t file = some (Utf8.encode written)
  /-- The text with its line ends unified is copied, gap by gap. -/
  copied : ∃ r, Reading.Leftmost (unifyLineEnds source) r ∧ r.joined = unifyLineEnds source ∧
    Copied (engineIn settings plan.cwd).registry.find? r.pieces r.tail written
  /-- Without an opening all of it is copied. -/
  plain : (∀ k, ¬OpensAt (source.drop k)) → written = unifyLineEnds source
  /-- The bytes of a text without an opening are copied exactly if it holds no carriage return. -/
  bytes : (∀ k, ¬OpensAt (source.drop k)) →
    (Utf8.encode written = Utf8.encode source ↔ '\r' ∉ source)
  /-- Without a carriage return there is nothing to unify. -/
  unified : unifyLineEnds source = source ↔ '\r' ∉ source

theorem copiesText_of_completed {m : Machine M F} {settings : Settings} {plan : Plan} {s t : M}
    {source written : Text} (h : Completed m settings plan s t source written)
    (hformat : plan.format = .text) : CopiesText m settings plan s t source written := by
  obtain ⟨file, bytes, hnamed, hbytes, hsource⟩ := h.read
  obtain ⟨target, htarget, hwritten, -⟩ := h.wrote
  have hcopied := copied_of_expansion (hformat ▸ h.expansion)
  have hplain (hnone : ∀ k, ¬OpensAt (source.drop k)) : written = unifyLineEnds source := by
    have hread : Reading.ofText (unifyLineEnds source) = ⟨[], unifyLineEnds source⟩ :=
      (Reading.Leftmost.done (not_opensAt_unifyLineEnds hnone)).eq_ofText.symm
    rw [hread] at hcopied
    cases hcopied
    rfl
  refine ⟨⟨file, hnamed, Utf8.decode_eq_ok_iff.mp hsource ▸ hbytes⟩, ⟨target, htarget, hwritten⟩,
    ⟨_, Reading.leftmost_ofText _, (Reading.leftmost_ofText _).joined_eq, hcopied⟩, hplain,
    fun hnone => ?_, unifyLineEnds_eq_self_iff⟩
  rw [hplain hnone, ← unifyLineEnds_eq_self_iff]
  exact ⟨Utf8.encode_injective, congrArg _⟩

/-- A run on a text that ends with status 0 has read bytes that are the encoding of a text, and has
written the encoding of another that copies it with its line ends unified : its gaps and its tail
stand there in order and as they were, an escaped tag without its backslash, a tag that is not
registered as it was, and something in the place of every other. So without a carriage return every
character outside the registered tags is copied, and a text without an opening is copied byte for
byte exactly if it holds none. -/
theorem copiesText_of_script (frontend : Frontend) (settings : Settings) {arguments : List Text}
    {o : CommandLine.Options} (hparse : frontend.parse arguments = .run o) :
    (∀ {M F : Type} (m : Machine M F) (s : M), let r := (script frontend settings arguments).on m s
      Script.ending r.1 = .exit 0 → ∃ plan, frontend.Plans m o s plan ∧
        (plan.format = .text →
          ∃ source written, CopiesText m settings plan s r.2 source written)) ∧
    ∀ store : FileStore, let r := (script frontend settings arguments).runIn store
      r.ending = .exit 0 → ∃ plan, frontend.Plans FileStore.machine o store plan ∧
        (plan.format = .text → ∃ source written,
          CopiesText FileStore.machine settings plan store r.store source written) := by
  have hscript : script frontend settings arguments = expandFile frontend settings o := by
    rw [script, hparse]
  have hmachine {M F : Type} (m : Machine M F) (s : M)
      (hend : Script.ending ((expandFile frontend settings o).on m s).1 = .exit 0) :
      ∃ plan, frontend.Plans m o s plan ∧ (plan.format = .text → ∃ source written,
        CopiesText m settings plan s ((expandFile frontend settings o).on m s).2 source
          written) := by
    rcases expandFile_cases m frontend settings o s with ⟨-, plan, source, written, hplan, hdone⟩ |
      ⟨e, he, hne, -⟩
    · exact ⟨plan, hplan, fun hformat => ⟨source, written, copiesText_of_completed hdone hformat⟩⟩
    · rw [he] at hend
      exact absurd hend hne
  rw [hscript]
  refine ⟨hmachine, fun store hend => ?_⟩
  obtain ⟨hending, hstore⟩ := Script.runIn_machine (expandFile frontend settings o) store
  rw [hstore]
  exact hmachine FileStore.machine store (hending ▸ hend)

theorem readSource_on {m : Machine M F} {s : M} {plan : Plan} {source : Text}
    (h : m.read s plan.source = .ok (Utf8.encode source)) :
    (readSource plan).on m s = (parse plan.format (unifyLineEnds source)).on m s := by
  have hdecode : Utf8.decode (Utf8.encode source) = .ok source := Utf8.decode_eq_ok_iff.mpr rfl
  simp only [readSource, bind, pure, Script.bind, Script.note, Script.bytesOf, Script.on, h,
    hdecode]

/-! ### Two texts -/

/-- A directory with one text in it. -/
def textStore (source : Text) : FileStore where
  entries := [(["in".toList], .directory),
    (["in".toList, "t.txt".toList], .file (Utf8.encode source))]
  current := []

/-- The options of a run on it. -/
def textOptions : CommandLine.Options :=
  ⟨.text "in".toList, .text "out".toList, .text "t.txt".toList, none, none, 1⟩

/-- The run on it. -/
def textRun (source : Text) : Script.Report :=
  (script .usual {} (sampleArguments "t.txt".toList)).runIn (textStore source)

/-- The plan of that run. -/
def textPlan : Plan :=
  ⟨⟨[], ["in".toList, "t.txt".toList]⟩, ⟨[], ["out".toList, "t.txt".toList]⟩, .text, "/in".toList⟩

theorem parse_textOptions :
    Frontend.usual.parse (sampleArguments "t.txt".toList) = .run textOptions := by
  decide +kernel

/-- The directories of that run. -/
def textDirectories : Path × Path :=
  (.ofText "in".toList, .ofText "out".toList)

/-- That store once the output directory is made. -/
def madeStore (source : Text) : FileStore where
  entries := (textStore source).entries ++ [(["out".toList], .directory)]
  current := []

theorem directories_textStore (source : Text) : (Frontend.usual.directories textOptions.inputdir
    textOptions.outputdir).on FileStore.machine (textStore source) =
      (.ok textDirectories, madeStore source) := by
  cbv

theorem eq_textPlan_of_plans {source : Text} {plan : Plan}
    (h : Frontend.usual.Plans FileStore.machine textOptions (textStore source) plan) :
    plan = textPlan := by
  obtain ⟨d, u, hd, hplan⟩ := h
  have hnow : plan? textOptions textDirectories (textStore source).resolve = some textPlan := by cbv
  obtain rfl := Except.ok.inj (Prod.mk.inj (hd.symm.trans (directories_textStore source))).1
  exact Option.some.inj (hplan.symm.trans hnow)

theorem prepare_textStore (source : Text) :
    (prepare textOptions textDirectories).on FileStore.machine (madeStore source) =
      (.ok (textPlan, .text (unifyLineEnds source)), madeStore source) := by
  have hcheck : (check textOptions (.ofText "in".toList) (.ofText "out".toList)).on
      FileStore.machine (madeStore source) = (.ok textPlan, madeStore source) := by cbv
  have hread : FileStore.machine.read (madeStore source) textPlan.source =
      .ok (Utf8.encode source) := by cbv
  simp only [prepare, textDirectories, Script.on_bind, hcheck, readSource_on hread]
  rfl

theorem ending_textRun {source : Text} {e : Evaluated}
    (hrun : (((engineIn {} textPlan.cwd).textBy .sync (unifyLineEnds source)).run ()).outcome =
      .ok e) (hwrite : (FileStore.machine.write (madeStore source) textPlan.target
        (Utf8.encode e.text)).1 = none) :
    (textRun source).ending = .exit 0 ∧ (textRun source).store =
      (FileStore.machine.write (madeStore source) textPlan.target (Utf8.encode e.text)).2 := by
  obtain ⟨hending, hstore⟩ :=
    Script.runIn_machine (expandFile .usual {} textOptions) (textStore source)
  rw [expandFile_on_of_ok FileStore.machine (directories_textStore source)
    (prepare_textStore source) rfl hrun hwrite] at hending hstore
  rw [textRun, script, parse_textOptions]
  exact ⟨hending, hstore⟩

/-- An escaped tag, a registered one and one that is not, and two line ends. -/
def mixedText : Text := "\\[@cwd][@cwd]\r\n[@y]\r".toList

theorem outcome_mixedText : ∃ found,
    (((engineIn {} textPlan.cwd).textBy .sync (unifyLineEnds mixedText)).run ()).outcome =
      .ok ⟨"[@cwd]/in\n[@y]\n".toList, found⟩ := by
  have hread : Reading.matchesOfText (unifyLineEnds mixedText) =
      .ok ⟨[([], ⟨"cwd".toList, [], [], "\\[@cwd]".toList, true, 0⟩),
        ([], ⟨"cwd".toList, [], [], "[@cwd]".toList, false, 7⟩),
        (['\n'], ⟨"y".toList, [], [], "[@y]".toList, false, 14⟩)], ['\n']⟩ := by cbv
  have hknown : (engineIn {} textPlan.cwd).registry.find? "cwd".toList =
      some ⟨"cwd".toList, .builtin .cwd, false, true,
        "Working directory the engine was configured with".toList⟩ := rfl
  have hunknown : (engineIn {} textPlan.cwd).registry.find? "y".toList = none := rfl
  rw [Engine.textBy_eq, evaluate_of_ok _ hread, replaceAll, replaceTag_of_escaped rfl, replaceAll,
    replaceTag_of_known rfl hknown, replaceAll, replaceTag_of_unknown rfl hunknown, evaluate_nil]
  exact ⟨_, rfl⟩

theorem copiesText_of_script_mixed :
    Frontend.usual.parse (sampleArguments "t.txt".toList) = .run textOptions ∧
      textPlan.format = .text ∧ (textRun mixedText).ending = .exit 0 ∧ ∃ source written,
        CopiesText FileStore.machine {} textPlan (textStore mixedText) (textRun mixedText).store
          source written := by
  obtain ⟨found, hrun⟩ := outcome_mixedText
  have hwrite : (FileStore.machine.write (madeStore mixedText) textPlan.target
      (Utf8.encode "[@cwd]/in\n[@y]\n".toList)).1 = none := by decide +kernel
  have hending := (ending_textRun hrun hwrite).1
  obtain ⟨plan, hplans, htext⟩ :=
    (copiesText_of_script .usual {} parse_textOptions).2 (textStore mixedText) hending
  obtain rfl := eq_textPlan_of_plans hplans
  exact ⟨parse_textOptions, rfl, hending, htext rfl⟩

/-- A text of two lines without a tag is not copied byte for byte : the run ends with status 0, and
a line feed is written for the carriage return and the line feed that were read. -/
theorem bytes_of_twoLines : (∀ k, ¬OpensAt ("a\r\nb".toList.drop k)) ∧
    (textRun "a\r\nb".toList).ending = .exit 0 ∧
    (textStore "a\r\nb".toList).bytesAt? ["in".toList, "t.txt".toList] =
      some [0x61, 0x0D, 0x0A, 0x62] ∧
    (textRun "a\r\nb".toList).store.bytesAt? ["out".toList, "t.txt".toList] =
      some [0x61, 0x0A, 0x62] := by
  have hplain : hasOpening (unifyLineEnds "a\r\nb".toList) = false := by decide
  have hrun : (((engineIn {} textPlan.cwd).textBy .sync (unifyLineEnds "a\r\nb".toList)).run
      ()).outcome = .ok ⟨unifyLineEnds "a\r\nb".toList, []⟩ := by
    rw [Engine.textBy_eq, evaluate_of_plain _ hplain]
    rfl
  have hwrite : (FileStore.machine.write (madeStore "a\r\nb".toList) textPlan.target
      (Utf8.encode (unifyLineEnds "a\r\nb".toList))).1 = none := by decide +kernel
  obtain ⟨hending, hstore⟩ := ending_textRun hrun hwrite
  refine ⟨fun k ho => ?_, hending, by decide +kernel, ?_⟩
  · have hbracket : '[' ∈ "a\r\nb".toList.drop k := by
      obtain ⟨u, hu | hu⟩ := ho.eq_cons <;> rw [hu] <;> simp
    exact absurd (List.mem_of_mem_drop hbracket) (by decide)
  · rw [hstore]
    decide +kernel

end Command

end TagTemplate
