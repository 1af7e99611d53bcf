import Mathlib.Data.List.Infix
import Mathlib.Data.List.Perm.Subperm
import TagTemplate.Proofs.Lookup
import TagTemplate.Proofs.Replacement

/-!
# Tags inside tags

The content of a tag is a text with tags of its own, so a text has tags at every depth. Here they
are given their positions in the whole text (`matchesAt`, `Enclosed`), and `callOrder` lists those
that cause a call, in the order of the calls : a tag counts if it is neither escaped nor without a
handler, and so is every tag that encloses it (`mem_callOrder_iff`).

Two facts carry everything said about the order. A tag stands in the text where its position says
(`writtenAt_of_mem_callOrder`), and of two tags that cause calls the earlier one ends first, and
lies either before the later one or inside it (`pairwise_callOrder`). Evaluation asks for the calls
of `callOrder` and no others, whatever the results are (`asks_evaluate`).
-/

namespace TagTemplate

variable {B α β : Type}

/-! ## The calls of an evaluation -/

/-- The evaluation asks for one call after another, one for each of the matches `ms` and as `P`
says, and fails at no point, as long as the results can be spliced into a text. -/
inductive Evaluation.Asks (P : Call B → Match → Prop) : Evaluation B α → List Match → Prop
  | done (a : α) : Asks P (.done a) []
  | note (n : Note) {e : Evaluation B α} {ms : List Match} (h : Asks P e ms) : Asks P (.note n e) ms
  | call {c : Call B} {resume : Value → Evaluation B α} {m : Match} {ms : List Match} (hc : P c m)
    (h : ∀ v : Value, v.spliced?.isSome = true → Asks P (resume v) ms) :
    Asks P (.call c resume) (m :: ms)

namespace Evaluation.Asks

variable {P : Call B → Match → Prop}

theorem bind {e : Evaluation B α} {next : α → Evaluation B β} {ms ns : List Match}
    (he : e.Asks P ms) (hnext : ∀ a, (next a).Asks P ns) : (e.bind next).Asks P (ms ++ ns) := by
  induction he with
  | done a => exact hnext a
  | note n h ih => exact .note n ih
  | call hc h ih => exact .call hc fun v hv => ih v hv

theorem map {e : Evaluation B α} {ms : List Match} (he : e.Asks P ms) (f : α → β) :
    (e.bind fun a => .done (f a)).Asks P ms := by
  simpa using he.bind fun a => .done (f a)

/-- Whatever results are given, the calls correspond to the matches one by one and the evaluation
comes to its end. -/
theorem answered {e : Evaluation B α} {ms : List Match} (he : e.Asks P ms) (results : List Value)
    (hr : ∀ v ∈ results, v.spliced?.isSome = true) :
    List.Forall₂ P (e.answered results).1 ms ∧ ∃ a, (e.answered results).2 = .ok a := by
  induction he generalizing results with
  | done a => exact ⟨.nil, a, rfl⟩
  | note n h ih => exact ih results hr
  | call hc h ih =>
    have hhead : (results.headD .null).spliced?.isSome = true := by
      cases results with
      | nil => rfl
      | cons v results => exact hr v (List.mem_cons_self ..)
    obtain ⟨hcalls, hend⟩ := ih _ hhead results.tail fun v hv => hr v (List.mem_of_mem_tail hv)
    exact ⟨.cons hc hcalls, hend⟩

end Evaluation.Asks

/-! ## Numerals anywhere in a text -/

/-- No opening that is written anywhere in the text has an attribute that is an integer literal
beyond the limit. -/
def NumeralsFit (s : Text) : Prop :=
  ∀ o w, Opening.Spells o w → w <:+: s → attributesFit o.attributeText = true

theorem NumeralsFit.of_infix {s u : Text} (h : NumeralsFit s) (hu : u <:+: s) : NumeralsFit u :=
  fun o w hw hi => h o w hw (hi.trans hu)

/-- The condition by looking at each place of the text. -/
theorem numeralsFit_of_tails {s : Text}
    (h : ∀ u ∈ s.tails, (opening? u).all (fun r => attributesFit r.1.attributeText) = true) :
    NumeralsFit s := by
  rintro o w hw ⟨a, b, rfl⟩
  have htail : w ++ b ∈ (a ++ w ++ b).tails := by
    rw [List.mem_tails, List.append_assoc]
    exact List.suffix_append ..
  have := h _ htail
  rw [opening?_eq_some_iff.mpr ⟨w, hw, rfl⟩] at this
  simpa using this

/-! ## Where tags stand -/

/-- The matches of a text that stands at the position `offset` of another. -/
def matchesAt (offset : Nat) (s : Text) : List Match :=
  (placedFrom offset (Reading.ofText s).pieces).map Prod.snd

/-- Where the content of a match begins. -/
def Match.inside (m : Match) : Nat :=
  m.stop - (m.content.length + (closer m.name).length)

/-- The match stands in the text `s`, which stands at the position `offset`. -/
def Match.WrittenAt (m : Match) (offset : Nat) (s : Text) : Prop :=
  ∃ a b, s = a ++ (m.written ++ b) ∧ m.start = offset + a.length

theorem Match.WrittenAt.bounds {m : Match} {offset : Nat} {s : Text} (h : m.WrittenAt offset s) :
    offset ≤ m.start ∧ m.stop ≤ offset + s.length := by
  obtain ⟨a, b, rfl, hstart⟩ := h
  simp only [Match.stop, List.length_append]
  omega

theorem Match.WrittenAt.extract_eq {m : Match} {s : Text} (h : m.WrittenAt 0 s) :
    s.extract m.start m.stop = m.written := by
  obtain ⟨a, b, rfl, hstart⟩ := h
  have hstart' : m.start = a.length := by omega
  rw [List.extract_eq_take_drop, hstart', List.drop_left]
  exact List.take_left' (by simp [Match.stop, hstart'])

/-- What a match with a content is made of : an opening, the content and a closer. -/
structure Match.Encloses (m : Match) (w : Text) : Prop where
  written : m.written = w ++ (m.content ++ closer m.name)
  length_pos : 0 < w.length
  inside : m.inside = m.start + w.length

theorem encloses_of_heads {t : Tag} {s rest : Text} (h : t.Heads s rest) (start : Nat)
    (hcontent : t.content ≠ []) : ∃ w, (t.placedAt start).Encloses w := by
  cases h with
  | @paired o w content rest ho hfirst =>
    refine ⟨w, rfl, ho.length_pos, ?_⟩
    simp only [Match.inside, Match.stop, Tag.placedAt, List.length_append]
    omega
  | single => exact absurd rfl hcontent

theorem length_closer (name : Text) : (closer name).length = name.length + 4 := by
  simp [closer]

/-- Every match of a text is a tag of it, placed where it is written. -/
theorem exists_heads_of_mem_matchesAt {offset : Nat} {s : Text} {m : Match}
    (hm : m ∈ matchesAt offset s) : ∃ t ∈ (Reading.ofText s).matches, ∃ a u rest,
      s = a ++ u ∧ t.Heads u rest ∧ m = t.placedAt (offset + a.length) := by
  suffices key : ∀ {r}, Reading.Leftmost s r → ∀ {offset},
      m ∈ (placedFrom offset r.pieces).map Prod.snd → ∃ t ∈ r.matches, ∃ a u rest,
        s = a ++ u ∧ t.Heads u rest ∧ m = t.placedAt (offset + a.length) from
    key (Reading.leftmost_ofText s) hm
  clear hm
  intro r h
  induction h with
  | done => intro offset hm; simp [placedFrom] at hm
  | @tag gap s rest t r hgap ht hr ih =>
    intro offset hm
    rcases List.mem_cons.mp hm with rfl | hm
    · exact ⟨t, List.mem_cons_self .., gap, s, rest, rfl, ht, rfl⟩
    · obtain ⟨t', ht', a, u, rest', rfl, hh, rfl⟩ := ih hm
      refine ⟨t', List.mem_cons_of_mem _ ht', gap ++ (t.written ++ a), u, rest', ?_, hh, ?_⟩
      · rw [ht.eq_append]; simp
      · simp [Nat.add_assoc]

section Matches

variable {offset : Nat} {s : Text} {m n : Match}

theorem exists_content_of_mem_matchesAt (hm : m ∈ matchesAt offset s) :
    ∃ t ∈ (Reading.ofText s).matches, m.content = t.content := by
  obtain ⟨t, ht, -, -, -, -, -, rfl⟩ := exists_heads_of_mem_matchesAt hm
  exact ⟨t, ht, rfl⟩

theorem length_content_lt (hm : m ∈ matchesAt offset s) : m.content.length < s.length := by
  obtain ⟨t, ht, hc⟩ := exists_content_of_mem_matchesAt hm
  obtain ⟨p, hp, rfl⟩ := List.mem_map.mp ht
  rw [hc]
  exact Reading.length_content_of_mem_scan hp

theorem writtenAt_of_mem (hm : m ∈ matchesAt offset s) : m.WrittenAt offset s := by
  obtain ⟨t, -, a, u, rest, rfl, ht, rfl⟩ := exists_heads_of_mem_matchesAt hm
  exact ⟨a, rest, by rw [ht.eq_append]; rfl, rfl⟩

theorem length_written_pos_of_mem (hm : m ∈ matchesAt offset s) : 0 < m.written.length := by
  obtain ⟨t, -, a, u, rest, rfl, ht, rfl⟩ := exists_heads_of_mem_matchesAt hm
  exact ht.length_written_pos

theorem encloses_of_mem (hm : m ∈ matchesAt offset s) (hcontent : m.content ≠ []) :
    ∃ w, m.Encloses w := by
  obtain ⟨t, -, a, u, rest, rfl, ht, rfl⟩ := exists_heads_of_mem_matchesAt hm
  exact encloses_of_heads ht _ hcontent

/-- What stands in the content of a match stands in the text. -/
theorem Match.WrittenAt.of_inside {w : Text} (hm : m.WrittenAt offset s) (hw : m.Encloses w)
    (hn : n.WrittenAt m.inside m.content) : n.WrittenAt offset s := by
  obtain ⟨a, b, rfl, hstart⟩ := hm
  obtain ⟨c, d, hcontent, hstart'⟩ := hn
  refine ⟨a ++ (w ++ c), d ++ (closer m.name ++ b), by simp [hw.written, hcontent], ?_⟩
  rw [hstart', hw.inside, hstart]
  simp [Nat.add_assoc]

end Matches

/-- The matches of a text follow one another. -/
theorem pairwise_matchesAt (offset : Nat) (s : Text) :
    (matchesAt offset s).Pairwise fun a b => a.stop ≤ b.start := by
  suffices key : ∀ (tags : List (Text × Tag)) (start : Nat),
      ((placedFrom start tags).map Prod.snd).Pairwise (fun a b => a.stop ≤ b.start) ∧
        ∀ m ∈ (placedFrom start tags).map Prod.snd, start ≤ m.start from (key _ _).1
  intro tags
  induction tags with
  | nil => simp [placedFrom]
  | cons p tags ih =>
    obtain ⟨gap, t⟩ := p
    intro start
    obtain ⟨hord, hlow⟩ := ih (start + gap.length + t.written.length)
    refine ⟨List.pairwise_cons.mpr ⟨hlow, hord⟩, fun m hm => ?_⟩
    rcases List.mem_cons.mp hm with rfl | hm
    · exact Nat.le_add_right ..
    · have := hlow m hm
      omega

/-- `Enclosed offset s ms m` : in the text `s` at the position `offset`, the match `m` lies inside
the matches `ms`, the outermost of them first, and directly in the last. -/
inductive Enclosed : Nat → Text → List Match → Match → Prop
  | top {offset : Nat} {s : Text} {m : Match} (hm : m ∈ matchesAt offset s) :
    Enclosed offset s [] m
  | inside {offset : Nat} {s : Text} {m n : Match} {ms : List Match} (hm : m ∈ matchesAt offset s)
    (hn : Enclosed m.inside m.content ms n) : Enclosed offset s (m :: ms) n

/-! ## The order of calls -/

/-- Whether a match is not escaped and its name has a handler. -/
def Match.isLive (look : Text → Option (Spec B)) (m : Match) : Bool :=
  !m.escaped && (look m.name).isSome

/-- The matches that cause calls in a text at the position `offset`, in the order of the calls :
those inside a match come before it. -/
def callOrder (look : Text → Option (Spec B)) (offset : Nat) (s : Text) : List Match :=
  (matchesAt offset s).attach.flatMap fun m =>
    if m.1.isLive look then callOrder look m.1.inside m.1.content ++ [m.1] else []
termination_by s.length
decreasing_by exact length_content_lt m.2

section CallOrder

variable (look : Text → Option (Spec B))

/-- The matches that cause calls in a match, and the match itself. -/
def callsOf (m : Match) : List Match :=
  if m.isLive look then callOrder look m.inside m.content ++ [m] else []

theorem callOrder_eq (offset : Nat) (s : Text) :
    callOrder look offset s = (matchesAt offset s).flatMap (callsOf look) := by
  rw [callOrder]
  conv_rhs => rw [← List.attach_map_subtype_val (matchesAt offset s), List.flatMap_map]
  rfl

theorem callOrder_nil (offset : Nat) : callOrder look offset [] = [] := by
  rw [callOrder_eq]
  simp [matchesAt, Reading.ofText_nil, placedFrom]

variable {look}

theorem mem_callsOf {m n : Match} : n ∈ callsOf look m ↔
    m.isLive look = true ∧ (n ∈ callOrder look m.inside m.content ∨ n = m) := by
  unfold callsOf
  split
  next h => simp [h]
  next h => simp [h]

/-- A match causes a call exactly if it and all that enclose it are live. -/
theorem mem_callOrder_iff {offset : Nat} {s : Text} {n : Match} : n ∈ callOrder look offset s ↔
    ∃ ms, Enclosed offset s ms n ∧ ∀ m ∈ n :: ms, m.isLive look = true := by
  simp only [List.forall_mem_cons]
  induction s using contentInduction generalizing offset with
  | step s ih =>
    rw [callOrder_eq, List.mem_flatMap]
    constructor
    · rintro ⟨m, hm, hn⟩
      obtain ⟨hlive, hn | rfl⟩ := mem_callsOf.mp hn
      · obtain ⟨t, ht, hc⟩ := exists_content_of_mem_matchesAt hm
        rw [hc] at hn
        obtain ⟨ms, henc, hnlive, hms⟩ := (ih t ht).mp hn
        rw [← hc] at henc
        exact ⟨m :: ms, .inside hm henc, hnlive, List.forall_mem_cons.mpr ⟨hlive, hms⟩⟩
      · exact ⟨[], .top hm, hlive, by simp⟩
    · rintro ⟨ms, henc, hnlive, hms⟩
      cases henc with
      | top hm => exact ⟨n, hm, mem_callsOf.mpr ⟨hnlive, Or.inr rfl⟩⟩
      | @inside _ _ m _ ms hm hn =>
        obtain ⟨hlive, hms⟩ := List.forall_mem_cons.mp hms
        obtain ⟨t, ht, hc⟩ := exists_content_of_mem_matchesAt hm
        refine ⟨m, hm, mem_callsOf.mpr ⟨hlive, Or.inl ?_⟩⟩
        rw [hc] at hn ⊢
        exact (ih t ht).mpr ⟨ms, hn, hnlive, hms⟩

/-- A match around one that causes a call has a content, and so a closer. -/
theorem encloses_of_mem_callOrder {offset : Nat} {s : Text} {m n : Match}
    (hm : m ∈ matchesAt offset s) (hn : n ∈ callOrder look m.inside m.content) :
    ∃ w, m.Encloses w := by
  refine encloses_of_mem hm fun hnil => ?_
  rw [hnil, callOrder_nil] at hn
  simp at hn

/-- A match that causes a call stands in the text at its position. -/
theorem writtenAt_of_mem_callOrder {offset : Nat} {s : Text} {n : Match}
    (hn : n ∈ callOrder look offset s) : n.WrittenAt offset s ∧ n.start < n.stop := by
  induction s using contentInduction generalizing offset with
  | step s ih =>
    rw [callOrder_eq, List.mem_flatMap] at hn
    obtain ⟨m, hm, hn⟩ := hn
    obtain ⟨-, hn | rfl⟩ := mem_callsOf.mp hn
    · obtain ⟨t, ht, hc⟩ := exists_content_of_mem_matchesAt hm
      obtain ⟨w, hw⟩ := encloses_of_mem_callOrder hm hn
      rw [hc] at hn
      obtain ⟨hin, hlt⟩ := ih t ht hn
      rw [← hc] at hin
      exact ⟨(writtenAt_of_mem hm).of_inside hw hin, hlt⟩
    · have := length_written_pos_of_mem hm
      exact ⟨writtenAt_of_mem hm, by rw [Match.stop]; omega⟩

/-- Of two spans : the first ends before the second does, and lies either before it or inside. -/
def Match.Precedes (a b : Match) : Prop :=
  a.stop < b.stop ∧ (a.stop ≤ b.start ∨ b.start < a.start)

/-- What causes a call inside a match lies within its span. -/
theorem within_of_mem_inside {offset : Nat} {s : Text} {m n : Match}
    (hm : m ∈ matchesAt offset s) (hn : n ∈ callOrder look m.inside m.content) :
    m.start < n.start ∧ n.stop < m.stop := by
  obtain ⟨w, hw⟩ := encloses_of_mem_callOrder hm hn
  have hbounds := (writtenAt_of_mem_callOrder hn).1.bounds
  have hlen := congrArg List.length hw.written
  have hpos := hw.length_pos
  have hinside := hw.inside
  simp only [List.length_append, length_closer] at hlen
  have hstop : m.stop = m.start + m.written.length := rfl
  omega

theorem bounds_of_mem_callsOf {offset : Nat} {s : Text} {m n : Match}
    (hm : m ∈ matchesAt offset s) (hn : n ∈ callsOf look m) :
    m.start ≤ n.start ∧ n.start < n.stop ∧ n.stop ≤ m.stop := by
  obtain ⟨-, hn | rfl⟩ := mem_callsOf.mp hn
  · have hin := within_of_mem_inside hm hn
    have hlt := (writtenAt_of_mem_callOrder hn).2
    omega
  · have := length_written_pos_of_mem hm
    exact ⟨Nat.le_refl _, by rw [Match.stop]; omega, Nat.le_refl _⟩

/-- The calls come in the order in which their spans end, and any two spans are nested or
disjoint. -/
theorem pairwise_callOrder (offset : Nat) (s : Text) :
    (callOrder look offset s).Pairwise Match.Precedes := by
  induction s using contentInduction generalizing offset with
  | step s ih =>
    rw [callOrder_eq, List.pairwise_flatMap]
    refine ⟨fun m hm => ?_, (pairwise_matchesAt offset s).imp_of_mem ?_⟩
    · unfold callsOf
      split
      case isFalse => exact .nil
      next hlive =>
        obtain ⟨t, ht, hc⟩ := exists_content_of_mem_matchesAt hm
        -- The calls inside a match come before its own.
        refine List.pairwise_append.mpr ⟨?_, List.pairwise_singleton _ _, fun a ha b hb => ?_⟩
        · rw [hc]
          exact ih t ht _
        · rw [List.mem_singleton.mp hb]
          have hin := within_of_mem_inside hm ha
          exact ⟨hin.2, Or.inr hin.1⟩
    · -- The calls of two matches lie within these, and so one before the other.
      intro a b ha hb hab x hx y hy
      have hx := bounds_of_mem_callsOf ha hx
      have hy := bounds_of_mem_callsOf hb hy
      exact ⟨by omega, Or.inl (by omega)⟩

/-! ## Evaluation asks for these calls -/

variable (look)

/-- The call is for the match : with its attributes, and of the handler of its name. -/
structure Call.IsFor (c : Call B) (m : Match) : Prop where
  written : c.written = m.written
  attributes : c.attributes = m.attributes
  handler : look m.name = some c.spec

variable {look}

theorem asks_replaceTag {m : Match} (hcontent : (evaluate look m.content).Asks
    (Call.IsFor look) (callOrder look m.inside m.content)) :
    (replaceTag look m).Asks (Call.IsFor look) (callsOf look m) := by
  unfold callsOf Match.isLive
  cases he : m.escaped with
  | true =>
    rw [replaceTag_of_escaped he]
    exact .done _
  | false =>
    cases hlook : look m.name with
    | none =>
      rw [replaceTag_of_unknown he hlook]
      exact .note _ (.done _)
    | some spec =>
      rw [replaceTag_of_known he hlook]
      refine hcontent.bind fun inside => .call ⟨rfl, rfl, hlook⟩ fun v hv => ?_
      obtain ⟨text, htext⟩ := Option.isSome_iff_exists.mp hv
      rw [Evaluation.splice, htext]
      exact .done _

theorem asks_replaceAll : ∀ pieces : List (Text × Match),
    (∀ p ∈ pieces, (evaluate look p.2.content).Asks (Call.IsFor look)
      (callOrder look p.2.inside p.2.content)) →
    (replaceAll look pieces).Asks (Call.IsFor look)
      ((pieces.map Prod.snd).flatMap (callsOf look))
  | [], _ => .done _
  | (gap, m) :: pieces, h => by
    have hrest := asks_replaceAll pieces fun p hp => h p (List.mem_cons_of_mem _ hp)
    rw [replaceAll, List.map_cons, List.flatMap_cons]
    exact (asks_replaceTag (h _ (List.mem_cons_self ..))).bind fun replaced => hrest.map _

/-- What a tag of a text is made of is written in the text. -/
theorem infix_of_mem {s : Text} {t : Tag} (ht : t ∈ (Reading.ofText s).matches) :
    t.content <:+: s ∧ ∃ w, Opening.Spells t.toOpening w ∧ w <:+: s := by
  obtain ⟨a, u, rest, rfl, hh⟩ := Reading.exists_heads_of_mem ht
  cases hh with
  | @paired o w content rest ho hfirst =>
    exact ⟨⟨a ++ w, closer o.name ++ rest, by simp⟩, w, ho, a, _, by simp; rfl⟩
  | @single o w rest ho hnone => exact ⟨List.nil_infix, w, ho, a, rest, by simp⟩

/-- Evaluation asks for the calls of the order, whatever the results are. -/
theorem asks_evaluate {s : Text} (hfit : NumeralsFit s) (offset : Nat) :
    (evaluate look s).Asks (Call.IsFor look) (callOrder look offset s) := by
  induction s using contentInduction generalizing offset with
  | step s ih =>
    have hread := matchesOfText_eq_ok fun t ht => by
      obtain ⟨-, w, hw, hin⟩ := infix_of_mem ht
      exact hfit _ w hw hin
    have hall := asks_replaceAll (placedFrom offset (Reading.ofText s).pieces) fun p hp => by
      obtain ⟨t, ht, hc⟩ := content_of_mem_placedFrom hp
      rw [hc]
      exact ih t ht (hfit.of_infix (infix_of_mem ht).1) _
    rw [callOrder_eq, evaluate_of_ok _ hread, noteFound, replaceAll_placedFrom look 0 offset]
    split
    · exact hall.map _
    · exact .note _ (hall.map _)

end CallOrder

/-! ## Spans of the calls -/

theorem Enclosed.exists_mem {offset : Nat} {s : Text} {ms : List Match} {m : Match}
    (h : Enclosed offset s ms m) : ∀ n ∈ m :: ms, ∃ o u, n ∈ matchesAt o u := by
  induction h with
  | top hm =>
    intro n hn
    obtain rfl := List.mem_singleton.mp hn
    exact ⟨_, _, hm⟩
  | @inside offset s m n ms hm _ ih =>
    intro k hk
    rcases List.mem_cons.mp hk with rfl | hk
    · exact ih _ (List.mem_cons_self ..)
    · rcases List.mem_cons.mp hk with rfl | hk
      · exact ⟨_, _, hm⟩
      · exact ih k (List.mem_cons_of_mem _ hk)

/-- A match that is not escaped begins with the mark of an opening. -/
theorem mark_isPrefix_of_mem {offset : Nat} {s : Text} {m : Match} (hm : m ∈ matchesAt offset s)
    (hescaped : m.escaped = false) : ['[', '@'] <+: m.written := by
  obtain ⟨t, -, a, u, rest, -, hh, rfl⟩ := exists_heads_of_mem_matchesAt hm
  exact hh.mark_isPrefix hescaped

theorem isName_of_mem {offset : Nat} {s : Text} {m : Match} (hm : m ∈ matchesAt offset s) :
    isName m.name = true := by
  obtain ⟨t, -, a, u, rest, -, hh, rfl⟩ := exists_heads_of_mem_matchesAt hm
  exact hh.isName_name

theorem Registry.isLive_iff (r : Registry B) {offset : Nat} {s : Text} {m : Match}
    (hm : m ∈ matchesAt offset s) :
    m.isLive r.find? = true ↔ m.escaped = false ∧ m.name ∈ r.names := by
  rw [Match.isLive, Bool.and_eq_true, Bool.not_eq_true', r.isSome_find?_iff (isName_of_mem hm)]

/-- In how many places of a text another one occurs. -/
def occurrences (mark s : Text) : Nat :=
  (List.range s.length).countP fun k => mark.isPrefixOf (s.drop k)

/-- Matches that begin with `mark` at different places are no more than its occurrences. -/
theorem length_le_occurrences {mark s : Text} {ms : List Match}
    (hnodup : (ms.map Match.start).Nodup) (hpos : ∀ m ∈ ms, m.start < s.length)
    (hmark : ∀ m ∈ ms, mark <+: s.drop m.start) : ms.length ≤ occurrences mark s := by
  have hsub : ms.map Match.start ⊆
      (List.range s.length).filter fun k => mark.isPrefixOf (s.drop k) := by
    intro k hk
    obtain ⟨m, hm, rfl⟩ := List.mem_map.mp hk
    exact List.mem_filter.mpr ⟨List.mem_range.mpr (hpos m hm),
      List.isPrefixOf_iff_prefix.mpr (hmark m hm)⟩
  have := (hnodup.subperm hsub).length_le
  rwa [List.length_map, ← List.countP_eq_length_filter] at this

theorem Match.WrittenAt.isPrefix_drop {m : Match} {s : Text} (h : m.WrittenAt 0 s) :
    m.written <+: s.drop m.start := by
  obtain ⟨a, b, rfl, hstart⟩ := h
  rw [hstart, Nat.zero_add, List.drop_left]
  exact List.prefix_append ..

theorem nodup_start_callOrder {look : Text → Option (Spec B)} (s : Text) :
    ((callOrder look 0 s).map Match.start).Nodup := by
  rw [List.Nodup, List.pairwise_map]
  refine (pairwise_callOrder 0 s).imp_of_mem fun {a b} ha _ hab => ?_
  have := (writtenAt_of_mem_callOrder ha).2
  rcases hab.2 with h | h <;> omega

/-- The calls of an evaluation have spans in the text, whatever the results are : the spans hold
what the calls are told is written there, any two are nested or disjoint, and the calls come in
the order in which their spans end. A match at any depth causes one of the calls exactly if
neither it nor any match around it is escaped or without a handler. -/
theorem spans_of_answered (r : Registry B) (s : Text) (results : List Value)
    (hfit : NumeralsFit s) (hresults : ∀ v ∈ results, v.spliced?.isSome = true) :
    ∃ ms : List Match, (∃ done, ((evaluate r.find? s).answered results).2 = .ok done) ∧
      List.Forall₂ (fun c m => c.written = m.written ∧ c.attributes = m.attributes ∧
        r.find? m.name = some c.spec) ((evaluate r.find? s).answered results).1 ms ∧
      (∀ m ∈ ms, m.start < m.stop ∧ m.stop ≤ s.length ∧
        s.extract m.start m.stop = m.written ∧ ['[', '@'] <+: m.written) ∧
      ms.Pairwise (fun a b => a.stop < b.stop ∧ (a.stop ≤ b.start ∨ b.start < a.start)) ∧
      (ms.map Match.start).Nodup ∧
      ((evaluate r.find? s).answered results).1.length ≤ occurrences ['[', '@'] s ∧
      ∀ m, m ∈ ms ↔ ∃ enclosing, Enclosed 0 s enclosing m ∧
        ∀ n ∈ m :: enclosing, n.escaped = false ∧ n.name ∈ r.names := by
  have hasks : (evaluate r.find? s).Asks (Call.IsFor r.find?) (callOrder r.find? 0 s) :=
    asks_evaluate hfit 0
  obtain ⟨hcalls, hend⟩ := hasks.answered results hresults
  have hmark : ∀ m ∈ callOrder r.find? 0 s, ['[', '@'] <+: m.written := by
    intro m hm
    obtain ⟨enclosing, henc, hlive⟩ := mem_callOrder_iff.mp hm
    obtain ⟨o, u, hmem⟩ := henc.exists_mem m (List.mem_cons_self ..)
    have hm := (r.isLive_iff hmem).mp (hlive m (List.mem_cons_self ..))
    exact mark_isPrefix_of_mem hmem hm.1
  have hspan : ∀ m ∈ callOrder r.find? 0 s, m.WrittenAt 0 s ∧ m.start < m.stop ∧
      m.stop ≤ s.length := by
    intro m hm
    obtain ⟨hin, hlt⟩ := writtenAt_of_mem_callOrder hm
    exact ⟨hin, hlt, by simpa using hin.bounds.2⟩
  refine ⟨callOrder r.find? 0 s, hend, hcalls.imp fun c m h => ⟨h.1, h.2, h.3⟩,
    fun m hm => ⟨(hspan m hm).2.1, (hspan m hm).2.2, (hspan m hm).1.extract_eq, hmark m hm⟩,
    pairwise_callOrder 0 s, nodup_start_callOrder s, ?_, fun m => ?_⟩
  · rw [hcalls.length_eq]
    refine length_le_occurrences (nodup_start_callOrder s) (fun m hm => ?_) fun m hm => ?_
    · have := hspan m hm
      omega
    · exact (hmark m hm).trans (hspan m hm).1.isPrefix_drop
  · rw [mem_callOrder_iff]
    refine exists_congr fun enclosing => and_congr_right fun henc => ?_
    refine forall_congr' fun n => forall_congr' fun hn => ?_
    obtain ⟨o, u, hmem⟩ := henc.exists_mem n hn
    exact r.isLive_iff hmem

/-- Tags of each kind inside a tag : one with a handler, an escaped one, and one without a
handler that has another inside. -/
theorem spans_of_answered_nested :
    NumeralsFit "[@cwd n=1][@date]x[/@date]\\[@time][@no][@date][/@no][/@cwd] [@time]".toList ∧
      (∀ v ∈ [Value.int 7, .ofString "[@time]"], v.spliced?.isSome = true) ∧
      ∃ ms : List Match, ms.Pairwise (fun a b =>
          a.stop < b.stop ∧ (a.stop ≤ b.start ∨ b.start < a.start)) ∧
        ∀ m, m ∈ ms ↔ ∃ enclosing, Enclosed 0
            "[@cwd n=1][@date]x[/@date]\\[@time][@no][@date][/@no][/@cwd] [@time]".toList
            enclosing m ∧
          ∀ n ∈ m :: enclosing, n.escaped = false ∧
            n.name ∈ (Registry.new none [] : Registry.Change Unit).registry.names := by
  have hfit : NumeralsFit
      "[@cwd n=1][@date]x[/@date]\\[@time][@no][@date][/@no][/@cwd] [@time]".toList :=
    numeralsFit_of_tails (by decide +kernel)
  have hresults : ∀ v ∈ [Value.int 7, .ofString "[@time]"], v.spliced?.isSome = true := by
    decide +kernel
  obtain ⟨ms, -, -, -, hord, -, -, hcalls⟩ :=
    spans_of_answered (Registry.new none [] : Registry.Change Unit).registry _ _ hfit hresults
  exact ⟨hfit, hresults, ms, hord, hcalls⟩

end TagTemplate
