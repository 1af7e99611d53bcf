import Mathlib.Data.List.Induction
import TagTemplate.Proofs.Overlong

/-!
# Pairs among other tokens

The pairs of an attribute text may be written in several ways, with blanks around the equals sign
and the value in quotes of either kind or bare, and between them may stand tokens that are no pairs.
`Writes` relates the pairs to every text that writes them so. Reading such a text gives the pairs
back (`Writes.attributePairs_eq`) : what a value holds is never taken for a pair, and neither is
anything in a token without an equals sign, not even with the next pair behind it. The attributes
are then told by the pairs, one for each name at the place where it occurs first
(`map_fst_ofPairs`), with the value that it has last (`get?_ofPairs`).
-/

namespace TagTemplate

/-! ## Dropping backslashes piece by piece -/

/-- A text is empty or begins with a blank, so that a token before it ends there. -/
def EndsToken (s : Text) : Prop :=
  ∀ c ∈ s.head?, isBlank c = true

theorem endsToken_nil : EndsToken [] := by
  rintro c ⟨⟩

theorem endsToken_cons {c : Char} (h : isBlank c = true) (s : Text) : EndsToken (c :: s) := by
  rintro d ⟨⟩
  exact h

section DropEscapes

variable {quote : Char} {s t : Text}

theorem dropEscapesBefore_cons (c : Char) (s : Text) :
    dropEscapesBefore quote (c :: s) =
      if c = '\\' ∧ (dropEscapesBefore quote s).head? = some quote then dropEscapesBefore quote s
      else c :: dropEscapesBefore quote s :=
  rfl

theorem dropEscapesBefore_cons_of_ne {c : Char} (h : c ≠ '\\') (s : Text) :
    dropEscapesBefore quote (c :: s) = c :: dropEscapesBefore quote s := by
  rw [dropEscapesBefore_cons, if_neg fun hc => h hc.1]

/-- Backslashes are dropped in one text and in the next, if the next does not begin with the
quote. -/
theorem dropEscapesBefore_append (h : (dropEscapesBefore quote t).head? ≠ some quote) :
    dropEscapesBefore quote (s ++ t) = dropEscapesBefore quote s ++ dropEscapesBefore quote t := by
  induction s with
  | nil => rfl
  | cons c s ih =>
    have hhead : (dropEscapesBefore quote s ++ dropEscapesBefore quote t).head? = some quote ↔
        (dropEscapesBefore quote s).head? = some quote := by
      cases dropEscapesBefore quote s with
      | nil => simpa using h
      | cons d u => simp
    rw [List.cons_append, dropEscapesBefore_cons, dropEscapesBefore_cons, ih]
    simp only [hhead]
    split <;> rfl

theorem dropEscapesBefore_append_of_not_mem (h : '\\' ∉ s) (t : Text) :
    dropEscapesBefore quote (s ++ t) = s ++ dropEscapesBefore quote t := by
  induction s with
  | nil => rfl
  | cons c s ih =>
    obtain ⟨hc, hs⟩ := List.ne_and_not_mem_of_not_mem_cons h
    rw [List.cons_append, dropEscapesBefore_cons_of_ne hc.symm, ih hs]
    rfl

theorem mem_of_mem_dropEscapesBefore {c : Char} (h : c ∈ dropEscapesBefore quote s) : c ∈ s := by
  induction s with
  | nil => exact h
  | cons d s ih =>
    rw [dropEscapesBefore_cons] at h
    split at h
    next => exact List.mem_cons_of_mem _ (ih h)
    next =>
      rcases List.mem_cons.mp h with rfl | h
      · exact List.mem_cons_self ..
      · exact List.mem_cons_of_mem _ (ih h)

/-- The end of a token stays one, and is no quote. -/
theorem EndsToken.dropEscapesBefore (h : EndsToken s) :
    EndsToken (TagTemplate.dropEscapesBefore quote s) := by
  cases s with
  | nil => exact h
  | cons c s =>
    have hc := h c rfl
    rw [dropEscapesBefore_cons_of_ne (by rintro rfl; cases hc)]
    exact h

theorem EndsToken.head?_ne (h : EndsToken s) (hquote : isBlank quote = false) :
    s.head? ≠ some quote :=
  fun hs => by rw [h quote hs] at hquote; cases hquote

/-- A token loses its backslashes by itself. -/
theorem dropEscapes_append (h : EndsToken t) :
    dropEscapes (s ++ t) = dropEscapes s ++ dropEscapes t := by
  rw [dropEscapes, dropEscapesBefore_append (h.dropEscapesBefore.head?_ne (by decide)),
    dropEscapesBefore_append (h.dropEscapesBefore.dropEscapesBefore.head?_ne (by decide))]
  rfl

theorem dropEscapes_append_of_not_mem (h : '\\' ∉ s) (t : Text) :
    dropEscapes (s ++ t) = s ++ dropEscapes t := by
  rw [dropEscapes, dropEscapesBefore_append_of_not_mem h, dropEscapesBefore_append_of_not_mem h]
  rfl

theorem dropEscapes_cons_of_ne {c : Char} (h : c ≠ '\\') (s : Text) :
    dropEscapes (c :: s) = c :: dropEscapes s :=
  dropEscapes_append_of_not_mem (s := [c]) (by simpa using h.symm) s

theorem mem_of_mem_dropEscapes {c : Char} (h : c ∈ dropEscapes s) : c ∈ s :=
  mem_of_mem_dropEscapesBefore (mem_of_mem_dropEscapesBefore h)

theorem EndsToken.dropEscapes (h : EndsToken s) : EndsToken (dropEscapes s) :=
  h.dropEscapesBefore.dropEscapesBefore

end DropEscapes

theorem ne_backslash_of_isBlank {c : Char} (h : isBlank c = true) : c ≠ '\\' := by
  rintro rfl
  cases h

/-! ## Tokens that are no pairs -/

/-- No equals sign comes first after blanks, so that no name before the text has a value in it. -/
def BeginsNoValue (s : Text) : Prop :=
  (s.dropWhile isBlank).head? ≠ some '='

theorem beginsNoValue_of_not_mem {s : Text} (h : '=' ∉ s) {t : Text} (ht : BeginsNoValue t) :
    BeginsNoValue (s ++ t) := by
  induction s with
  | nil => exact ht
  | cons c s ih =>
    obtain ⟨hc, hs⟩ := List.ne_and_not_mem_of_not_mem_cons h
    unfold BeginsNoValue
    rw [List.cons_append, List.dropWhile_cons]
    split
    next => exact ih hs
    next => simpa using hc.symm

/-- A name without an equals sign after it is passed over. -/
theorem attributePairs_name {name s : Text} (hname : ∀ c ∈ name, isNameChar c = true)
    (hstop : ∀ c ∈ s.head?, isNameChar c = false) (hs : BeginsNoValue s) :
    attributePairs (name ++ s) = attributePairs s := by
  cases name with
  | nil => rfl
  | cons c cs =>
    obtain ⟨hc, hcs⟩ := List.forall_mem_cons.mp hname
    rw [List.cons_append, attributePairs, if_pos hc]
    simp only [dropWhile_append_of_stop hcs hstop]
    split
    next r hr =>
      rw [dropWhile_append_of_stop hcs hstop] at hr
      exact absurd (by rw [hr]; rfl) hs
    next => rfl

/-- So is every token without an equals sign. -/
theorem attributePairs_junk {junk s : Text} (hjunk : '=' ∉ junk) (hend : EndsToken s)
    (hs : BeginsNoValue s) : attributePairs (junk ++ s) = attributePairs s := by
  induction hn : junk.length using Nat.strongRecOn generalizing junk with
  | _ n ih =>
    subst hn
    cases junk with
    | nil => rfl
    | cons c cs =>
      cases hc : isNameChar c with
      | false =>
        rw [List.cons_append, attributePairs_cons _ hc]
        exact ih cs.length (by simp) (List.not_mem_of_not_mem_cons hjunk) rfl
      | true =>
        -- The name at the head of the token ends in the token or with it.
        have hsplit := List.takeWhile_append_dropWhile (p := isNameChar) (l := c :: cs)
        have hrest : '=' ∉ (c :: cs).dropWhile isNameChar :=
          fun h => hjunk (List.dropWhile_sublist _ |>.mem h)
        have hlt : ((c :: cs).dropWhile isNameChar).length < (c :: cs).length := by
          rw [List.dropWhile_cons_of_pos hc]
          exact Nat.lt_succ_of_le (List.dropWhile_sublist isNameChar).length_le
        have hstop : ∀ d ∈ ((c :: cs).dropWhile isNameChar ++ s).head?, isNameChar d = false := by
          intro d hd
          cases hdrop : (c :: cs).dropWhile isNameChar with
          | nil =>
            rw [hdrop] at hd
            by_contra hname
            have := isBlank_of_isNameChar (by simpa using hname)
            rw [hend d hd] at this
            cases this
          | cons e u =>
            rw [hdrop] at hd
            obtain rfl : e = d := Option.some.inj hd
            have := List.head?_dropWhile_not isNameChar (c :: cs)
            rw [hdrop] at this
            simpa using this
        rw [← hsplit, List.append_assoc,
          attributePairs_name (fun d hd => List.mem_takeWhile_imp hd) hstop
            (beginsNoValue_of_not_mem hrest hs)]
        exact ih _ hlt hrest rfl

/-! ## Pairs -/

/-- `Quotes value w` : the text `w` is the value between quotes of one kind, or the value itself if
it has no blanks and does not begin with a quote. No backslash is in it. -/
inductive Quotes : Text → Text → Prop
  | double {value : Text} (h : '"' ∉ value) (hslash : '\\' ∉ value) :
    Quotes value ('"' :: (value ++ ['"']))
  | single {value : Text} (h : '\'' ∉ value) (hslash : '\\' ∉ value) :
    Quotes value ('\'' :: (value ++ ['\'']))
  | bare {value : Text} (hne : value ≠ []) (hblank : ∀ c ∈ value, isBlank c = false)
    (hslash : '\\' ∉ value) (hdouble : value.head? ≠ some '"') (hsingle : value.head? ≠ some '\'') :
    Quotes value value

namespace Quotes

variable {value w : Text}

theorem backslash_not_mem (h : Quotes value w) : '\\' ∉ w := by
  cases h with
  | double _ hslash => simpa using hslash
  | single _ hslash => simpa using hslash
  | bare _ _ hslash => exact hslash

theorem isBlank_head (h : Quotes value w) (s : Text) : ∀ c ∈ (w ++ s).head?, isBlank c = false := by
  intro c hc
  cases h with
  | double => obtain rfl := Option.some.inj hc; decide
  | single => obtain rfl := Option.some.inj hc; decide
  | bare hne hblank =>
    obtain ⟨d, ds, rfl⟩ := List.exists_cons_of_ne_nil hne
    obtain rfl := Option.some.inj hc
    exact hblank _ (List.mem_cons_self ..)

/-- A value is read as it was written. -/
theorem attributeValue?_eq (h : Quotes value w) {s : Text} (hend : EndsToken s) :
    attributeValue? (w ++ s) = some (value, s) := by
  cases h with
  | double h =>
    rw [List.cons_append, List.append_assoc]
    exact attributeValue?_quoted s h
  | single h =>
    have hvalue : ∀ c ∈ value, (c != '\'') = true := by
      intro c hc
      simpa using fun hq : c = '\'' => h (hq ▸ hc)
    have hstop : ∀ c ∈ ('\'' :: s).head?, (c != '\'') = false := by
      intro c hc
      obtain rfl := Option.some.inj hc
      rfl
    rw [List.cons_append, List.append_assoc, List.singleton_append]
    simp only [attributeValue?, quotedValue?, dropWhile_append_of_stop hvalue hstop,
      takeWhile_append_of_stop hvalue hstop, Option.some_or]
  | bare hne hblank _ hdouble hsingle =>
    have hvalue : ∀ c ∈ value, (!isBlank c) = true := fun c hc => by simp [hblank c hc]
    have hstop : ∀ c ∈ s.head?, (!isBlank c) = false := fun c hc => by simp [hend c hc]
    have hbare : bareValue? (value ++ s) = some (value, s) := by
      simp [bareValue?, dropWhile_append_of_stop hvalue hstop,
        takeWhile_append_of_stop hvalue hstop, hne]
    obtain ⟨c, cs, rfl⟩ := List.exists_cons_of_ne_nil hne
    rw [List.cons_append, attributeValue?.eq_3, ← List.cons_append, hbare]
    · rintro u hu
      exact hdouble (congrArg some (List.cons.inj hu).1)
    · rintro u hu
      exact hsingle (congrArg some (List.cons.inj hu).1)

end Quotes

/-- `Writes pairs s` : the text `s` writes the pairs, in order. Each pair is a name, an equals sign
with blanks around it or not, and the value. Blanks may stand anywhere between the pairs, and so
may tokens without an equals sign; every pair and every such token ends with a blank or with the
text. -/
inductive Writes : List (Text × Text) → Text → Prop
  | nil : Writes [] []
  | blank {pairs : List (Text × Text)} {c : Char} {s : Text} (hc : isBlank c = true)
    (h : Writes pairs s) : Writes pairs (c :: s)
  | junk {pairs : List (Text × Text)} {junk s : Text} (hjunk : '=' ∉ junk) (hend : EndsToken s)
    (h : Writes pairs s) : Writes pairs (junk ++ s)
  | pair {pairs : List (Text × Text)} {name before after value w s : Text}
    (hname : isName name = true) (hbefore : ∀ c ∈ before, isBlank c = true)
    (hafter : ∀ c ∈ after, isBlank c = true) (hvalue : Quotes value w) (hend : EndsToken s)
    (h : Writes pairs s) :
    Writes ((name, value) :: pairs) (name ++ (before ++ '=' :: (after ++ (w ++ s))))

namespace Writes

variable {pairs : List (Text × Text)} {s : Text}

theorem beginsNoValue (h : Writes pairs s) : BeginsNoValue (dropEscapes s) := by
  induction h with
  | nil => simp [BeginsNoValue, dropEscapes, dropEscapesBefore]
  | blank hc _ ih =>
    rw [dropEscapes_cons_of_ne (ne_backslash_of_isBlank hc), BeginsNoValue,
      List.dropWhile_cons_of_pos hc]
    exact ih
  | junk hjunk hend _ ih =>
    rw [dropEscapes_append hend]
    exact beginsNoValue_of_not_mem (fun h => hjunk (mem_of_mem_dropEscapes h)) ih
  | pair hname =>
    obtain ⟨hne, hchars⟩ := isName_iff.mp hname
    obtain ⟨c, cs, rfl⟩ := List.exists_cons_of_ne_nil hne
    have hc := hchars c (List.mem_cons_self ..)
    rw [List.cons_append, dropEscapes_cons_of_ne (by rintro rfl; cases hc), BeginsNoValue,
      List.dropWhile_cons_of_neg (by simp [isBlank_of_isNameChar hc])]
    rintro ⟨⟩
    cases hc

/-- Reading a text that writes pairs gives these pairs. -/
theorem attributePairs_eq (h : Writes pairs s) : attributePairs (dropEscapes s) = pairs := by
  induction h with
  | nil => exact attributePairs_nil
  | @blank pairs c s hc _ ih =>
    have hname : isNameChar c = false := by
      by_contra hname
      have := isBlank_of_isNameChar (by simpa using hname)
      rw [hc] at this
      cases this
    rw [dropEscapes_cons_of_ne (ne_backslash_of_isBlank hc), attributePairs_cons _ hname, ih]
  | junk hjunk hend h ih =>
    rw [dropEscapes_append hend, attributePairs_junk (fun h => hjunk (mem_of_mem_dropEscapes h))
      hend.dropEscapes h.beginsNoValue, ih]
  | @pair pairs name before after value w s hname hbefore hafter hvalue hend _ ih =>
    have hslash : '\\' ∉ name ++ (before ++ '=' :: (after ++ w)) := by
      simp only [List.mem_append, List.mem_cons, not_or]
      exact ⟨fun hm => absurd (isNameChar_of_mem hname hm) (by decide),
        fun hm => ne_backslash_of_isBlank (hbefore _ hm) rfl, by decide,
        fun hm => ne_backslash_of_isBlank (hafter _ hm) rfl, hvalue.backslash_not_mem⟩
    have hdrop := dropEscapes_append_of_not_mem hslash s
    simp only [List.append_assoc, List.cons_append] at hdrop
    rw [hdrop, attributePairs_of_value hname hbefore hafter (hvalue.isBlank_head _)
      (hvalue.attributeValue?_eq hend.dropEscapes), ih]

end Writes

/-! ## The attributes that pairs make -/

theorem Attributes.ofPairs_concat (pairs : List (Text × Text)) (p : Text × Text) :
    ofPairs (pairs ++ [p]) = (ofPairs pairs).put p.1 (coerced p.2) := by
  rw [ofPairs, List.foldl_append]
  rfl

theorem Attributes.map_fst_put (name : Text) (value : Value) (attributes : Attributes) :
    (attributes.put name value).map Prod.fst =
      if name ∈ attributes.map Prod.fst then attributes.map Prod.fst
      else attributes.map Prod.fst ++ [name] := by
  induction attributes with
  | nil => rfl
  | cons a attributes ih =>
    obtain ⟨n, v⟩ := a
    rw [put]
    split
    next h => simp [h]
    next h =>
      rw [List.map_cons, ih]
      split <;> simp_all [Ne.symm h]

theorem Attributes.get?_put (name n : Text) (value : Value) (attributes : Attributes) :
    (attributes.put name value).get? n = if n = name then some value else attributes.get? n := by
  induction attributes with
  | nil => simp [put, get?, eq_comm]
  | cons a attributes ih =>
    obtain ⟨m, v⟩ := a
    rw [put]
    split
    next h => subst h; simp only [get?, eq_comm]; split <;> rfl
    next h =>
      rw [get?, ih, get?]
      split
      next hm => subst hm; rw [if_neg h]
      next => rfl

/-- The names are those of the pairs, each at the place where it occurs first. -/
theorem map_fst_ofPairs (pairs : List (Text × Text)) :
    (Attributes.ofPairs pairs).map Prod.fst = (pairs.map Prod.fst).eraseDups := by
  induction pairs using List.reverseRecOn with
  | nil => rfl
  | append_singleton pairs p ih =>
    rw [Attributes.ofPairs_concat, Attributes.map_fst_put, ih, List.map_append]
    exact (eraseDups_concat _ p.1).symm

/-- Each name has the value that it has last. -/
theorem get?_ofPairs (pairs : List (Text × Text)) (name : Text) :
    (Attributes.ofPairs pairs).get? name = (pairs.reverse.lookup name).map coerced := by
  induction pairs using List.reverseRecOn with
  | nil => rfl
  | append_singleton pairs p ih =>
    obtain ⟨n, value⟩ := p
    rw [Attributes.ofPairs_concat, Attributes.get?_put, ih, List.reverse_append]
    by_cases h : name = n
    · simp [h]
    · simp [List.lookup_cons, h, beq_false_of_ne h]

/-- Pairs that are written in a text, with other tokens between them or not, are what its attributes
are made of, if no value is an integer literal beyond the limit. The attributes have the names of
the pairs, each at the place where it occurs first, and under each name what the last value for that
name stands for; an empty value stands for the empty text. -/
theorem attributesOf_of_writes {pairs : List (Text × Text)} {s : Text} (h : Writes pairs s)
    (hfit : ∀ p ∈ pairs, isOverlong p.2 = false) :
    ∃ attributes, attributesOf (.text s) = .ok attributes ∧
      attributes.map Prod.fst = (pairs.map Prod.fst).eraseDups ∧
      ∀ name value, pairs.reverse.lookup name = some value →
        ∃ v, coerce value = .ok v ∧ attributes.get? name = some v ∧
          (value = [] → v = .text []) := by
  have hread : Attributes.read s = .ok (.ofPairs pairs) := by
    have hs : attributesFit s = true := by
      rw [attributesFit, h.attributePairs_eq]
      simpa using fun name value hp => hfit (name, value) hp
    rw [read_eq_ok hs, h.attributePairs_eq]
  refine ⟨.ofPairs pairs, ?_, map_fst_ofPairs pairs, fun name value hlast => ?_⟩
  · rw [attributesOf_text, hread]
  · have hmem : (name, value) ∈ pairs := by
      obtain ⟨before, after, hsplit, -⟩ := List.lookup_eq_some_iff.mp hlast
      exact List.mem_reverse.mp (by rw [hsplit]; simp)
    refine ⟨coerced value, coerce_eq_ok (hfit _ hmem), ?_, ?_⟩
    · rw [get?_ofPairs, hlast]
      rfl
    · rintro rfl
      rfl

/-- Pairs of which a name occurs twice, with text in their values that looks like pairs. -/
def repeatedPairs : List (Text × Text) :=
  [(['a'], ['b', '=', '1', ' ', 'c']), (['c'], ['=', '"', 'e', '"']), (['a'], ['k', '=', '\'']),
    (['e'], [])]

/-- The pairs in the three writings, after a token with an escaped quote and with another between
them. -/
theorem writes_repeatedPairs :
    Writes repeatedPairs "i\\\"s' a=\"b=1 c\" x\" c = '=\"e\"' a= k=' e=''".toList := by
  have hspace : isBlank ' ' = true := by decide
  have hnone : ∀ c ∈ ([] : Text), isBlank c = true := List.forall_mem_nil _
  have hone : ∀ c ∈ [' '], isBlank c = true := List.forall_mem_singleton.mpr hspace
  have hbare : Quotes ['k', '=', '\''] ['k', '=', '\''] :=
    .bare (by decide) (by simpa using ⟨by decide, by decide, by decide⟩) (by decide) (by decide)
      (by decide)
  have he : Writes [(['e'], [])] "e=''".toList :=
    .pair (by decide) hnone hnone (.single (by decide) (by decide)) endsToken_nil .nil
  have ha : Writes (repeatedPairs.drop 2) "a= k=' e=''".toList :=
    .pair (by decide) hnone hone hbare (endsToken_cons hspace _) (.blank hspace he)
  have hc : Writes (repeatedPairs.drop 1) "x\" c = '=\"e\"' a= k=' e=''".toList :=
    @Writes.junk _ ['x', '"'] _ (by decide) (endsToken_cons hspace _) (.blank hspace
      (.pair (by decide) hone hone (.single (by decide) (by decide)) (endsToken_cons hspace _)
        (.blank hspace ha)))
  exact @Writes.junk _ ['i', '\\', '"', 's', '\''] _ (by decide) (endsToken_cons hspace _)
    (.blank hspace (.pair (by decide) hnone hnone (.double (by decide) (by decide))
      (endsToken_cons hspace _) (.blank hspace hc)))

theorem attributesOf_of_writes_repeated :
    let s := "i\\\"s' a=\"b=1 c\" x\" c = '=\"e\"' a= k=' e=''".toList
    Writes repeatedPairs s ∧ (∀ p ∈ repeatedPairs, isOverlong p.2 = false) ∧
      ∃ attributes, attributesOf (.text s) = .ok attributes ∧
        attributes.map Prod.fst = [['a'], ['c'], ['e']] ∧
        attributes.get? ['a'] = some (.text ['k', '=', '\'']) ∧
        attributes.get? ['e'] = some (.text []) := by
  intro s
  have hfit : ∀ p ∈ repeatedPairs, isOverlong p.2 = false := by decide
  obtain ⟨attributes, hread, hnames, hvalues⟩ := attributesOf_of_writes writes_repeatedPairs hfit
  obtain ⟨v, hv, ha, -⟩ := hvalues ['a'] ['k', '=', '\''] (by decide)
  obtain ⟨w, -, he, hw⟩ := hvalues ['e'] [] (by decide)
  obtain rfl : Value.text ['k', '=', '\''] = v := Except.ok.inj hv
  obtain rfl := hw rfl
  exact ⟨writes_repeatedPairs, hfit, attributes, hread, hnames, ha, he⟩

end TagTemplate
