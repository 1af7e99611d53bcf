import TagTemplate.Proofs.Grammar
import TagTemplate.Proofs.Numerals

/-!
# Attributes that are written and read

`attributeText` writes attributes in the plainest way, each after a space and with its value
between double quotes. Reading what was written gives the same pairs back
(`attributePairs_attributeText`), also after the trimming and the dropping of backslashes that
come before (`attributePairs_trim_attributeText`), as long as values hold no double quote and no
backslash.
-/

namespace TagTemplate

/-! ## Reading -/

theorem dropEscapesBefore_of_not_mem (quote : Char) {s : Text} (h : '\\' ∉ s) :
    dropEscapesBefore quote s = s := by
  induction s with
  | nil => rfl
  | cons c s ih =>
    obtain ⟨hc, hs⟩ := not_or.mp (List.mem_cons.not.mp h)
    have ih := ih hs
    unfold dropEscapesBefore at ih ⊢
    rw [List.foldr_cons, ih, if_neg]
    exact fun hq => hc hq.1.symm

/-- Text without backslashes loses none. -/
theorem dropEscapes_of_not_mem {s : Text} (h : '\\' ∉ s) : dropEscapes s = s := by
  rw [dropEscapes, dropEscapesBefore_of_not_mem _ h, dropEscapesBefore_of_not_mem _ h]

theorem attributePairs_nil : attributePairs (dropEscapes []) = [] := by
  rw [dropEscapes_of_not_mem (by simp), attributePairs]

/-- Between pairs, what is no name is passed over. -/
theorem attributePairs_cons {c : Char} (cs : Text) (h : isNameChar c = false) :
    attributePairs (c :: cs) = attributePairs cs := by
  rw [attributePairs, if_neg (by simp [h])]

theorem attributeValue?_quoted {value : Text} (rest : Text) (h : '"' ∉ value) :
    attributeValue? ('"' :: (value ++ '"' :: rest)) = some (value, rest) := by
  have hvalue : ∀ c ∈ value, (c != '"') = true := by
    intro c hc
    simpa using fun hq : c = '"' => h (hq ▸ hc)
  have hstop : ∀ c ∈ ('"' :: rest).head?, (c != '"') = false := by
    intro c hc
    obtain rfl := Option.some.inj hc
    rfl
  simp only [attributeValue?, quotedValue?, dropWhile_append_of_stop hvalue hstop,
    takeWhile_append_of_stop hvalue hstop, Option.some_or]

/-- A pair is read, and then what follows its value, if blanks alone stand around the equals
sign. -/
theorem attributePairs_of_value {name before after s value rest : Text} (hname : isName name = true)
    (hbefore : ∀ c ∈ before, isBlank c = true) (hafter : ∀ c ∈ after, isBlank c = true)
    (hs : ∀ c ∈ s.head?, isBlank c = false) (hvalue : attributeValue? s = some (value, rest)) :
    attributePairs (name ++ (before ++ '=' :: (after ++ s))) =
      (name, value) :: attributePairs rest := by
  obtain ⟨hne, hchars⟩ := isName_iff.mp hname
  obtain ⟨c, cs, rfl⟩ := List.exists_cons_of_ne_nil hne
  obtain ⟨hc, hcs⟩ := List.forall_mem_cons.mp hchars
  have hstop : ∀ d ∈ (before ++ '=' :: (after ++ s)).head?, isNameChar d = false := by
    intro d hd
    cases before with
    | nil => obtain rfl := Option.some.inj hd; decide
    | cons b before =>
      obtain rfl := Option.some.inj hd
      by_contra hn
      have hb := isBlank_of_isNameChar (by simpa using hn)
      rw [hbefore _ (List.mem_cons_self ..)] at hb
      cases hb
  have hequals : ((cs ++ (before ++ '=' :: (after ++ s))).dropWhile isNameChar).dropWhile isBlank =
      '=' :: (after ++ s) := by
    rw [dropWhile_append_of_stop hcs hstop]
    exact dropWhile_append_of_stop hbefore fun d hd => by obtain rfl := Option.some.inj hd; decide
  rw [List.cons_append, attributePairs, if_pos hc]
  simp only [takeWhile_append_of_stop hcs hstop]
  split
  next r hr =>
    obtain rfl := (List.cons.inj (hequals.symm.trans hr)).2
    split
    next v rest' hv =>
      rw [dropWhile_append_of_stop hafter hs, hvalue] at hv
      obtain ⟨rfl, rfl⟩ := Prod.mk.inj (Option.some.inj hv)
      rfl
    next hv =>
      rw [dropWhile_append_of_stop hafter hs, hvalue] at hv
      cases hv
  next hr => exact (hr _ hequals).elim

/-- A pair with its value between double quotes is read, and then what follows it. -/
theorem attributePairs_quoted {name value : Text} (rest : Text) (hname : isName name = true)
    (hvalue : '"' ∉ value) :
    attributePairs (name ++ '=' :: '"' :: (value ++ '"' :: rest)) =
      (name, value) :: attributePairs rest :=
  @attributePairs_of_value name [] [] _ value rest hname (by simp) (by simp)
    (by rintro c ⟨⟩; decide) (attributeValue?_quoted rest hvalue)

/-! ## Writing -/

/-- Attributes as they are written : each after a space, with its value between double quotes. -/
def attributeText : List (Text × Text) → Text
  | [] => []
  | (name, value) :: rest => ' ' :: (name ++ '=' :: '"' :: (value ++ '"' :: attributeText rest))

/-- An attribute that can be written so inside a tag : its name is a name, and its value holds
neither double quotes, backslashes nor brackets, and is no integer literal beyond the limit. -/
def Writable (p : Text × Text) : Prop :=
  isName p.1 = true ∧ (∀ c ∈ p.2, c ≠ '"' ∧ c ≠ '\\' ∧ isBracket c = false) ∧ isOverlong p.2 = false

instance : DecidablePred Writable := fun p =>
  -- The characters of the value are looked at, not all that there are.
  have : Decidable (∀ c ∈ p.2, c ≠ '"' ∧ c ≠ '\\' ∧ isBracket c = false) := List.decidableBAll ..
  inferInstanceAs (Decidable (_ ∧ _ ∧ _))

/-- The characters of written attributes are those of the pairs, spaces, equals signs and double
quotes. -/
theorem of_mem_attributeText {P : Char → Prop} (hspace : P ' ') (hequals : P '=') (hquote : P '"')
    {pairs : List (Text × Text)} (h : ∀ p ∈ pairs, (∀ c ∈ p.1, P c) ∧ ∀ c ∈ p.2, P c) :
    ∀ c ∈ attributeText pairs, P c := by
  induction pairs with
  | nil => simp [attributeText]
  | cons p pairs ih =>
    obtain ⟨⟨hname, hvalue⟩, hrest⟩ := List.forall_mem_cons.mp h
    simp only [attributeText, List.forall_mem_cons, List.forall_mem_append]
    exact ⟨hspace, hname, hequals, hquote, hvalue, hquote, ih hrest⟩

section Writable

variable {pairs : List (Text × Text)} (h : ∀ p ∈ pairs, Writable p)
include h

theorem isBracket_of_mem_attributeText : ∀ c ∈ attributeText pairs, isBracket c = false :=
  of_mem_attributeText (by decide) (by decide) (by decide) fun p hp =>
    ⟨fun _ hc => isBracket_of_isNameChar (isNameChar_of_mem (h p hp).1 hc),
      fun c hc => ((h p hp).2.1 c hc).2.2⟩

theorem backslash_not_mem_attributeText : '\\' ∉ attributeText pairs := by
  have hne : ∀ c ∈ attributeText pairs, c ≠ '\\' :=
    of_mem_attributeText (by decide) (by decide) (by decide) fun p hp =>
      ⟨fun c hc => by rintro rfl; exact absurd (isNameChar_of_mem (h p hp).1 hc) (by decide),
        fun c hc => ((h p hp).2.1 c hc).2.1⟩
  exact fun hmem => hne _ hmem rfl

/-- Reading written attributes gives the pairs that were written. -/
theorem attributePairs_attributeText : attributePairs (attributeText pairs) = pairs := by
  induction pairs with
  | nil => rw [attributeText, attributePairs]
  | cons p pairs ih =>
    obtain ⟨⟨hname, hvalue, -⟩, hrest⟩ := List.forall_mem_cons.mp h
    have hquote : '"' ∉ p.2 := fun hq => (hvalue _ hq).1 rfl
    rw [attributeText, attributePairs_cons _ (by decide), attributePairs_quoted _ hname hquote,
      ih hrest]

omit h in
theorem getLast?_attributeText (hne : pairs ≠ []) : (attributeText pairs).getLast? = some '"' := by
  induction pairs with
  | nil => exact absurd rfl hne
  | cons p pairs ih =>
    cases pairs with
    | nil => simp [attributeText, List.getLast?_cons, List.getLast?_append]
    | cons q pairs =>
      have := ih (List.cons_ne_nil _ _)
      rw [attributeText]
      simp [List.getLast?_cons, List.getLast?_append, this]

/-- Trimming takes the first space away, which reading passes over anyway. -/
theorem attributePairs_trim_attributeText :
    attributePairs (dropEscapes (trim (attributeText pairs))) = pairs := by
  have hread := attributePairs_attributeText h
  have hbackslash := backslash_not_mem_attributeText h
  have hlast := @getLast?_attributeText pairs
  cases pairs with
  | nil =>
    rw [attributeText, trim_of_ends (by simp) (by simp), attributePairs_nil]
  | cons p pairs =>
    rw [attributeText] at hread hbackslash hlast ⊢
    rw [attributePairs_cons _ (by decide)] at hread
    rw [trim_cons_of_isBlank (by decide), trim_of_ends, dropEscapes_of_not_mem, hread]
    · exact fun hb => hbackslash (List.mem_cons_of_mem _ hb)
    · obtain ⟨hne, hchars⟩ := isName_iff.mp (h p (List.mem_cons_self ..)).1
      obtain ⟨c, cs, hcs⟩ := List.exists_cons_of_ne_nil hne
      intro d hd
      rw [hcs] at hd
      obtain rfl : c = d := Option.some.inj hd
      exact isBlank_of_isNameChar (hchars c (hcs ▸ List.mem_cons_self ..))
    · intro d hd
      have := hlast (List.cons_ne_nil _ _)
      rw [List.getLast?_cons, Option.mem_def.mp hd] at this
      obtain rfl : d = '"' := Option.some.inj this
      decide

/-- Written attributes fit the limit on numerals. -/
theorem attributesFit_trim_attributeText : attributesFit (trim (attributeText pairs)) = true := by
  rw [attributesFit, attributePairs_trim_attributeText h]
  simpa using fun name value hp => (h (name, value) hp).2.2

end Writable

end TagTemplate
