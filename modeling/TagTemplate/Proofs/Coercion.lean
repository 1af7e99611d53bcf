import Mathlib.Data.List.Induction
import TagTemplate.Proofs.Grammar
import TagTemplate.Proofs.Numerals
import TagTemplate.Value.Shown

/-!
# Texts that stand for numbers

Which texts are numerals is said here without the reader. `Decimal` relates digits to the number
they denote, `IntegerText` relates a text to its number of digits and the integer it denotes, and
`FractionText` holds of the texts with a point between digits. What `coerce` makes of a text is told
by which of the two it is, if it is one (`Coerces`).

An integer is written in the one way without a needless zero (`intDigits`). That is a text that
denotes it (`integerText_intDigits`), so within the limit reading it gives the integer back
(`coerce_intDigits`). The limit is the same in both directions : it counts the digits that the text
has, and the digits that the integer is written with (`digitCount`).
-/

namespace TagTemplate

/-! ## Digits -/

/-- `Decimal ds m` : the digits `ds`, of which there is at least one, denote `m`. Each counts ten
times as much as the one behind it, and zeros in front count for nothing. -/
inductive Decimal : Text → Nat → Prop
  | digit {d : Nat} (h : d < 10) : Decimal [d.digitChar] d
  | snoc {ds : Text} {m d : Nat} (hm : Decimal ds m) (h : d < 10) :
    Decimal (ds ++ [d.digitChar]) (10 * m + d)

/-- Every digit is the one of a number below ten. -/
theorem exists_eq_digitChar {c : Char} (h : c.isDigit = true) : ∃ d < 10, c = d.digitChar := by
  obtain ⟨hlow, hhigh⟩ : 48 ≤ c.toNat ∧ c.toNat ≤ 57 := Char.isDigit_iff_toNat.mp h
  refine ⟨c.toNat - 48, by omega, Char.toNat_inj.mp ?_⟩
  rw [Nat.toNat_digitChar_of_lt_ten (by omega)]
  omega

/-- Digits denote what they are read as. -/
theorem decimal_iff {ds : Text} {m : Nat} :
    Decimal ds m ↔ isDigits ds = true ∧ Nat.ofDigitChars 10 ds 0 = m := by
  constructor
  · intro h
    induction h with
    | digit h =>
      refine ⟨by simp [isDigits, Nat.isDigit_digitChar, h], ?_⟩
      rw [Nat.ofDigitChars_cons_digitChar_of_lt_ten h, Nat.ofDigitChars_nil]
      omega
    | snoc _ h ih =>
      obtain ⟨hdigits, rfl⟩ := ih
      simp only [isDigits, Bool.and_eq_true] at hdigits
      refine ⟨by simp [isDigits, Nat.isDigit_digitChar, h, hdigits.2], ?_⟩
      rw [Nat.ofDigitChars_append, Nat.ofDigitChars_cons_digitChar_of_lt_ten h,
        Nat.ofDigitChars_nil]
  · rintro ⟨h, rfl⟩
    induction ds using List.reverseRecOn with
    | nil => cases h
    | append_singleton ds c ih =>
      simp only [isDigits, List.all_append, Bool.and_eq_true, List.all_cons] at h
      obtain ⟨d, hd, rfl⟩ := exists_eq_digitChar h.2.2.1
      rw [Nat.ofDigitChars_append, Nat.ofDigitChars_cons_digitChar_of_lt_ten hd,
        Nat.ofDigitChars_nil]
      cases ds with
      | nil => simpa using Decimal.digit hd
      | cons e ds => exact .snoc (ih (by simpa [isDigits] using h.2.1)) hd

theorem Decimal.isDigits {ds : Text} {m : Nat} (h : Decimal ds m) : isDigits ds = true :=
  (decimal_iff.mp h).1

/-- A natural number is written with the digits that denote it. -/
theorem decimal_toDigits (m : Nat) : Decimal (Nat.toDigits 10 m) m := by
  refine decimal_iff.mpr ⟨?_, Nat.ofDigitChars_ten_toDigits⟩
  have hall : ∀ c ∈ Nat.toDigits 10 m, c.isDigit = true := fun _ hc =>
    Nat.isDigit_of_mem_toDigits (by decide) (by decide) hc
  simpa [TagTemplate.isDigits, Nat.toDigits_ne_nil] using hall

/-! ## Numerals -/

/-- `IntegerText v k n` : the text `v` is `k` digits, with a minus sign before them or not, and
denotes the integer `n`. -/
inductive IntegerText : Text → Nat → Int → Prop
  | plain {ds : Text} {m : Nat} (h : Decimal ds m) : IntegerText ds ds.length m
  | minus {ds : Text} {m : Nat} (h : Decimal ds m) : IntegerText ('-' :: ds) ds.length (-m)

/-- The text is an integer literal, then a point, then digits. -/
inductive FractionText : Text → Prop
  | intro {w fraction : Text} {k m : Nat} {n : Int} (hw : IntegerText w k n)
    (hfraction : Decimal fraction m) : FractionText (w ++ '.' :: fraction)

/-- What is read as the sign and what follows it is the text. -/
theorem splitSign_cases (v : Text) :
    (∃ s, v = '-' :: s ∧ splitSign v = (true, s)) ∨ splitSign v = (false, v) := by
  unfold splitSign
  split
  next s => exact .inl ⟨s, rfl, rfl⟩
  next => exact .inr rfl

theorem splitSign_of_isDigits {ds : Text} (h : isDigits ds = true) (s : Text) :
    splitSign (ds ++ s) = (false, ds ++ s) := by
  rcases splitSign_cases (ds ++ s) with ⟨t, ht, -⟩ | hs
  · cases ds with
    | nil => cases h
    | cons c ds =>
      obtain ⟨rfl, -⟩ := List.cons.inj ht
      cases h
  · exact hs

theorem integerText_iff {v : Text} {k : Nat} {n : Int} :
    IntegerText v k n ↔ isDigits (splitSign v).2 = true ∧ (splitSign v).2.length = k ∧
      signed (splitSign v).1 (Nat.ofDigitChars 10 (splitSign v).2 0) = n := by
  constructor
  · intro h
    cases h with
    | plain h =>
      obtain ⟨hdigits, rfl⟩ := decimal_iff.mp h
      have hsplit := splitSign_of_isDigits hdigits []
      rw [List.append_nil] at hsplit
      rw [hsplit]
      exact ⟨hdigits, rfl, rfl⟩
    | minus h =>
      obtain ⟨hdigits, rfl⟩ := decimal_iff.mp h
      exact ⟨hdigits, rfl, rfl⟩
  · rintro ⟨hdigits, rfl, rfl⟩
    have hdecimal := decimal_iff.mpr ⟨hdigits, rfl⟩
    rcases splitSign_cases v with ⟨s, rfl, hs⟩ | hs
    · rw [hs] at hdecimal ⊢
      exact .minus hdecimal
    · rw [hs] at hdecimal ⊢
      exact .plain hdecimal

theorem fractionText_iff {v : Text} :
    FractionText v ↔ ∃ whole fraction, (splitSign v).2 = whole ++ '.' :: fraction ∧
      isDigits whole = true ∧ isDigits fraction = true := by
  constructor
  · rintro ⟨hw, hfraction⟩
    cases hw with
    | plain hds =>
      exact ⟨_, _, congrArg Prod.snd (splitSign_of_isDigits hds.isDigits _), hds.isDigits,
        hfraction.isDigits⟩
    | minus hds => exact ⟨_, _, rfl, hds.isDigits, hfraction.isDigits⟩
  · rintro ⟨whole, fraction, hsplit, hwhole, hfraction⟩
    have hw := decimal_iff.mpr ⟨hwhole, rfl⟩
    have hf := decimal_iff.mpr ⟨hfraction, rfl⟩
    rcases splitSign_cases v with ⟨s, rfl, hs⟩ | hs
    · rw [hs] at hsplit
      obtain rfl : s = _ := hsplit
      exact .intro (.minus hw) hf
    · rw [hs] at hsplit
      obtain rfl : v = _ := hsplit
      exact .intro (.plain hw) hf

/-! ## What a text stands for -/

/-- What `coerce` makes of a text is told by whether it is an integer literal, a literal with a
point, or neither. -/
structure Coerces (v : Text) : Prop where
  /-- It is an integer exactly if the text is an integer literal within the limit, and then the one
  that the literal denotes. -/
  integer : ∀ n, coerce v = .ok (.int n) ↔ ∃ k, IntegerText v k n ∧ k ≤ digitLimit
  /-- It is a floating-point number exactly if the text has a point between digits. -/
  fraction : (∃ x, coerce v = .ok (.float x)) ↔ FractionText v
  /-- It is the text itself exactly in all other cases, and never another text. -/
  unchanged : ∀ t, coerce v = .ok (.text t) ↔
    t = v ∧ (∀ k n, ¬IntegerText v k n) ∧ ¬FractionText v
  /-- There is none exactly for an integer literal beyond the limit. -/
  refused : ∀ f, coerce v = .error f ↔
    ∃ k n, IntegerText v k n ∧ digitLimit < k ∧ f = .numeralTooLong k

section Coerce

variable {v : Text}

theorem coerce_of_integerText {k : Nat} {n : Int} (h : IntegerText v k n) (hk : k ≤ digitLimit) :
    coerce v = .ok (.int n) := by
  obtain ⟨hdigits, rfl, rfl⟩ := integerText_iff.mp h
  obtain ⟨hne, hall⟩ := Bool.and_eq_true_iff.mp hdigits
  have hdrop : (splitSign v).2.dropWhile Char.isDigit = [] :=
    List.dropWhile_eq_nil_iff.mpr (List.all_eq_true.mp hall)
  simp [coerce, hdrop, takeWhile_eq_self_of_dropWhile hdrop, readInt?, hk, by simpa using hne]

theorem coerce_of_overlong {k : Nat} {n : Int} (h : IntegerText v k n) (hk : digitLimit < k) :
    coerce v = .error (.numeralTooLong k) := by
  obtain ⟨hdigits, rfl, -⟩ := integerText_iff.mp h
  exact coerce_of_isOverlong (by rw [isOverlong, hdigits, Bool.true_and, decide_eq_true hk])

theorem coerce_of_fractionText (h : FractionText v) : ∃ x, coerce v = .ok (.float x) := by
  obtain ⟨whole, fraction, hsplit, hwhole, hfraction⟩ := fractionText_iff.mp h
  obtain ⟨hne, hall⟩ := Bool.and_eq_true_iff.mp hwhole
  have hdigits : ∀ c ∈ whole, c.isDigit = true := List.all_eq_true.mp hall
  have hpoint : ∀ c ∈ ('.' :: fraction).head?, c.isDigit = false := by
    rintro c ⟨⟩
    rfl
  refine ⟨.ofNumeral (splitSign v).1 whole fraction, ?_⟩
  simp [coerce, hsplit, takeWhile_append_of_stop hdigits hpoint,
    dropWhile_append_of_stop hdigits hpoint, hfraction, by simpa using hne]

theorem coerce_of_neither (hinteger : ∀ k n, ¬IntegerText v k n) (hfraction : ¬FractionText v) :
    coerce v = .ok (.text v) := by
  have hparts := List.takeWhile_append_dropWhile (p := Char.isDigit) (l := (splitSign v).2)
  have hwhole : ∀ {s}, (splitSign v).2.takeWhile Char.isDigit = s → s.isEmpty = false →
      isDigits s = true := by
    rintro s rfl hne
    rw [isDigits, hne, List.all_takeWhile]
    rfl
  simp only [coerce]
  split
  next hdrop =>
    -- Digits and nothing else would be an integer literal.
    rw [hdrop, List.append_nil] at hparts
    split
    next => rfl
    next hne =>
      exact absurd (integerText_iff.mpr ⟨hparts ▸ hwhole rfl (by simpa using hne), rfl, rfl⟩)
        (hinteger _ _)
  next fraction hdrop =>
    rw [hdrop] at hparts
    split
    next hc =>
      rw [Bool.and_eq_true, Bool.not_eq_true'] at hc
      exact absurd (fractionText_iff.mpr ⟨_, _, hparts.symm, hwhole rfl hc.1, hc.2⟩) hfraction
    next => rfl
  next => rfl

/-- Every text is of one of the forms. -/
theorem coerce_cases (v : Text) :
    (∃ k n, IntegerText v k n ∧ k ≤ digitLimit ∧ coerce v = .ok (.int n)) ∨
      (∃ k n, IntegerText v k n ∧ digitLimit < k ∧ coerce v = .error (.numeralTooLong k)) ∨
      (∃ x, FractionText v ∧ coerce v = .ok (.float x)) ∨
      (∀ k n, ¬IntegerText v k n) ∧ ¬FractionText v ∧ coerce v = .ok (.text v) := by
  by_cases hinteger : ∃ k n, IntegerText v k n
  · obtain ⟨k, n, h⟩ := hinteger
    rcases Nat.lt_or_ge digitLimit k with hk | hk
    · exact .inr (.inl ⟨k, n, h, hk, coerce_of_overlong h hk⟩)
    · exact .inl ⟨k, n, h, hk, coerce_of_integerText h hk⟩
  · by_cases hfraction : FractionText v
    · obtain ⟨x, hx⟩ := coerce_of_fractionText hfraction
      exact .inr (.inr (.inl ⟨x, hfraction, hx⟩))
    · have hnone : ∀ k n, ¬IntegerText v k n := fun k n h => hinteger ⟨k, n, h⟩
      exact .inr (.inr (.inr ⟨hnone, hfraction, coerce_of_neither hnone hfraction⟩))

end Coerce

/-- The form of a text tells what it stands for. -/
theorem coerces (v : Text) : Coerces v := by
  refine ⟨fun n => ⟨fun h => ?_, ?_⟩, ⟨?_, coerce_of_fractionText⟩, fun t => ⟨fun h => ?_, ?_⟩,
    fun f => ⟨fun h => ?_, ?_⟩⟩
  · rcases coerce_cases v with ⟨k, m, hv, hk, hc⟩ | ⟨k, m, -, -, hc⟩ | ⟨x, -, hc⟩ | ⟨-, -, hc⟩ <;>
      cases h.symm.trans hc
    exact ⟨k, hv, hk⟩
  · rintro ⟨k, hv, hk⟩
    exact coerce_of_integerText hv hk
  · rintro ⟨y, h⟩
    rcases coerce_cases v with ⟨k, m, -, -, hc⟩ | ⟨k, m, -, -, hc⟩ | ⟨x, hv, -⟩ | ⟨-, -, hc⟩
    · cases h.symm.trans hc
    · cases h.symm.trans hc
    · exact hv
    · cases h.symm.trans hc
  · rcases coerce_cases v with ⟨k, m, -, -, hc⟩ | ⟨k, m, -, -, hc⟩ | ⟨x, -, hc⟩ | ⟨hi, hf, hc⟩ <;>
      cases h.symm.trans hc
    exact ⟨rfl, hi, hf⟩
  · rintro ⟨rfl, hinteger, hfraction⟩
    exact coerce_of_neither hinteger hfraction
  · rcases coerce_cases v with ⟨k, m, -, -, hc⟩ | ⟨k, m, hv, hk, hc⟩ | ⟨x, -, hc⟩ | ⟨-, -, hc⟩ <;>
      cases h.symm.trans hc
    exact ⟨k, m, hv, hk, rfl⟩
  · rintro ⟨k, n, hv, hk, rfl⟩
    exact coerce_of_overlong hv hk

/-! ## Integers as text -/

/-- The number of digits that an integer is written with. -/
def digitCount (n : Int) : Nat :=
  (Nat.toDigits 10 n.natAbs).length

/-- An integer is written as a text that denotes it. -/
theorem integerText_intDigits (n : Int) : IntegerText (intDigits n) (digitCount n) n := by
  have hdecimal := decimal_toDigits n.natAbs
  rw [intDigits]
  split
  next hn =>
    have hminus := IntegerText.minus hdecimal
    rwa [show -(n.natAbs : Int) = n by omega] at hminus
  next hn =>
    have hplain := IntegerText.plain hdecimal
    rwa [show (n.natAbs : Int) = n by omega] at hplain

theorem digitCount_le_iff (n : Int) {k : Nat} (hk : 0 < k) :
    digitCount n ≤ k ↔ n.natAbs < Nat.pow 10 k :=
  Nat.length_toDigits_le_iff (by decide) hk

/-- An integer is shown exactly if it has not too many digits. -/
theorem Value.shown?_int (n : Int) :
    (Value.int n).shown? = if digitCount n ≤ digitLimit then some (intDigits n) else none := by
  change intDigits? n = _
  rw [intDigits?]
  simp only [digitCount_le_iff n (show 0 < digitLimit by decide)]

/-- The least integer that is too long to be written. -/
def leastOverlong : Int :=
  Int.ofNat (Nat.pow 10 digitLimit)

theorem digitLimit_lt_digitCount : digitLimit < digitCount leastOverlong := by
  have hle := digitCount_le_iff leastOverlong (show 0 < digitLimit by decide)
  rw [leastOverlong, Int.ofNat_eq_natCast, Int.natAbs_natCast] at hle
  rw [leastOverlong]
  exact Nat.lt_of_not_le fun h => lt_irrefl _ (hle.mp h)

theorem shown?_leastOverlong : (Value.int leastOverlong).shown? = none :=
  (Value.shown?_int leastOverlong).trans (if_neg (Nat.not_le.mpr digitLimit_lt_digitCount))

/-- Within the limit, what an integer is written as stands for it. -/
theorem coerce_intDigits {n : Int} (h : digitCount n ≤ digitLimit) :
    coerce (intDigits n) = .ok (.int n) :=
  coerce_of_integerText (integerText_intDigits n) h

/-- Digits and the minus sign are characters of names, so what an integer is written as could be a
name. -/
theorem isName_intDigits (n : Int) : isName (intDigits n) = true := by
  have hdigits : ∀ c ∈ Nat.toDigits 10 n.natAbs, isNameChar c = true := by
    intro c hc
    have hdigit := Nat.isDigit_of_mem_toDigits (by decide) (by decide) hc
    simp [isNameChar, Char.isAlphanum, hdigit]
  rw [isName_iff, intDigits]
  split
  · exact ⟨List.cons_ne_nil _ _, List.forall_mem_cons.mpr ⟨by decide, hdigits⟩⟩
  · exact ⟨Nat.toDigits_ne_nil, hdigits⟩

end TagTemplate
