import TagTemplate.Tag.Attribute

/-!
# Attributes within the limit on numerals

Reading attributes fails for one reason only : a value is an integer literal of more digits
than the limit (`isOverlong`). Where no value is one, the attributes are those that the pairs
make one after another (`read_eq_ok`), and where one is, there are none
(`attributesFit_of_read`).
-/

namespace TagTemplate

/-- Whether a text is an integer literal with more digits than the limit. -/
def isOverlong (s : Text) : Bool :=
  isDigits (splitSign s).2 && decide (digitLimit < (splitSign s).2.length)

/-- Whether no value of an attribute text is an integer literal beyond the limit. -/
def attributesFit (s : Text) : Bool :=
  (attributePairs (dropEscapes s)).all fun p => !isOverlong p.2

/-- The value that a text stands for, integer literals beyond the limit left out of account. -/
def coerced (s : Text) : Value :=
  (coerce s).toOption.getD .null

/-- The attributes that pairs make, one after another. -/
def Attributes.ofPairs (pairs : List (Text × Text)) : Attributes :=
  pairs.foldl (fun attributes p => attributes.put p.1 (coerced p.2)) []

theorem takeWhile_eq_self_of_dropWhile {s : Text} (h : s.dropWhile Char.isDigit = []) :
    s.takeWhile Char.isDigit = s := by
  have := List.takeWhile_append_dropWhile (p := Char.isDigit) (l := s)
  rwa [h, List.append_nil] at this

/-- An integer literal beyond the limit has no value, and the fault tells its digits. -/
theorem coerce_of_isOverlong {s : Text} (h : isOverlong s = true) :
    coerce s = .error (.numeralTooLong (splitSign s).2.length) := by
  simp only [isOverlong, isDigits, Bool.and_eq_true, Bool.not_eq_true', decide_eq_true_eq] at h
  obtain ⟨⟨hne, hall⟩, hlong⟩ := h
  have hdrop : (splitSign s).2.dropWhile Char.isDigit = [] := by
    have := @List.dropWhile_append_of_pos _ Char.isDigit _ [] (List.all_eq_true.mp hall)
    simpa using this
  simp [coerce, hdrop, takeWhile_eq_self_of_dropWhile hdrop, hne, readInt?, Nat.not_le.mpr hlong]

/-- Every other text has one. -/
theorem coerce_eq_ok {s : Text} (h : isOverlong s = false) : coerce s = .ok (coerced s) := by
  have hvalue : ∃ v, coerce s = .ok v := by
    simp only [coerce]
    split
    next hdrop =>
      have hself := takeWhile_eq_self_of_dropWhile hdrop
      rw [hself]
      split
      case isTrue => exact ⟨_, rfl⟩
      next hne =>
        have hall := List.all_takeWhile (p := Char.isDigit) (l := (splitSign s).2)
        rw [hself] at hall
        have hshort : (splitSign s).2.length ≤ digitLimit := by
          simpa [isOverlong, isDigits, hne, hall] using h
        exact ⟨_, by rw [readInt?, if_pos hshort]⟩
    next => split <;> exact ⟨_, rfl⟩
    next => exact ⟨_, rfl⟩
  obtain ⟨v, hv⟩ := hvalue
  rw [coerced, hv]
  rfl

theorem isOverlong_of_coerce {s : Text} {v : Value} (h : coerce s = .ok v) :
    isOverlong s = false := by
  cases ho : isOverlong s with
  | false => rfl
  | true => rw [coerce_of_isOverlong ho] at h; cases h

/-- Putting the pairs into attributes that are there succeeds exactly if every value fits. -/
theorem foldlM_put_eq_ok {pairs : List (Text × Text)} {start : Attributes}
    (h : ∀ p ∈ pairs, isOverlong p.2 = false) :
    pairs.foldlM (fun attributes p => do
        let value ← coerce p.2
        return attributes.put p.1 value) start =
      (.ok (pairs.foldl (fun attributes p => attributes.put p.1 (coerced p.2)) start) :
        Except Fault Attributes) := by
  induction pairs generalizing start with
  | nil => rfl
  | cons p pairs ih =>
    rw [List.foldlM_cons, coerce_eq_ok (h p (List.mem_cons_self ..))]
    exact ih fun q hq => h q (List.mem_cons_of_mem _ hq)

theorem fit_of_foldlM_put {pairs : List (Text × Text)} {start attributes : Attributes}
    (h : pairs.foldlM (fun attributes p => do
        let value ← coerce p.2
        return attributes.put p.1 value) start = (.ok attributes : Except Fault Attributes)) :
    ∀ p ∈ pairs, isOverlong p.2 = false := by
  induction pairs generalizing start with
  | nil => simp
  | cons p pairs ih =>
    rw [List.foldlM_cons] at h
    cases hv : coerce p.2 with
    | error f => rw [hv] at h; cases h
    | ok v =>
      rw [hv] at h
      intro q hq
      rcases List.mem_cons.mp hq with rfl | hq
      · exact isOverlong_of_coerce hv
      · exact ih h q hq

/-- A text without a value is an integer literal beyond the limit. -/
theorem exists_of_coerce_eq_error {s : Text} {f : Fault} (h : coerce s = .error f) :
    ∃ digits, f = .numeralTooLong digits := by
  cases ho : isOverlong s with
  | false => rw [coerce_eq_ok ho] at h; cases h
  | true => exact ⟨_, Except.error.inj (h.symm.trans (coerce_of_isOverlong ho))⟩

/-- Reading attributes fails with no other fault than that a literal is too long. -/
theorem exists_of_read_eq_error {s : Text} {f : Fault} (h : Attributes.read s = .error f) :
    ∃ digits, f = .numeralTooLong digits := by
  suffices key : ∀ (pairs : List (Text × Text)) (start : Attributes),
      pairs.foldlM (fun attributes p => do
        let value ← coerce p.2
        return attributes.put p.1 value) start = (.error f : Except Fault Attributes) →
      ∃ digits, f = .numeralTooLong digits from key _ _ h
  intro pairs
  induction pairs with
  | nil => intro start h; cases h
  | cons p pairs ih =>
    intro start h
    rw [List.foldlM_cons] at h
    cases hv : coerce p.2 with
    | error g =>
      rw [hv] at h
      obtain rfl : g = f := Except.error.inj h
      exact exists_of_coerce_eq_error hv
    | ok v =>
      rw [hv] at h
      exact ih _ h

theorem read_eq_ok {s : Text} (h : attributesFit s = true) :
    Attributes.read s = .ok (.ofPairs (attributePairs (dropEscapes s))) :=
  foldlM_put_eq_ok (by simpa [attributesFit] using h)

theorem attributesFit_of_read {s : Text} {attributes : Attributes}
    (h : Attributes.read s = .ok attributes) : attributesFit s = true := by
  simpa [attributesFit] using fit_of_foldlM_put h

end TagTemplate
