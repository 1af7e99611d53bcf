import TagTemplate.Text.Blank

/-!
# Tag names

A name is one or more of the ASCII letters and digits, the underscore, the at sign and the
hyphen. Names of tags and names of attributes follow the same rule. No name character is a
blank (`isBlank_of_isNameChar`), so trimming leaves a name as it is.
-/

namespace TagTemplate

/-- The characters of names. -/
def isNameChar (c : Char) : Bool :=
  c.isAlphanum || c == '_' || c == '@' || c == '-'

/-- Whether a text is a name. -/
def isName (s : Text) : Bool :=
  !s.isEmpty && s.all isNameChar

theorem isBlank_of_isNameChar {c : Char} (h : isNameChar c = true) : isBlank c = false := by
  have hc : c.toNat < 128 := by
    unfold isNameChar Char.isAlphanum Char.isAlpha Char.isUpper Char.isLower Char.isDigit at h
    simp only [Bool.or_eq_true, Bool.and_eq_true, decide_eq_true_eq, beq_iff_eq,
      UInt32.le_iff_toNat_le, ge_iff_le] at h
    rcases h with ((((h | h) | h) | rfl) | rfl) | rfl
    · exact Nat.lt_of_le_of_lt h.2 (by decide)
    · exact Nat.lt_of_le_of_lt h.2 (by decide)
    · exact Nat.lt_of_le_of_lt h.2 (by decide)
    all_goals decide
  have key : ∀ n : Fin 128, isNameChar (Char.ofNat n) = true → isBlank (Char.ofNat n) = false := by
    decide
  have := key ⟨c.toNat, hc⟩
  simp only [Char.ofNat_toNat] at this
  exact this h

end TagTemplate
