import Mathlib.Data.List.Basic
import Mathlib.Data.List.TakeWhile
import TagTemplate.Text.Utf8

/-!
# Text and its bytes

`Utf8.decode` and `Utf8.encode` are inverse to each other : bytes are read as a text exactly if they
are the encoding of that text (`decode_eq_ok_iff`). One character and its bytes are a `Sequence`,
with a constructor for each number of bytes; every encoding of a character is one
(`sequence_of_encodeChar`), and the character of a sequence has it as its encoding
(`encodeChar_codePoint`).
-/

namespace TagTemplate

namespace Utf8

section Classes

variable {b c : UInt8}

theorem isContinuation_iff : isContinuation b = true ↔ 0x80 ≤ b.toNat ∧ b.toNat < 0xC0 := by
  simp [isContinuation, UInt8.le_iff_toNat_le, UInt8.lt_iff_toNat_lt]

theorem isSecond_iff : isSecond b c = true ↔ (0x80 ≤ c.toNat ∧ c.toNat < 0xC0) ∧
    (b.toNat = 0xE0 → 0xA0 ≤ c.toNat) ∧ (b.toNat = 0xED → c.toNat < 0xA0) ∧
    (b.toNat = 0xF0 → 0x90 ≤ c.toNat) ∧ (b.toNat = 0xF4 → c.toNat < 0x90) := by
  simp only [isSecond, Bool.and_eq_true, isContinuation_iff, Bool.or_eq_true, bne_iff_ne, ne_eq,
    decide_eq_true_eq, ← UInt8.toNat_inj, UInt8.le_iff_toNat_le, UInt8.lt_iff_toNat_lt,
    UInt8.reduceToNat]
  omega

theorem continuations?_eq_some_iff {n : Nat} : continuations? b = some n ↔
    n = 0 ∧ b.toNat < 0x80 ∨ n = 1 ∧ 0xC2 ≤ b.toNat ∧ b.toNat < 0xE0 ∨
      n = 2 ∧ 0xE0 ≤ b.toNat ∧ b.toNat < 0xF0 ∨ n = 3 ∧ 0xF0 ≤ b.toNat ∧ b.toNat < 0xF5 := by
  simp only [continuations?, UInt8.le_iff_toNat_le, UInt8.lt_iff_toNat_lt, UInt8.reduceToNat,
    Bool.and_eq_true, decide_eq_true_eq]
  grind

end Classes

/-! ## One character -/

/-- `a` and the bytes `tail` after it are the sequence of one character. -/
inductive Sequence : UInt8 → List UInt8 → Prop
  | one {a : UInt8} (ha : a.toNat < 0x80) : Sequence a []
  | two {a b : UInt8} (ha : 0xC2 ≤ a.toNat ∧ a.toNat < 0xE0) (hb : isSecond a b = true) :
    Sequence a [b]
  | three {a b c : UInt8} (ha : 0xE0 ≤ a.toNat ∧ a.toNat < 0xF0) (hb : isSecond a b = true)
    (hc : isContinuation c = true) : Sequence a [b, c]
  | four {a b c d : UInt8} (ha : 0xF0 ≤ a.toNat ∧ a.toNat < 0xF5) (hb : isSecond a b = true)
    (hc : isContinuation c = true) (hd : isContinuation d = true) : Sequence a [b, c, d]

theorem ofNat_eq_iff {n : Nat} {b : UInt8} : UInt8.ofNat n = b ↔ n % 256 = b.toNat := by
  rw [← UInt8.toNat_inj, UInt8.toNat_ofNat']

theorem val_ofNat {n : Nat} (h : n.isValidChar) : (Char.ofNat n).val.toNat = n := by
  rw [Char.ofNat, dif_pos h]
  rfl

section EncodeChar

variable {c : Char}

theorem encodeChar_one (h : c.val.toNat < 0x80) :
    String.utf8EncodeChar c = [UInt8.ofNat c.val.toNat] := by
  simp only [String.utf8EncodeChar]
  rw [if_pos (by omega)]

theorem encodeChar_two (h : 0x80 ≤ c.val.toNat) (h' : c.val.toNat < 0x800) :
    String.utf8EncodeChar c =
      [UInt8.ofNat (c.val.toNat / 0x40 % 0x20 + 0xC0),
        UInt8.ofNat (c.val.toNat % 0x40 + 0x80)] := by
  simp only [String.utf8EncodeChar]
  rw [if_neg (by omega), if_pos (by omega)]

theorem encodeChar_three (h : 0x800 ≤ c.val.toNat) (h' : c.val.toNat < 0x10000) :
    String.utf8EncodeChar c = [UInt8.ofNat (c.val.toNat / 0x1000 % 0x10 + 0xE0),
      UInt8.ofNat (c.val.toNat / 0x40 % 0x40 + 0x80), UInt8.ofNat (c.val.toNat % 0x40 + 0x80)] := by
  simp only [String.utf8EncodeChar]
  rw [if_neg (by omega), if_neg (by omega), if_pos (by omega)]

theorem encodeChar_four (h : 0x10000 ≤ c.val.toNat) :
    String.utf8EncodeChar c = [UInt8.ofNat (c.val.toNat / 0x40000 % 0x08 + 0xF0),
      UInt8.ofNat (c.val.toNat / 0x1000 % 0x40 + 0x80),
      UInt8.ofNat (c.val.toNat / 0x40 % 0x40 + 0x80), UInt8.ofNat (c.val.toNat % 0x40 + 0x80)] := by
  simp only [String.utf8EncodeChar]
  rw [if_neg (by omega), if_neg (by omega), if_neg (by omega)]

end EncodeChar

/-- The character of a sequence is encoded by the sequence. -/
theorem encodeChar_codePoint {a : UInt8} {tail : List UInt8} (h : Sequence a tail) :
    String.utf8EncodeChar (Char.ofNat (codePoint a tail)) = a :: tail := by
  cases h with
  | one ha =>
    have hn : codePoint a [] = a.toNat := rfl
    generalize codePoint a [] = n at hn ⊢
    have hval := val_ofNat (n := n) (.inl (by omega))
    rw [encodeChar_one (by omega), hval]
    simp only [List.cons.injEq, ofNat_eq_iff, and_true]
    omega
  | @two b ha hb =>
    rw [isSecond_iff] at hb
    have hn : codePoint a [b] = a.toNat % 0x20 * 0x40 + b.toNat % 0x40 := rfl
    generalize codePoint a [b] = n at hn ⊢
    have hval := val_ofNat (n := n) (.inl (by omega))
    rw [encodeChar_two (by omega) (by omega), hval]
    simp only [List.cons.injEq, ofNat_eq_iff, and_true]
    omega
  | @three b c ha hb hc =>
    rw [isSecond_iff] at hb
    rw [isContinuation_iff] at hc
    have hn : codePoint a [b, c] =
      (a.toNat % 0x10 * 0x40 + b.toNat % 0x40) * 0x40 + c.toNat % 0x40 := rfl
    generalize codePoint a [b, c] = n at hn ⊢
    have hval := val_ofNat (n := n) (by unfold Nat.isValidChar; omega)
    rw [encodeChar_three (by omega) (by omega), hval]
    simp only [List.cons.injEq, ofNat_eq_iff, and_true]
    omega
  | @four b c d ha hb hc hd =>
    rw [isSecond_iff] at hb
    rw [isContinuation_iff] at hc hd
    have hn : codePoint a [b, c, d] = ((a.toNat % 0x08 * 0x40 + b.toNat % 0x40) * 0x40 +
      c.toNat % 0x40) * 0x40 + d.toNat % 0x40 := rfl
    generalize codePoint a [b, c, d] = n at hn ⊢
    have hval := val_ofNat (n := n) (by unfold Nat.isValidChar; omega)
    rw [encodeChar_four (by omega), hval]
    simp only [List.cons.injEq, ofNat_eq_iff, and_true]
    omega

/-- The encoding of a character is a sequence, and gives the character back. -/
theorem sequence_of_encodeChar (c : Char) : ∃ a tail, String.utf8EncodeChar c = a :: tail ∧
    Sequence a tail ∧ Char.ofNat (codePoint a tail) = c := by
  have hback : Char.ofNat c.val.toNat = c := Char.ofNat_toNat c
  have hvalid : c.val.toNat < 0xD800 ∨ 0xDFFF < c.val.toNat ∧ c.val.toNat < 0x110000 := c.valid
  rcases Nat.lt_or_ge c.val.toNat 0x80 with h1 | h1
  · refine ⟨_, _, encodeChar_one h1, .one ?_, ?_⟩
    · rw [UInt8.toNat_ofNat']; omega
    · refine (congrArg Char.ofNat ?_).trans hback
      show (UInt8.ofNat _).toNat = _
      rw [UInt8.toNat_ofNat']; omega
  rcases Nat.lt_or_ge c.val.toNat 0x800 with h2 | h2
  · refine ⟨_, _, encodeChar_two h1 h2, .two ?_ ?_, ?_⟩
    · rw [UInt8.toNat_ofNat']; omega
    · rw [isSecond_iff]; simp only [UInt8.toNat_ofNat']; omega
    · refine (congrArg Char.ofNat ?_).trans hback
      show (UInt8.ofNat _).toNat % 0x20 * 0x40 + (UInt8.ofNat _).toNat % 0x40 = _
      simp only [UInt8.toNat_ofNat']; omega
  rcases Nat.lt_or_ge c.val.toNat 0x10000 with h3 | h3
  · refine ⟨_, _, encodeChar_three h2 h3, .three ?_ ?_ ?_, ?_⟩
    · rw [UInt8.toNat_ofNat']; omega
    · rw [isSecond_iff]; simp only [UInt8.toNat_ofNat']; omega
    · rw [isContinuation_iff]; simp only [UInt8.toNat_ofNat']; omega
    · refine (congrArg Char.ofNat ?_).trans hback
      show ((UInt8.ofNat _).toNat % 0x10 * 0x40 + (UInt8.ofNat _).toNat % 0x40) * 0x40 +
        (UInt8.ofNat _).toNat % 0x40 = _
      simp only [UInt8.toNat_ofNat']; omega
  · refine ⟨_, _, encodeChar_four h3, .four ?_ ?_ ?_ ?_, ?_⟩
    · rw [UInt8.toNat_ofNat']; omega
    · rw [isSecond_iff]; simp only [UInt8.toNat_ofNat']; omega
    · rw [isContinuation_iff]; simp only [UInt8.toNat_ofNat']; omega
    · rw [isContinuation_iff]; simp only [UInt8.toNat_ofNat']; omega
    · refine (congrArg Char.ofNat ?_).trans hback
      show (((UInt8.ofNat _).toNat % 0x08 * 0x40 + (UInt8.ofNat _).toNat % 0x40) * 0x40 +
        (UInt8.ofNat _).toNat % 0x40) * 0x40 + (UInt8.ofNat _).toNat % 0x40 = _
      simp only [UInt8.toNat_ofNat']; omega

/-! ## Whole texts -/

/-- A sequence is taken as one. -/
theorem Sequence.good {a : UInt8} {tail : List UInt8} (h : Sequence a tail) (rest : List UInt8) :
    continuations? a = some tail.length ∧
      goodContinuations a tail.length (tail ++ rest) = tail.length := by
  cases h with
  | one ha => exact ⟨continuations?_eq_some_iff.mpr (by simp [ha]), rfl⟩
  | two ha hb =>
    exact ⟨continuations?_eq_some_iff.mpr (by simp [ha]), by simp [goodContinuations, hb]⟩
  | three ha hb hc =>
    exact ⟨continuations?_eq_some_iff.mpr (by simp [ha]), by simp [goodContinuations, hb, hc]⟩
  | four ha hb hc hd =>
    exact ⟨continuations?_eq_some_iff.mpr (by simp [ha]), by simp [goodContinuations, hb, hc, hd]⟩

theorem good_succ {a : UInt8} {n : Nat} {rest : List UInt8}
    (h : goodContinuations a (n + 1) rest = n + 1) : ∃ b more, rest = b :: more ∧
      isSecond a b = true ∧ (more.take n).length = n ∧
        ∀ c ∈ more.take n, isContinuation c = true := by
  cases rest with
  | nil => simp [goodContinuations] at h
  | cons b more =>
    rw [goodContinuations] at h
    split at h
    next hb =>
      have hlen : ((more.take n).takeWhile isContinuation).length = n := by omega
      have hall : (more.take n).takeWhile isContinuation = more.take n :=
        (List.takeWhile_prefix _).eq_of_length_le (by rw [hlen]; exact List.length_take_le n more)
      exact ⟨b, more, rfl, hb, by rw [← hall, hlen], List.takeWhile_eq_self_iff.mp hall⟩
    next => omega

/-- Only sequences are taken. -/
theorem sequence_of_good {a : UInt8} {n : Nat} {rest : List UInt8} (hn : continuations? a = some n)
    (hgood : goodContinuations a n rest = n) :
    Sequence a (rest.take n) ∧ (rest.take n).length = n := by
  rcases continuations?_eq_some_iff.mp hn with ⟨rfl, ha⟩ | ⟨rfl, ha⟩ | ⟨rfl, ha⟩ | ⟨rfl, ha⟩
  · exact ⟨.one ha, rfl⟩
  all_goals obtain ⟨b, more, rfl, hb, hlen, hcont⟩ := good_succ hgood
  · exact ⟨.two ha hb, rfl⟩
  · obtain ⟨c, hc⟩ := List.length_eq_one_iff.mp hlen
    rw [hc] at hcont
    rw [List.take_succ_cons, hc]
    exact ⟨.three ha hb (hcont c (by simp)), rfl⟩
  · obtain ⟨c, d, hcd⟩ := List.length_eq_two.mp hlen
    rw [hcd] at hcont
    rw [List.take_succ_cons, hcd]
    exact ⟨.four ha hb (hcont c (by simp)) (hcont d (by simp)), rfl⟩

theorem encode_cons (c : Char) (s : Text) : encode (c :: s) = String.utf8EncodeChar c ++ encode s :=
  List.flatMap_cons

/-- What a sequence at the head of bytes does to reading them. -/
theorem decodeFrom_of_sequence {a : UInt8} {tail : List UInt8} (h : Sequence a tail) (place : Nat)
    (before : Text) (rest : List UInt8) : decodeFrom place before (a :: (tail ++ rest)) =
      decodeFrom (place + 1 + tail.length) (Char.ofNat (codePoint a tail) :: before) rest := by
  obtain ⟨hcount, hgood⟩ := h.good rest
  rw [decodeFrom]
  simp only [hcount, hgood, if_true, List.take_left, List.drop_left]

theorem decodeFrom_encode (s : Text) (place : Nat) (before : Text) :
    decodeFrom place before (encode s) = .ok (before.reverse ++ s) := by
  induction s generalizing place before with
  | nil =>
    rw [show encode [] = [] from rfl, decodeFrom, List.append_nil]
  | cons c s ih =>
    obtain ⟨a, tail, hc, hseq, hback⟩ := sequence_of_encodeChar c
    rw [encode_cons, hc, List.cons_append, decodeFrom_of_sequence hseq, ih, hback]
    simp

theorem exists_of_decodeFrom_eq_ok {bytes : List UInt8} {place : Nat} {before s : Text}
    (h : decodeFrom place before bytes = .ok s) :
    ∃ t, s = before.reverse ++ t ∧ bytes = encode t := by
  induction hn : bytes.length using Nat.strongRecOn generalizing bytes place before with
  | _ n ih =>
    subst hn
    rw [decodeFrom.eq_def] at h
    split at h
    next => exact ⟨[], by simpa using (Except.ok.inj h).symm, rfl⟩
    next a rest =>
      split at h
      next => cases h
      next n hcount =>
        simp only at h
        split at h
        next hgood =>
          obtain ⟨hseq, -⟩ := sequence_of_good hcount hgood
          obtain ⟨t, rfl, ht⟩ := ih (rest.drop n).length
            (by simp only [List.length_drop, List.length_cons]; omega) h rfl
          refine ⟨Char.ofNat (codePoint a (rest.take n)) :: t, by simp, ?_⟩
          rw [encode_cons, encodeChar_codePoint hseq, ← ht, List.cons_append, List.take_append_drop]
        next => split at h <;> cases h

/-- Bytes are read as a text exactly if they are its encoding. -/
theorem decode_eq_ok_iff {bytes : List UInt8} {s : Text} :
    decode bytes = .ok s ↔ bytes = encode s := by
  constructor
  · intro h
    obtain ⟨t, rfl, ht⟩ := exists_of_decodeFrom_eq_ok h
    exact ht
  · rintro rfl
    exact decodeFrom_encode s 0 []

/-- Different texts have different encodings. -/
theorem encode_injective {s t : Text} (h : encode s = encode t) : s = t :=
  Except.ok.inj ((decode_eq_ok_iff.mpr rfl).symm.trans (decode_eq_ok_iff.mpr h))

end Utf8

end TagTemplate
