import Mathlib.Data.List.Chain
import TagTemplate.Proofs.AttributeTokens

/-!
# Quotes that were escaped on the way

Attribute text may have passed through something that puts backslashes before quotes, once or more
often. `EscapedBefore` relates a text to everything that can become of it in that way. Each of the
two passes of `dropEscapes` takes back what was put in before quotes of its kind
(`escapedBefore_dropEscapesBefore`) and leaves no backslash before them
(`unescaped_dropEscapesBefore`). A text comes from only one in which no quote is escaped
(`EscapedBefore.unique`). So `dropEscapes` gives that one (`dropEscapes_eq_iff`), in whatever order
the passes are made and however often, and texts that come from one text have the same attributes.
-/

namespace TagTemplate

/-! ## Putting backslashes in -/

/-- The quotes that a value may stand between. -/
def IsQuote (c : Char) : Prop :=
  c = '"' ∨ c = '\''

/-- `EscapedBefore p u t` : the text `t` is `u` with any number of backslashes put in directly
before characters that satisfy `p`. -/
inductive EscapedBefore (p : Char → Prop) : Text → Text → Prop
  | nil : EscapedBefore p [] []
  | keep (c : Char) {u t : Text} (h : EscapedBefore p u t) : EscapedBefore p (c :: u) (c :: t)
  | escape {q : Char} {u t : Text} (hq : p q) (h : EscapedBefore p (q :: u) t) :
    EscapedBefore p (q :: u) ('\\' :: t)

/-- No backslash stands directly before a character that satisfies `p`. -/
def Unescaped (p : Char → Prop) (s : Text) : Prop :=
  s.IsChain fun a b => a = '\\' → ¬p b

theorem unescaped_cons {p : Char → Prop} {c : Char} {s : Text} :
    Unescaped p (c :: s) ↔ (∀ q ∈ s.head?, c = '\\' → ¬p q) ∧ Unescaped p s :=
  List.isChain_cons

namespace EscapedBefore

variable {p p' : Char → Prop} {u v t s : Text}

theorem refl : ∀ s : Text, EscapedBefore p s s
  | [] => .nil
  | c :: s => .keep c (refl s)

theorem mono (hp : ∀ c, p c → p' c) (h : EscapedBefore p u t) : EscapedBefore p' u t := by
  induction h with
  | nil => exact .nil
  | keep c _ ih => exact .keep c ih
  | escape hq _ ih => exact .escape (hp _ hq) ih

/-- However many backslashes are put in. -/
theorem replicate {q : Char} (hq : p q) (n : Nat) (h : EscapedBefore p u t) :
    EscapedBefore p (q :: u) (List.replicate n '\\' ++ q :: t) := by
  induction n with
  | zero => exact .keep q h
  | succ n ih => exact .escape hq ih

/-- What can become of a text that was escaped already can become of the text itself. -/
theorem trans (h : EscapedBefore p u t) (h' : EscapedBefore p t s) : EscapedBefore p u s := by
  induction h' generalizing u with
  | nil => exact h
  | keep c _ ih =>
    cases h with
    | keep _ h => exact .keep c (ih h)
    | escape hq h => exact .escape hq (ih h)
  | escape hq _ ih =>
    have hs := ih h
    -- The text before begins with the same character, or with one that was escaped.
    cases h with
    | keep _ _ => exact .escape hq hs
    | escape hq' _ => exact .escape hq' hs

/-- A text comes from only one in which nothing is escaped. -/
theorem unique (hu : EscapedBefore p u t) (hv : EscapedBefore p v t) (hu' : Unescaped p u)
    (hv' : Unescaped p v) : u = v := by
  induction hu generalizing v with
  | nil => cases hv; rfl
  | keep c _ ih =>
    have hu' := unescaped_cons.mp hu'
    cases hv with
    | keep _ hv => rw [ih hv hu'.2 (unescaped_cons.mp hv').2]
    | escape hq hv =>
      -- A backslash kept in one and put in for the other would stand before `q` in the first.
      obtain rfl := ih hv hu'.2 hv'
      exact absurd hq (hu'.1 _ rfl rfl)
  | escape hq _ ih =>
    cases hv with
    | keep _ hv =>
      have hv' := unescaped_cons.mp hv'
      obtain rfl := ih hv hu' hv'.2
      exact absurd hq (hv'.1 _ rfl rfl)
    | escape _ hv => exact ih hv hu' hv'

end EscapedBefore

/-! ## Taking them back -/

section Pass

variable {p : Char → Prop} {quote : Char} {s : Text}

/-- One pass takes back what was put in before quotes of its kind. -/
theorem escapedBefore_dropEscapesBefore (quote : Char) (s : Text) :
    EscapedBefore (· = quote) (dropEscapesBefore quote s) s := by
  induction s with
  | nil => exact .nil
  | cons c s ih =>
    rw [dropEscapesBefore_cons]
    split
    next h =>
      obtain ⟨rfl, hhead⟩ := h
      obtain ⟨u, hu⟩ := List.head?_eq_some_iff.mp hhead
      rw [hu] at ih ⊢
      exact .escape rfl ih
    next => exact .keep c ih

/-- It leaves no backslash before them. -/
theorem unescaped_dropEscapesBefore (quote : Char) (s : Text) :
    Unescaped (· = quote) (dropEscapesBefore quote s) := by
  induction s with
  | nil => exact .nil
  | cons c s ih =>
    rw [dropEscapesBefore_cons]
    split
    next => exact ih
    next h =>
      refine unescaped_cons.mpr ⟨?_, ih⟩
      rintro q hq hc rfl
      exact h ⟨hc, hq⟩

/-- What comes first after a pass came first before, if it is not the quote. -/
theorem head?_of_dropEscapesBefore {c : Char} (h : (dropEscapesBefore quote s).head? = some c)
    (hquote : c ≠ quote) : s.head? = some c := by
  cases s with
  | nil => exact h
  | cons d s =>
    rw [dropEscapesBefore_cons] at h
    split at h
    next hd => exact absurd (Option.some.inj (h.symm.trans hd.2)) hquote
    next => exact h

/-- A pass brings no backslash before other characters. -/
theorem Unescaped.dropEscapesBefore (h : Unescaped p s) :
    Unescaped p (dropEscapesBefore quote s) := by
  induction s with
  | nil => exact h
  | cons c s ih =>
    obtain ⟨hhead, hs⟩ := unescaped_cons.mp h
    rw [dropEscapesBefore_cons]
    split
    next => exact ih hs
    next hkept =>
      refine unescaped_cons.mpr ⟨fun q hq hc hpq => ?_, ih hs⟩
      have hquote : q ≠ quote := by rintro rfl; exact hkept ⟨hc, hq⟩
      exact hhead q (head?_of_dropEscapesBefore hq hquote) hc hpq

theorem Unescaped.or {p' : Char → Prop} (h : Unescaped p s) (h' : Unescaped p' s) :
    Unescaped (fun c => p c ∨ p' c) s := by
  induction s with
  | nil => exact .nil
  | cons c s ih =>
    obtain ⟨hhead, hs⟩ := unescaped_cons.mp h
    obtain ⟨hhead', hs'⟩ := unescaped_cons.mp h'
    exact unescaped_cons.mpr ⟨fun q hq hc => not_or.mpr ⟨hhead q hq hc, hhead' q hq hc⟩, ih hs hs'⟩

end Pass

section Passes

variable {a b : Char} (hab : ∀ c, IsQuote c ↔ c = a ∨ c = b)
include hab

/-- Two passes, one for each kind of quote, take back what was put in before quotes. -/
theorem escapedBefore_passes (s : Text) :
    EscapedBefore IsQuote (dropEscapesBefore a (dropEscapesBefore b s)) s :=
  ((escapedBefore_dropEscapesBefore a _).mono fun c hc => (hab c).mpr (.inl hc)).trans
    ((escapedBefore_dropEscapesBefore b s).mono fun c hc => (hab c).mpr (.inr hc))

/-- The second pass brings back nothing of what the first took away. -/
theorem unescaped_passes (s : Text) :
    Unescaped IsQuote (dropEscapesBefore a (dropEscapesBefore b s)) := by
  have hboth := (unescaped_dropEscapesBefore a (dropEscapesBefore b s)).or
    (unescaped_dropEscapesBefore b s).dropEscapesBefore
  rwa [show IsQuote = fun c => c = a ∨ c = b from funext fun c => propext (hab c)]

/-- Two passes give the one text without escaped quotes that a text comes from. -/
theorem passes_eq_iff {s u : Text} : dropEscapesBefore a (dropEscapesBefore b s) = u ↔
    EscapedBefore IsQuote u s ∧ Unescaped IsQuote u := by
  constructor
  · rintro rfl
    exact ⟨escapedBefore_passes hab s, unescaped_passes hab s⟩
  · rintro ⟨hu, hu'⟩
    exact (escapedBefore_passes hab s).unique hu (unescaped_passes hab s) hu'

end Passes

/-- Dropping the backslashes before quotes gives the one text without any that a text comes from. -/
theorem dropEscapes_eq_iff {s u : Text} :
    dropEscapes s = u ↔ EscapedBefore IsQuote u s ∧ Unescaped IsQuote u :=
  passes_eq_iff fun _ => or_comm

/-- What is put in before quotes is dropped. -/
theorem EscapedBefore.dropEscapes_eq {r s : Text} (h : EscapedBefore IsQuote r s) :
    dropEscapes s = dropEscapes r := by
  obtain ⟨hr, hr'⟩ := dropEscapes_eq_iff.mp (rfl : dropEscapes r = _)
  exact dropEscapes_eq_iff.mpr ⟨hr.trans h, hr'⟩

/-- If backslashes are put into an attribute text directly before quotes, however many and before
whichever of the quotes, it has the same attributes in the same order, or fails with the same
fault. Whatever attribute text there is, its backslashes before quotes are dropped : what is left is
the text with no backslash directly before a quote that it comes from, and the only one. Dropping
them again changes nothing, nor does it matter which kind of quote comes first. -/
theorem attributesOf_of_escapedBefore {r s : Text} (h : EscapedBefore IsQuote r s) :
    attributesOf (.text s) = attributesOf (.text r) ∧
      dropEscapes (dropEscapes r) = dropEscapes r ∧
      dropEscapesBefore '"' (dropEscapesBefore '\'' r) = dropEscapes r ∧
      (∀ a b q, dropEscapes r = a ++ '\\' :: q :: b → ¬IsQuote q) ∧
      ∀ u, dropEscapes r = u ↔ EscapedBefore IsQuote u r ∧ Unescaped IsQuote u := by
  obtain ⟨hr, hr'⟩ := dropEscapes_eq_iff.mp (rfl : dropEscapes r = _)
  refine ⟨?_, dropEscapes_eq_iff.mpr ⟨.refl _, hr'⟩, ?_, fun a b q hq => ?_,
    fun u => dropEscapes_eq_iff⟩
  · rw [attributesOf_text, attributesOf_text, Attributes.read, Attributes.read, h.dropEscapes_eq]
  · exact (passes_eq_iff fun _ => Iff.rfl).mpr ⟨hr, hr'⟩
  · rw [hq] at hr'
    exact (List.isChain_append_cons_cons.mp hr').2.1 rfl

/-- A quote of one kind between two of the other, each with backslashes put in before it. -/
theorem attributesOf_of_escapedBefore_interleaved :
    EscapedBefore IsQuote "s='\"'".toList "s=\\\\'\\\"\\'".toList ∧
      attributesOf (.text "s=\\\\'\\\"\\'".toList) = attributesOf (.text "s='\"'".toList) ∧
      attributesOf (.text "s='\"'".toList) = .ok [(['s'], .text ['"'])] := by
  have h : EscapedBefore IsQuote "s='\"'".toList "s=\\\\'\\\"\\'".toList :=
    .keep 's' (.keep '=' (.replicate (.inr rfl) 2 (.replicate (.inl rfl) 1
      (.replicate (.inr rfl) 1 .nil))))
  have hpairs : attributePairs "s='\"'".toList = [(['s'], ['"'])] := by
    have hvalue : attributeValue? "'\"'".toList = some (['"'], []) := by decide
    have hread := @attributePairs_of_value ['s'] [] [] _ _ _ (by decide) (by simp) (by simp)
      (by rintro c ⟨⟩; decide) hvalue
    rwa [attributePairs] at hread
  refine ⟨h, (attributesOf_of_escapedBefore h).1, ?_⟩
  rw [attributesOf_text, Attributes.read, dropEscapes_of_not_mem (by decide), hpairs]
  rfl

end TagTemplate
