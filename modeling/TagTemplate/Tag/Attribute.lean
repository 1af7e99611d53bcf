import TagTemplate.Fault
import TagTemplate.Tag.Name

/-!
# Attributes

The attribute text of a tag holds pairs `name=value`, with blanks allowed around the equals
sign and anything else between the pairs passed over. A value stands between two quotes of
one kind, or is a run of characters without blanks. Backslashes directly before a quote are
dropped first (`dropEscapes`), so text that was escaped on its way here reads the same.

A value that looks like a number is one (`coerce`). A name that occurs again keeps its
first place and takes the last value (`Attributes.put`).
-/

namespace TagTemplate

/-- Attributes in the order in which their names first occur. -/
abbrev Attributes := List (Text × Value)

namespace Attributes

/-- The attributes with `name` bound to `value`. -/
def put (name : Text) (value : Value) : Attributes → Attributes
  | [] => [(name, value)]
  | (n, v) :: rest => if n = name then (n, value) :: rest else (n, v) :: put name value rest

/-- The value of a name. -/
def get? (name : Text) : Attributes → Option Value
  | [] => none
  | (n, v) :: rest => if n = name then some v else get? name rest

end Attributes

/-- The value an attribute's text stands for : an integer for digits after an optional minus
sign, a floating-point number for digits with a point inside, and the text itself
otherwise. Integers are held to the limit on numerals. -/
def coerce (s : Text) : Except Fault Value :=
  let (negative, body) := splitSign s
  let whole := body.takeWhile Char.isDigit
  match body.dropWhile Char.isDigit with
  | [] =>
    if whole.isEmpty then .ok (.text s)
    else match readInt? negative whole with
      | some n => .ok (.int n)
      | none => .error (.numeralTooLong whole.length)
  | '.' :: fraction =>
    if !whole.isEmpty && isDigits fraction then
      .ok (.float (.ofNumeral negative whole fraction))
    else .ok (.text s)
  | _ => .ok (.text s)

/-- The text without the backslashes that stand directly before a quote of one kind. -/
def dropEscapesBefore (quote : Char) (s : Text) : Text :=
  s.foldr (fun c rest => if c = '\\' ∧ rest.head? = some quote then rest else c :: rest) []

/-- The text without the backslashes that stand directly before a quote. -/
def dropEscapes (s : Text) : Text :=
  dropEscapesBefore '\'' (dropEscapesBefore '"' s)

/-- A run of characters without blanks, and what follows it. -/
def bareValue? (s : Text) : Option (Text × Text) :=
  let run := s.takeWhile fun c => !isBlank c
  if run.isEmpty then none else some (run, s.dropWhile fun c => !isBlank c)

/-- The value after an opening quote and what follows its closing quote, if it has one. -/
def quotedValue? (quote : Char) (s : Text) : Option (Text × Text) :=
  match s.dropWhile (· != quote) with
  | [] => none
  | _ :: rest => some (s.takeWhile (· != quote), rest)

/-- The value at the head of a text and what follows it. A quote that is never closed is the
beginning of a run like any other character. -/
def attributeValue? : Text → Option (Text × Text)
  | '"' :: s => (quotedValue? '"' s).or (bareValue? ('"' :: s))
  | '\'' :: s => (quotedValue? '\'' s).or (bareValue? ('\'' :: s))
  | s => bareValue? s

theorem length_of_bareValue? {s value rest : Text} (h : bareValue? s = some (value, rest)) :
    rest.length ≤ s.length := by
  simp only [bareValue?] at h
  split at h
  · cases h
  · cases h; exact (List.dropWhile_sublist _).length_le

theorem length_of_quotedValue? {quote : Char} {s value rest : Text}
    (h : quotedValue? quote s = some (value, rest)) : rest.length ≤ s.length := by
  have hle := (List.dropWhile_sublist (l := s) (· != quote)).length_le
  simp only [quotedValue?] at h
  split at h
  · cases h
  · next c r hr => cases h; rw [hr] at hle; simp at hle; omega

/-- Reading a value leaves no more text than there was. -/
theorem length_of_attributeValue? {s value rest : Text}
    (h : attributeValue? s = some (value, rest)) : rest.length ≤ s.length := by
  unfold attributeValue? at h
  split at h
  case h_3 => exact length_of_bareValue? h
  all_goals
    rcases Option.or_eq_some_iff.mp h with hq | ⟨-, hb⟩
    · have := length_of_quotedValue? hq; simp; omega
    · exact length_of_bareValue? hb

/-- The pairs of an attribute text, in order. -/
def attributePairs : Text → List (Text × Text)
  | [] => []
  | c :: cs =>
    if isNameChar c then
      let name := c :: cs.takeWhile isNameChar
      let rest := cs.dropWhile isNameChar
      match _h : rest.dropWhile isBlank with
      | '=' :: r =>
        match _hv : attributeValue? (r.dropWhile isBlank) with
        | some (value, rest') => (name, value) :: attributePairs rest'
        | none => attributePairs rest
      | _ => attributePairs rest
    else attributePairs cs
termination_by s => s.length
decreasing_by
  · have h1 := length_of_attributeValue? _hv
    have h2 := (List.dropWhile_sublist (l := r) isBlank).length_le
    have h3 := (List.dropWhile_sublist (l := rest) isBlank).length_le
    have h4 : rest.length ≤ cs.length := (List.dropWhile_sublist isNameChar).length_le
    rw [_h] at h3
    simp at h3 ⊢
    omega
  · exact Nat.lt_succ_of_le (List.dropWhile_sublist isNameChar).length_le
  · exact Nat.lt_succ_of_le (List.dropWhile_sublist isNameChar).length_le
  · simp

/-- The attributes that an attribute text gives. -/
def Attributes.read (s : Text) : Except Fault Attributes :=
  (attributePairs (dropEscapes s)).foldlM (fun attributes pair => do
    let value ← coerce pair.2
    return attributes.put pair.1 value) []

end TagTemplate
