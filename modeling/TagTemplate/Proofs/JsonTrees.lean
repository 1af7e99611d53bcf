import TagTemplate.Json.Reader
import TagTemplate.Json.Writer
import TagTemplate.Proofs.Runs
import TagTemplate.Tree

/-!
# Trees that have a JSON form

Bytes, timestamps and sets have no JSON form, and a mapping has one only if its keys can name
members (`Json.hasForm`). A value is written as JSON exactly if it has a form (`isSome_write?`).
Every value that is read from JSON has one (`hasForm_of_read`), and a walk keeps it
(`gives_walkSync`), so that what was read can be written after it was walked.
-/

namespace TagTemplate

namespace Json

mutual

/-- Whether a value has a JSON form. -/
def hasForm : Value → Bool
  | .bytes _ | .timestamp _ _ | .set _ _ => false
  | .list items => itemsHaveForm items
  | .tuple items => itemsHaveForm items
  | .dict entries => membersHaveForm entries
  | .view entries => membersHaveForm entries
  | _ => true

/-- Whether all items have a JSON form. -/
def itemsHaveForm : List Value → Bool
  | [] => true
  | v :: rest => hasForm v && itemsHaveForm rest

/-- Whether all keys can name members and all values have a JSON form. -/
def membersHaveForm : List (Value × Value) → Bool
  | [] => true
  | (k, v) :: rest => (keyText? k).isSome && hasForm v && membersHaveForm rest

end

theorem itemsHaveForm_iff {items : List Value} :
    itemsHaveForm items = true ↔ ∀ v ∈ items, hasForm v = true := by
  induction items with
  | nil => simp [itemsHaveForm]
  | cons v rest ih => simp [itemsHaveForm, ih]

theorem membersHaveForm_iff {entries : List (Value × Value)} : membersHaveForm entries = true ↔
    ∀ e ∈ entries, (keyText? e.1).isSome = true ∧ hasForm e.2 = true := by
  induction entries with
  | nil => simp [membersHaveForm]
  | cons e rest ih => simp [membersHaveForm, ih]

/-! ## Writing -/

mutual

theorem isSome_writeAt? (l : Layout) (level : Nat) (v : Value) :
    (writeAt? l level v).isSome = hasForm v := by
  cases v with
  | list items => simp [writeAt?, hasForm, isSome_itemsAt? l (level + 1) items]
  | tuple items => simp [writeAt?, hasForm, isSome_itemsAt? l (level + 1) items]
  | dict entries => simp [writeAt?, hasForm, isSome_membersAt? l (level + 1) entries]
  | view entries => simp [writeAt?, hasForm, isSome_membersAt? l (level + 1) entries]
  | _ => rfl

theorem isSome_itemsAt? (l : Layout) (level : Nat) : ∀ items : List Value,
    (itemsAt? l level items).isSome = itemsHaveForm items
  | [] => rfl
  | v :: rest => by
    rw [itemsAt?, itemsHaveForm, ← isSome_writeAt? l level v, ← isSome_itemsAt? l level rest]
    cases writeAt? l level v <;> cases itemsAt? l level rest <;> rfl

theorem isSome_membersAt? (l : Layout) (level : Nat) : ∀ entries : List (Value × Value),
    (membersAt? l level entries).isSome = membersHaveForm entries
  | [] => rfl
  | (k, v) :: rest => by
    rw [membersAt?, membersHaveForm, ← isSome_writeAt? l level v,
      ← isSome_membersAt? l level rest]
    cases keyText? k <;> cases writeAt? l level v <;> cases membersAt? l level rest <;> rfl

end

/-- A value is written exactly if it has a form. -/
theorem isSome_write? (l : Layout) (v : Value) : (write? l v).isSome = hasForm v :=
  isSome_writeAt? l 0 v

/-! ## Reading -/

theorem hasForm_of_word? {s rest : Text} {v : Value} (h : word? s = some (v, rest)) :
    hasForm v = true := by
  obtain ⟨⟨w, u⟩, hmem, hw⟩ := List.exists_of_findSome?_eq_some h
  have hall : ∀ p ∈ words, hasForm p.2 = true := by decide
  simp only at hw
  split at hw
  · cases hw
    exact hall _ hmem
  · cases hw

theorem hasForm_of_number {limit : Option Nat} {negative : Bool} {s rest : Text} {v : Value}
    (h : number limit negative s = .ok (v, rest)) : hasForm v = true := by
  unfold number at h
  simp only at h
  repeat' split at h
  all_goals cases h
  all_goals rfl

/-- A key that is there keeps its own form. -/
theorem membersHaveForm_putEntry {key value : Value} (hkey : (keyText? key).isSome = true)
    (hvalue : hasForm value = true) {entries : List (Value × Value)}
    (h : membersHaveForm entries = true) :
    membersHaveForm (Value.putEntry key value entries) = true := by
  induction entries with
  | nil => simp [Value.putEntry, membersHaveForm, hkey, hvalue]
  | cons e rest ih =>
    obtain ⟨k, v⟩ := e
    simp only [membersHaveForm, Bool.and_eq_true] at h
    rw [Value.putEntry]
    split
    · simp [membersHaveForm, h, hvalue]
    · simp [membersHaveForm, h, ih h.2]

theorem membersHaveForm_ofBindings {bindings : List (Value × Value)}
    (h : membersHaveForm bindings = true) :
    membersHaveForm (Value.ofBindings bindings) = true := by
  suffices hfold : ∀ entries, membersHaveForm entries = true → membersHaveForm
      (bindings.foldl (fun entries b => Value.putEntry b.1 b.2 entries) entries) = true from
    hfold [] rfl
  induction bindings with
  | nil => exact fun entries h => h
  | cons b rest ih =>
    simp only [membersHaveForm, Bool.and_eq_true] at h
    exact fun entries he => ih h.2 _ (membersHaveForm_putEntry h.1.1 h.1.2 he)

mutual

theorem hasForm_of_value {limit : Option Nat} : ∀ {fuel : Nat} {s rest : Text} {v : Value},
    value limit fuel s = .ok (v, rest) → hasForm v = true
  | 0, _, _, _, h => by cases h
  | fuel + 1, s, rest, v, h => by
    unfold value at h
    split at h
    · split at h
      · cases h
        rfl
      · cases h
    · split at h
      · cases h
        rfl
      · exact hasForm_of_items (by simp) h
    · split at h
      · cases h
        rfl
      · exact hasForm_of_members rfl h
    · split at h
      next hw =>
        obtain rfl := Except.ok.inj h
        exact hasForm_of_word? hw
      next =>
        split at h
        · exact hasForm_of_number h
        · exact hasForm_of_number h

theorem hasForm_of_items {limit : Option Nat} : ∀ {fuel : Nat} {before : List Value}
    {s rest : Text} {v : Value}, (∀ u ∈ before, hasForm u = true) →
      items limit fuel before s = .ok (v, rest) → hasForm v = true
  | 0, _, _, _, _, _, h => by cases h
  | fuel + 1, before, s, rest, v, hbefore, h => by
    unfold items at h
    obtain ⟨⟨u, rest'⟩, hu, h⟩ := Except.bind_eq_ok_iff.mp h
    have hform : ∀ w ∈ u :: before, hasForm w = true :=
      List.forall_mem_cons.mpr ⟨hasForm_of_value hu, hbefore⟩
    simp only at h
    split at h
    · exact hasForm_of_items hform h
    · cases h
      exact itemsHaveForm_iff.mpr fun w hw => hform w (List.mem_reverse.mp hw)
    · cases h

theorem hasForm_of_members {limit : Option Nat} : ∀ {fuel : Nat} {before : List (Value × Value)}
    {s rest : Text} {v : Value}, membersHaveForm before = true →
      members limit fuel before s = .ok (v, rest) → hasForm v = true
  | 0, _, _, _, _, _, h => by cases h
  | fuel + 1, before, s, rest, v, hbefore, h => by
    unfold members at h
    split at h
    · split at h
      · cases h
      · split at h
        · obtain ⟨⟨u, rest'⟩, hu, h⟩ := Except.bind_eq_ok_iff.mp h
          simp only at h
          split at h
          · refine hasForm_of_members ?_ h
            simp [membersHaveForm, keyText?, hasForm_of_value hu, hbefore]
          · cases h
            refine membersHaveForm_ofBindings (membersHaveForm_iff.mpr fun e he => ?_)
            rcases List.mem_cons.mp (List.mem_reverse.mp he) with rfl | he
            · exact ⟨rfl, hasForm_of_value hu⟩
            · exact membersHaveForm_iff.mp hbefore e he
          · cases h
        · cases h
    · cases h

end

/-- What is read from JSON has a JSON form. -/
theorem hasForm_of_read {limit : Option Nat} {s : Text} {v : Value} (h : read limit s = .ok v) :
    hasForm v = true := by
  rw [read] at h
  obtain ⟨⟨u, rest⟩, hu, h⟩ := Except.bind_eq_ok_iff.mp h
  simp only at h
  split at h
  · obtain rfl := Except.ok.inj h
    exact hasForm_of_value hu
  · cases h

end Json

/-! ## Walking -/

/-- Whenever the process succeeds, its result has the property `Q`. -/
def Process.Gives {σ α : Type} (Q : α → Prop) (p : Process σ α) : Prop :=
  ∀ s a, (p.run s).outcome = .ok a → Q a

namespace Process.Gives

variable {σ α β : Type} {Q : α → Prop} {R : β → Prop} {p : Process σ α}

theorem done {a : α} (h : Q a) : (Process.done a : Process σ α).Gives Q :=
  fun _ _ ha => Except.ok.inj ha ▸ h

theorem fail (f : Fault) : (Process.fail f : Process σ α).Gives Q :=
  fun _ _ ha => nomatch ha

theorem bind (hp : p.Gives Q) {next : α → Process σ β} (hnext : ∀ a, Q a → (next a).Gives R) :
    (p.bind next).Gives R := by
  intro s b hb
  rw [run_bind, Run.bind] at hb
  cases ho : (p.run s).outcome with
  | error f => rw [ho] at hb; cases hb
  | ok a => rw [ho] at hb; exact hnext a (hp s a ho) _ b hb

theorem keep (hp : p.Gives Q) (label : Text) :
    (p.keep label).Gives fun kept => ∀ a ∈ kept, Q a := by
  intro s kept hkept
  rw [Process.keep, run_andThen, Run.andThen] at hkept
  cases ho : (p.run s).outcome with
  | error f =>
    simp only [ho] at hkept
    split at hkept
    · obtain rfl := Except.ok.inj hkept
      simp
    · cases hkept
  | ok a =>
    simp only [ho] at hkept
    obtain rfl := Except.ok.inj hkept
    simpa using hp s a ho

end Process.Gives

namespace Json

variable {σ : Type} {test : Text → Bool} (evaluateText : Text → Process σ Text)

mutual

/-- A walk keeps a tree one that has a JSON form. -/
theorem gives_walkSync : ∀ v : Value, hasForm v = true →
    (v.walkSync test evaluateText).Gives fun w => hasForm w = true
  | .text s, _ => by
    rw [Value.walkSync]
    split
    · exact .bind (Q := fun _ => True) (fun _ _ _ => trivial) fun t _ => .done rfl
    · exact .done rfl
  | .list items, h => by
    rw [Value.walkSync]
    exact (gives_walkItemsSync 0 items h).bind fun _ h => .done h
  | .tuple items, h => by
    rw [Value.walkSync]
    exact (gives_walkItemsSync 0 items h).bind fun _ h => .done h
  | .dict entries, h => by
    rw [Value.walkSync]
    exact (gives_walkEntriesSync entries h).bind fun _ h => .done h
  | .view entries, h => by
    rw [Value.walkSync]
    exact (gives_walkEntriesSync entries h).bind fun _ h => .done h
  | .null, h => .done h
  | .bool _, h => .done h
  | .int _, h => .done h
  | .float _, h => .done h
  | .bytes _, h => .done h
  | .timestamp _ _, h => .done h
  | .set _ _, h => .done h

theorem gives_walkItemsSync (index : Nat) : ∀ items : List Value, itemsHaveForm items = true →
    (Value.walkItemsSync test evaluateText index items).Gives fun vs => itemsHaveForm vs = true
  | [], _ => .done rfl
  | v :: rest, h => by
    rw [itemsHaveForm, Bool.and_eq_true] at h
    rw [Value.walkItemsSync]
    refine ((gives_walkSync v h.1).keep _).bind fun kept hkept =>
      (gives_walkItemsSync (index + 1) rest h.2).bind fun vs hvs => .done ?_
    cases kept with
    | none => exact hvs
    | some w => simp [itemsHaveForm, hkept w rfl, hvs]

theorem gives_walkEntriesSync : ∀ entries : List (Value × Value), membersHaveForm entries = true →
    (Value.walkEntriesSync test evaluateText entries).Gives fun es => membersHaveForm es = true
  | [], _ => .done rfl
  | (k, v) :: rest, h => by
    simp only [membersHaveForm, Bool.and_eq_true] at h
    rw [Value.walkEntriesSync]
    split
    · exact .fail _
    · refine ((gives_walkSync v h.1.2).keep _).bind fun kept hkept =>
        (gives_walkEntriesSync rest h.2).bind fun es hes => .done ?_
      cases kept with
      | none => exact hes
      | some w => simp [membersHaveForm, h.1.1, hkept w rfl, hes]

end

end Json

end TagTemplate
