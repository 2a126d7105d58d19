import Mathlib.Data.List.Basic
import Mgol.Grammar.Tables

/-! # What stands in a grid

The look-up after each operation on a grid, and what a row of updates leaves behind.

* **`Grid.get?_blank`, `Grid.get?_put?`, `Grid.get?_fillBlanks`** — the view of a grid by state and
  column.
* **`ActionTable.get?_set`, `ActionTable.get?_foldlM_set`** — moves that were set without a conflict
  are all there, and nothing else is new. -/

namespace Mgol

namespace Grid

variable {α : Type}

/-- A column stands where it is found. -/
theorem getElem?_of_columnIndex? {name : String} {columns : List String} {i : Nat}
    (h : columnIndex? name columns = some i) : columns[i]? = some name := by
  induction columns generalizing i with
  | nil => simp [columnIndex?] at h
  | cons c columns ih =>
    unfold columnIndex? at h
    cases hrest : columnIndex? name columns with
    | some j =>
      rw [hrest] at h
      obtain rfl := Option.some.inj h
      exact ih hrest
    | none =>
      simp only [hrest] at h
      split at h
      · next hc =>
        obtain rfl := Option.some.inj h
        simp [hc]
      · exact absurd h (by simp)

/-- A column that is found is one of the columns. -/
theorem mem_of_columnIndex? {name : String} {columns : List String} {i : Nat}
    (h : columnIndex? name columns = some i) : name ∈ columns :=
  List.mem_of_getElem? (getElem?_of_columnIndex? h)

/-- Different names stand in different places. -/
theorem columnIndex?_inj {a b : String} {columns : List String} {i : Nat}
    (ha : columnIndex? a columns = some i) (hb : columnIndex? b columns = some i) : a = b := by
  have h := getElem?_of_columnIndex? ha
  rw [getElem?_of_columnIndex? hb] at h
  exact (Option.some.inj h).symm

/-- A blank grid holds nothing. -/
@[simp] theorem get?_blank (columns : List String) (states q : Nat) (a : String) :
    (Grid.blank columns states : Grid α).get? q a = none := by
  unfold get? cell? blank
  cases columnIndex? a columns with
  | none => rfl
  | some i =>
    simp only [Array.getElem?_replicate]
    by_cases hq : q < states
    · by_cases hi : i < columns.length <;> simp [hq, hi]
    · simp [hq]

/-- **The look-up after an update.** -/
theorem get?_put? {g g' : Grid α} {q : Nat} {a : String} {x : α} (h : g.put? q a x = some g')
    (p : Nat) (b : String) :
    g'.get? p b = if p = q ∧ b = a then some x else g.get? p b := by
  unfold put? at h
  split at h
  · next i row hcol hrow =>
    split at h
    · next hi =>
      obtain rfl := Option.some.inj h
      obtain ⟨hq, hrow'⟩ := Array.getElem?_eq_some_iff.mp hrow
      unfold get? cell?
      simp only
      -- a cell is in its column and row, so another one differs in one of them
      cases hb : columnIndex? b g.columns with
      | none =>
        have hne : b ≠ a := by
          rintro rfl
          rw [hcol] at hb
          exact absurd hb (by simp)
        simp [hne]
      | some j =>
        by_cases hp : p = q
        · subst hp
          rw [Array.getElem?_setIfInBounds_self_of_lt hq]
          by_cases hji : j = i
          · subst hji
            have hba : b = a := columnIndex?_inj hb hcol
            simp [hba, Array.getElem?_setIfInBounds_self_of_lt hi]
          · have hne : b ≠ a := by
              rintro rfl
              rw [hcol] at hb
              exact hji (Option.some.inj hb).symm
            simp [hne, hrow, Array.getElem?_setIfInBounds_ne (Ne.symm hji)]
        · rw [Array.getElem?_setIfInBounds_ne (Ne.symm hp)]
          simp [hp]
    · exact absurd h (by simp)
  · exact absurd h (by simp)

/-- An update keeps the columns, and has found its own among them. -/
theorem columns_put? {g g' : Grid α} {q : Nat} {a : String} {x : α} (h : g.put? q a x = some g') :
    g'.columns = g.columns ∧ a ∈ g.columns := by
  unfold put? at h
  split at h
  · next i row hcol hrow =>
    split at h
    · obtain rfl := Option.some.inj h
      exact ⟨rfl, mem_of_columnIndex? hcol⟩
    · exact absurd h (by simp)
  · exact absurd h (by simp)

/-- What stands in a cell. -/
theorem get?_of_cell? {g : Grid α} {q : Nat} {a : String} {x : Option α}
    (h : g.cell? q a = some x) : g.get? q a = x := by
  simp [get?, h]

/-- **The look-up after the blanks of a state were filled.** -/
theorem cell?_fillBlanks (g : Grid α) (q p : Nat) (x : α) (a : String) :
    (g.fillBlanks q x).cell? p a =
      if p = q then (g.cell? p a).map fun c => some (c.getD x) else g.cell? p a := by
  unfold cell? fillBlanks
  simp only
  cases columnIndex? a g.columns with
  | none => simp
  | some i =>
    rw [Array.getElem?_modify]
    by_cases hp : p = q
    · subst hp
      cases g.rows[p]? with
      | none => simp
      | some row => simp
    · simp [hp, Ne.symm hp]

/-- Filling blanks leaves alone what stands there. -/
theorem get?_fillBlanks_of_some {g : Grid α} {q p : Nat} {x y : α} {a : String}
    (h : g.get? p a = some y) : (g.fillBlanks q x).get? p a = some y := by
  unfold get? at h ⊢
  rw [cell?_fillBlanks]
  cases hc : g.cell? p a with
  | none => simp [hc] at h
  | some c =>
    obtain rfl : c = some y := by simpa [hc] using h
    split <;> simp

/-- What stands in a grid whose blanks were filled stood there before or is the filling. -/
theorem get?_of_fillBlanks {g : Grid α} {q p : Nat} {x y : α} {a : String}
    (h : (g.fillBlanks q x).get? p a = some y) : g.get? p a = some y ∨ y = x := by
  unfold get? at h ⊢
  rw [cell?_fillBlanks] at h
  cases hc : g.cell? p a with
  | none => simp [hc] at h
  | some c =>
    rw [hc] at h
    cases c with
    | none =>
      split at h
      · exact .inr (by simpa using h.symm)
      · simp at h
    | some z => exact .inl (by split at h <;> simpa using h)

end Grid

namespace ActionTable

/-- **The look-up after a move was set**, and that there was no other move in its place. -/
theorem get?_set {t t' : ActionTable} {q : Nat} {a : GrammarSymbol} {x : Action}
    (h : t.set q a x = .ok t') :
    (∀ p b, t'.get? p b = if p = q ∧ b = a then some x else t.get? p b) ∧
      ∀ y, t.get? q a = some y → y = x := by
  unfold set at h
  split at h
  · exact absurd h (by simp)
  · next existing hcell =>
    split at h
    · next heq =>
      obtain rfl := Except.ok.inj h
      subst heq
      have hget := Grid.get?_of_cell? hcell
      refine ⟨fun p b => ?_, fun y hy => ?_⟩
      · split
        · next hpb =>
          obtain ⟨rfl, rfl⟩ := hpb
          exact hget
        · rfl
      · rw [hget] at hy
        exact (Option.some.inj hy).symm
    · exact absurd h (by simp)
  · next hcell =>
    split at h
    · next t'' hput =>
      obtain rfl := Except.ok.inj h
      -- the cell was blank, so nothing stood there
      refine ⟨fun p b => Grid.get?_put? hput p b, fun y hy => ?_⟩
      rw [Grid.get?_of_cell? hcell] at hy
      exact absurd hy (by simp)
    · exact absurd h (by simp)

/-- What stands in a table after a move was set. -/
theorem get?_set_iff {t t' : ActionTable} {q : Nat} {a : GrammarSymbol} {x : Action}
    (h : t.set q a x = .ok t') (p : Nat) (b : GrammarSymbol) (y : Action) :
    t'.get? p b = some y ↔ t.get? p b = some y ∨ p = q ∧ b = a ∧ y = x := by
  obtain ⟨hget, hold⟩ := get?_set h
  rw [hget p b]
  split
  · next hpb =>
    obtain ⟨rfl, rfl⟩ := hpb
    constructor
    · intro hx
      exact .inr ⟨rfl, rfl, (Option.some.inj hx).symm⟩
    · rintro (hy | ⟨_, _, rfl⟩)
      · rw [hold y hy]
      · rfl
  · next hpb =>
    constructor
    · exact .inl
    · rintro (hy | ⟨rfl, rfl, _⟩)
      · exact hy
      · exact absurd ⟨rfl, rfl⟩ hpb

/-- **What stands in a table after several moves of one state were set.** -/
theorem get?_foldlM_set {q : Nat} {moves : List (GrammarSymbol × Action)} {t t' : ActionTable}
    (h : moves.foldlM (fun t (move : GrammarSymbol × Action) => set t q move.1 move.2) t = .ok t')
    (p : Nat) (b : GrammarSymbol) (y : Action) :
    t'.get? p b = some y ↔ t.get? p b = some y ∨ p = q ∧ (b, y) ∈ moves := by
  induction moves generalizing t with
  | nil =>
    obtain rfl : t = t' := by simpa [pure, Except.pure] using h
    simp
  | cons move moves ih =>
    rw [List.foldlM_cons] at h
    cases hset : t.set q move.1 move.2 with
    | error e => simp [hset, bind, Except.bind] at h
    | ok t'' =>
      rw [ih (by simpa [hset, bind, Except.bind] using h), get?_set_iff hset, List.mem_cons,
        Prod.ext_iff]
      tauto

end ActionTable

end Mgol
