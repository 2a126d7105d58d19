import Mgol.Proofs.Grammar.Grid

/-! # What the check of tables promises

The check reads a table cell by cell, the parser looks moves and states up by name. Whatever is
looked up stands in a cell that was read, so it names a rule or a state that exists.

* **`Grid.mem_entries_of_get?`** — what is looked up is listed.
* **`DecisionTables.check_eq_ok_iff`** — the check lets through what has no fault.
* **`DecisionTables.Fits`** — the moves and targets of tables exist.
* **`DecisionTables.fits_of_check`** — those of checked tables do. -/

namespace Mgol

namespace Grid

variable {α : Type}

/-- A filled cell under a column is listed with its row. -/
theorem mem_rowEntries {q i : Nat} {columns : List String} {cells : List (Option α)} {a : String}
    {x : α} (hcolumn : columns[i]? = some a) (hcell : cells[i]? = some (some x)) :
    (q, a, x) ∈ rowEntries q columns cells := by
  induction i generalizing columns cells with
  | zero =>
    obtain ⟨rest, rfl⟩ : ∃ rest, columns = a :: rest := by
      cases columns with
      | nil => cases hcolumn
      | cons c rest => exact ⟨rest, by rw [Option.some.inj hcolumn]⟩
    obtain ⟨more, rfl⟩ : ∃ more, cells = some x :: more := by
      cases cells with
      | nil => cases hcell
      | cons c more => exact ⟨more, by rw [Option.some.inj hcell]⟩
    exact List.mem_cons_self
  | succ i ih =>
    cases columns with
    | nil => cases hcolumn
    | cons c columns =>
      cases cells with
      | nil => cases hcell
      | cons cell cells =>
        have hrest := ih hcolumn hcell
        cases cell with
        | none => exact hrest
        | some y => exact List.mem_cons_of_mem _ hrest

/-- The cells of a row are listed with those of the rows around it. -/
theorem mem_entriesFrom {columns : List String} {q k : Nat} {rows : List (Array (Option α))}
    {row : Array (Option α)} {entry : Nat × String × α} (hrow : rows[k]? = some row)
    (hentry : entry ∈ rowEntries (q + k) columns row.toList) :
    entry ∈ entriesFrom columns q rows := by
  induction rows generalizing q k with
  | nil => cases hrow
  | cons first rows ih =>
    cases k with
    | zero =>
      obtain rfl := Option.some.inj hrow
      exact List.mem_append_left _ hentry
    | succ k =>
      refine List.mem_append_right _ (ih hrow ?_)
      rwa [Nat.add_assoc, Nat.add_comm 1]

/-- **What is looked up is listed.** -/
theorem mem_entries_of_get? {g : Grid α} {q : Nat} {a : String} {x : α}
    (h : g.get? q a = some x) : (q, a, x) ∈ g.entries := by
  unfold get? cell? at h
  split at h
  · next i row hindex hrow =>
    have hcell : row.toList[i]? = some (some x) := by
      rw [Array.getElem?_toList]
      exact Option.join_eq_some_iff.mp h
    have hlisted : (q, a, x) ∈ rowEntries (0 + q) g.columns row.toList := by
      rw [Nat.zero_add]
      exact mem_rowEntries (getElem?_of_columnIndex? hindex) hcell
    refine mem_entriesFrom ?_ hlisted
    rw [Array.getElem?_toList]
    exact hrow
  · cases h

end Grid

namespace DecisionTables

variable {t : DecisionTables}

/-- **The check lets through what has no fault**, as it is. -/
theorem check_eq_ok_iff {t' : DecisionTables} : t.check = .ok t' ↔ t.fault? = none ∧ t' = t := by
  unfold check
  cases t.fault? with
  | some e => simp
  | none => simp [eq_comm]

/-- **Tables whose moves and targets exist.** -/
structure Fits (t : DecisionTables) : Prop where
  shift_lt : ∀ q a target, t.action q a = some (.shift target) → target < t.stateCount
  exists_rule : ∀ q a n, t.action q a = some (.reduce n) → ∃ r, t.rule n = .ok r
  goto_lt : ∀ q a target, t.goto q a = some target → target < t.stateCount

/-- Without a fault no move and no target has one. -/
theorem cell_faults_of_fault? (h : t.fault? = none) :
    t.actionFault? = none ∧ t.gotoFault? = none := by
  unfold fault? at h
  simp only [Option.orElse_eq_orElse, Option.orElse_eq_or, Option.or_eq_none_iff] at h
  exact h.2.2.2

/-- **The moves and targets of checked tables exist.** -/
theorem fits_of_check (h : t.check = .ok t) : t.Fits := by
  obtain ⟨hactions, hgotos⟩ := cell_faults_of_fault? (check_eq_ok_iff.mp h).1
  rw [actionFault?, List.findSome?_eq_none_iff] at hactions
  rw [gotoFault?, Option.map_eq_none_iff, List.find?_eq_none] at hgotos
  refine ⟨?_, ?_, ?_⟩
  · intro q a target hshift
    have hcell := hactions _ (Grid.mem_entries_of_get? hshift)
    by_contra hge
    rw [cellFault?, if_neg hge] at hcell
    cases hcell
  · intro q a n hreduce
    have hcell := hactions _ (Grid.mem_entries_of_get? hreduce)
    unfold rule RuleSet.rule
    cases hrule : t.rules.get? n with
    | some r => exact ⟨r, rfl⟩
    | none =>
      simp only [cellFault?, hrule] at hcell
      cases hcell
  · intro q a target hgoto
    have hmem : target ∈ t.gotos.targets :=
      List.mem_map.mpr ⟨_, Grid.mem_entries_of_get? hgoto, rfl⟩
    simpa using hgotos target hmem

end DecisionTables

end Mgol
