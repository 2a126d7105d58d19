import Mgol.Proofs.Grammar.TableText

/-! # Tables that were read

A reader of tables is tolerant: lines may be blank or end in a carriage return, cells may be padded,
missing or left over, and numbers may have a sign. Whatever it lets through is a table that can be
written, so that writing and reading it once more changes nothing.

* **`Grid.storable_of_ofText`** — a grid that was read has a form as text.
* **`ActionTable.ofText_text`, `GotoTable.ofText_text`** — moves and targets are read back.
* **`tables_round_trip`** — tables that have a form as text are read back, and there are no others
  to be read. -/

namespace Mgol

namespace Grid

variable {α : Type} {read : String → Except CellFault α} {P : α → Prop}

/-! ## What a heading and a row can be -/

/-- **The names in a heading are neat.** -/
theorem neat_of_mem_headingColumns {heading : List Char} (h : '\n' ∉ heading) {c : String}
    (hc : c ∈ headingColumns heading) : Neat c := by
  obtain ⟨cell, hcell, rfl⟩ := List.mem_map.mp hc
  have hpart := List.mem_of_mem_drop hcell
  refine ⟨?_, ?_, ?_⟩ <;> simp only [String.toList_ofList]
  · exact Text.trim_trim cell
  · exact fun hmem => Text.notMem_of_mem_splitOn hpart (Text.mem_of_mem_trim hmem)
  · exact fun hmem => h (Text.mem_of_mem_splitOn hpart (Text.mem_of_mem_trim hmem))

/-- The cells of a row are as many as there are columns, and are what was read. -/
theorem of_readCells (hread : ∀ cell x, read cell = .ok x → P x) {n : Nat}
    {cells : List (List Char)} {row : List (Option α)} (h : readCells read n cells = .ok row) :
    row.length = n ∧ ∀ x, some x ∈ row → P x := by
  induction cells generalizing n row with
  | nil =>
    obtain rfl := Except.ok.inj h
    exact ⟨List.length_replicate, fun x hx => absurd (List.eq_of_mem_replicate hx) (by simp)⟩
  | cons cell cells ih =>
    rw [readCells] at h
    split at h
    · -- a blank cell, which may be one too many
      split at h
      · cases h
      · next rest hrest =>
        obtain ⟨hlength, hitems⟩ := ih hrest
        obtain rfl := Except.ok.inj h
        split
        · next hzero => exact ⟨hzero.symm, fun x hx => absurd hx List.not_mem_nil⟩
        · next hsome =>
          refine ⟨?_, fun x hx => ?_⟩
          · rw [List.length_cons, hlength]
            omega
          · rcases List.mem_cons.mp hx with hx | hx
            · cases hx
            · exact hitems x hx
    · split at h
      · cases h
      · next hsome =>
        split at h
        · cases h
        · next a ha =>
          split at h
          · cases h
          · next rest hrest =>
            obtain ⟨hlength, hitems⟩ := ih hrest
            obtain rfl := Except.ok.inj h
            refine ⟨?_, fun x hx => ?_⟩
            · rw [List.length_cons, hlength]
              omega
            · rcases List.mem_cons.mp hx with hx | hx
              · obtain rfl := Option.some.inj hx
                exact hread _ _ ha
              · exact hitems x hx

/-- **A row that was read** has a cell for each column, holds what was read, and is that of a state
whose number can be read. -/
theorem of_readRow (hread : ∀ cell x, read cell = .ok x → P x) {columns expected : Nat}
    {line : List Char} {row : Array (Option α)}
    (h : readRow read columns expected line = .ok row) :
    row.size = columns ∧ (∀ x, some x ∈ row → P x) ∧ expected ≤ Text.wordMax := by
  unfold readRow at h
  split at h
  · cases h
  · dsimp only at h
    split at h
    · cases h
    · next state hstate =>
      split at h
      · next heq =>
        subst heq
        split at h
        · cases h
        · next cells hcells =>
          obtain ⟨hlength, hitems⟩ := of_readCells hread hcells
          obtain rfl := Except.ok.inj h
          refine ⟨by simpa using hlength, fun x hx => hitems x (by simpa using hx), ?_⟩
          exact Text.le_of_readBounded? hstate
      · cases h

/-! ## What a text can be -/

/-- One more row that was read leaves a grid with a form as text. -/
theorem Storable.push (hread : ∀ cell x, read cell = .ok x → P x) {columns : List String}
    {found : Array (Array (Option α))} (h : Storable P ⟨columns, found⟩) {line : List Char}
    {row : Array (Option α)} (hrow : readRow read columns.length found.size line = .ok row) :
    Storable P ⟨columns, found.push row⟩ := by
  obtain ⟨hsize, hitems, hstate⟩ := of_readRow hread hrow
  refine ⟨h.columns, fun row' hrow' => ?_, fun row' hrow' => ?_, ?_⟩
  · rcases Array.mem_push.mp hrow' with hold | rfl
    · exact h.width row' hold
    · exact hsize
  · rcases Array.mem_push.mp hrow' with hold | rfl
    · exact h.cells row' hold
    · exact hitems
  · show (found.push row).size ≤ Text.wordMax + 1
    rw [Array.size_push]
    exact Nat.succ_le_succ hstate

/-- All rows that were read leave a grid with a form as text. -/
theorem Storable.readRows (hread : ∀ cell x, read cell = .ok x → P x) {columns : List String}
    {origin : String} {lines : List (List Char × Nat)} {found rows : Array (Array (Option α))}
    (h : Storable P ⟨columns, found⟩)
    (hrows : readRows origin read columns.length found lines = .ok rows) :
    Storable P ⟨columns, rows⟩ := by
  induction lines generalizing found with
  | nil =>
    obtain rfl := Except.ok.inj hrows
    exact h
  | cons line lines ih =>
    rw [Grid.readRows] at hrows
    split at hrows
    · cases hrows
    · next row hrow => exact ih (h.push hread hrow) hrows

/-- **A grid that was read has a form as text**, and at least one column. -/
theorem storable_of_ofText (hread : ∀ cell x, read cell = .ok x → P x) {content origin : String}
    {g : Grid α} (h : ofText content origin read = .ok g) : g.Storable P ∧ g.columns ≠ [] := by
  unfold ofText at h
  split at h
  · cases h
  · next heading index lines hlines =>
    have hheading : heading ∈ Text.lines content.toList := by
      have hmem : (heading, index) ∈ numberedLines content := hlines ▸ List.mem_cons_self
      exact List.fst_mem_of_mem_zipIdx (List.mem_filter.mp hmem).1
    dsimp only at h
    split at h
    · cases h
    · next hcolumns =>
      split at h
      · cases h
      · next rows hrows =>
        obtain rfl := Except.ok.inj h
        -- before the first row there is nothing but the heading
        have hempty : Storable P ⟨headingColumns heading, #[]⟩ :=
          ⟨fun c => neat_of_mem_headingColumns (Text.newline_notMem_of_mem_lines hheading),
            fun row hrow => absurd hrow (by simp), fun row hrow => absurd hrow (by simp),
            Nat.zero_le _⟩
        exact ⟨hempty.readRows hread hrows, by simpa using hcolumns⟩

end Grid

/-! ## Moves and targets -/

/-- A move that was read has a number that a cell can hold. -/
theorem Action.bounded_of_ofCell {cell : String} {a : Action} (h : ofCell cell = .ok a) :
    a.Bounded := by
  unfold ofCell at h
  split at h
  · obtain rfl := Except.ok.inj h
    exact trivial
  · split at h
    · split at h
      · next hread =>
        obtain rfl := Except.ok.inj h
        exact Text.le_of_readBounded? hread
      · cases h
    · split at h
      · next hread =>
        obtain rfl := Except.ok.inj h
        exact Text.le_of_readBounded? hread
      · cases h
    · split at h
      · next hread =>
        obtain rfl := Except.ok.inj h
        exact Text.le_of_readBounded? hread
      · cases h
    · cases h

/-- A target that was read is one that a cell can hold. -/
theorem GotoTable.le_of_readTarget {cell : String} {n : Nat} (h : readTarget cell = .ok n) :
    n ≤ Text.wordMax := by
  unfold readTarget at h
  split at h
  · next hread =>
    obtain rfl := Except.ok.inj h
    exact Text.le_of_readBounded? hread
  · cases h

/-- **An action table with a column for the end of the input is read back.** -/
theorem ActionTable.ofText_text {t : ActionTable} (h : t.Storable Action.Bounded)
    (hend : endMarker ∈ t.columns) (origin : String) : ofText t.text origin = .ok t := by
  have hgrid := Grid.ofText_text (h.mono fun _ => Action.legible) (List.ne_nil_of_mem hend) origin
  have hcolumn : t.hasColumn endMarker = true := by simpa [Grid.hasColumn] using hend
  simp only [ofText, text, hgrid, hcolumn, if_true]

/-- An action table that was read has a form as text, and a column for the end of the input. -/
theorem ActionTable.storable_of_ofText {content origin : String} {t : ActionTable}
    (h : ofText content origin = .ok t) : t.Storable Action.Bounded ∧ endMarker ∈ t.columns := by
  unfold ofText at h
  split at h
  · cases h
  · next grid hgrid =>
    split at h
    · next hend =>
      obtain rfl := Except.ok.inj h
      exact ⟨(Grid.storable_of_ofText (fun _ _ => Action.bounded_of_ofCell) hgrid).1,
        by simpa [Grid.hasColumn] using hend⟩
    · cases h

/-- **A goto table with a column is read back.** -/
theorem GotoTable.ofText_text {t : GotoTable} (h : t.Storable (· ≤ Text.wordMax))
    (hcolumns : t.columns ≠ []) (origin : String) : ofText t.text origin = .ok t :=
  Grid.ofText_text (h.mono fun _ => legible) hcolumns origin

/-- A goto table that was read has a form as text, and a column. -/
theorem GotoTable.storable_of_ofText {content origin : String} {t : GotoTable}
    (h : ofText content origin = .ok t) : t.Storable (· ≤ Text.wordMax) ∧ t.columns ≠ [] :=
  Grid.storable_of_ofText (fun _ _ => le_of_readTarget) h

/-- **Tables make the round trip.** A table whose names are neat, whose rows have a cell for each
column and whose numbers are within bounds is read back as it is from what is written of it: an
action table if it has a column for the end of the input, and a goto table if it has any column. A
table that was read, from whatever text, is such a table: written and read once more it is the
same. -/
theorem tables_round_trip :
    (∀ t : ActionTable, t.Storable Action.Bounded → endMarker ∈ t.columns →
      ∀ origin, ActionTable.ofText t.text origin = .ok t) ∧
    (∀ t : GotoTable, t.Storable (· ≤ Text.wordMax) → t.columns ≠ [] →
      ∀ origin, GotoTable.ofText t.text origin = .ok t) ∧
    (∀ content origin t, ActionTable.ofText content origin = .ok t →
      (t.Storable Action.Bounded ∧ endMarker ∈ t.columns) ∧
        ∀ origin, ActionTable.ofText (ActionTable.text t) origin = .ok t) ∧
    ∀ content origin t, GotoTable.ofText content origin = .ok t →
      (t.Storable (· ≤ Text.wordMax) ∧ t.columns ≠ []) ∧
        ∀ origin, GotoTable.ofText (GotoTable.text t) origin = .ok t := by
  refine ⟨fun t => ActionTable.ofText_text, fun t => GotoTable.ofText_text, ?_, ?_⟩
  · intro content origin t hread
    have hstored := ActionTable.storable_of_ofText hread
    exact ⟨hstored, ActionTable.ofText_text hstored.1 hstored.2⟩
  · intro content origin t hread
    have hstored := GotoTable.storable_of_ofText hread
    exact ⟨hstored, GotoTable.ofText_text hstored.1 hstored.2⟩

/-- A text of moves with carriage returns, a blank line, padded cells, a short row, a cell too many
and numbers with a sign is read as a table that makes the round trip, and so is one of targets. -/
theorem tables_round_trip_padded :
    (∃ t : ActionTable, ActionTable.ofText
        "STATE\t$ \t id\r\n \t\r\n0\tacc\r\n +1\te2\t s+1 \t\n" "padded" = .ok t ∧
      t = ⟨["$", "id"], #[#[some .accept, none], #[some (.error 2), some (.shift 1)]]⟩ ∧
      t.Storable Action.Bounded ∧ ActionTable.ofText t.text "written" = .ok t) ∧
    ∃ t : GotoTable, GotoTable.ofText "\tP\r\n0\t +1\n1" "padded" = .ok t ∧
      t = ⟨["P"], #[#[some 1], #[none]]⟩ ∧
      t.Storable (· ≤ Text.wordMax) ∧ GotoTable.ofText t.text "written" = .ok t := by
  obtain ⟨hmoves, htargets, hmovesRead, htargetsRead⟩ := tables_round_trip
  have hread : ActionTable.ofText
      "STATE\t$ \t id\r\n \t\r\n0\tacc\r\n +1\te2\t s+1 \t\n" "padded" = .ok
        ⟨["$", "id"], #[#[some .accept, none], #[some (.error 2), some (.shift 1)]]⟩ := by
    rfl
  have hreadTargets : GotoTable.ofText "\tP\r\n0\t +1\n1" "padded" =
      .ok ⟨["P"], #[#[some 1], #[none]]⟩ := by
    rfl
  have hstored := (hmovesRead _ _ _ hread).1
  have hstoredTargets := (htargetsRead _ _ _ hreadTargets).1
  exact ⟨⟨_, hread, rfl, hstored.1, hmoves _ hstored.1 hstored.2 "written"⟩,
    ⟨_, hreadTargets, rfl, hstoredTargets.1,
      htargets _ hstoredTargets.1 hstoredTargets.2 "written"⟩⟩

end Mgol
