import Mgol.Grammar.Tables
import Mgol.Proofs.Text.Decimal
import Mgol.Proofs.Text.Split

/-! # Tables read back

A grid is written as lines of cells and read again. What was written is what is read, as long as
there is a column: a heading without one is refused.

* **`Grid.Neat`** — names and cells that a line of a table keeps apart.
* **`Grid.text_eq`** — the lines of a grid.
* **`Grid.Storable`, `Grid.Writable`** — grids with a form as text.
* **`Grid.ofText_text`** — a grid with columns is read back.
* **`Grid.ofText_text_nil`** — a grid without columns is not.
* **`Action.legible`, `GotoTable.legible`** — moves and targets are read back. -/

namespace Mgol

/-- **A text that stands in a cell as it is**: no blank at its ends, no tab and no line feed. -/
structure Grid.Neat (s : String) : Prop where
  trimmed : Text.trim s.toList = s.toList
  no_tab : '\t' ∉ s.toList
  no_newline : '\n' ∉ s.toList

namespace Grid

variable {α : Type}

/-! ## The lines of a grid -/

/-- The characters of a cell. -/
def cellChars (write : α → String) : Option α → List Char
  | some a => (write a).toList
  | none => []

/-- A part and others, with a tab before each of them. -/
def tabbed (first : List Char) (cells : List (List Char)) : List Char :=
  first ++ cells.flatMap ('\t' :: ·)

/-- The heading of a grid. -/
def headingLine (g : Grid α) : List Char :=
  tabbed stateHeading.toList (g.columns.map String.toList)

/-- The lines of the rows from a state on. -/
def lineList (write : α → String) (state : Nat) : List (Array (Option α)) → List (List Char)
  | [] => []
  | row :: rest =>
    tabbed (Nat.toDigits 10 state) (row.toList.map (cellChars write)) ::
      lineList write (state + 1) rest

/-- The text of a row is that of its cells. -/
theorem toList_rowText (write : α → String) (row : Array (Option α)) :
    (rowText write row).toList = (row.toList.map (cellChars write)).flatMap ('\t' :: ·) := by
  have hfold : ∀ (cells : List (Option α)) (text : String),
      (cells.foldl (fun text cell =>
        match cell with
        | some a => text ++ "\t" ++ write a
        | none => text ++ "\t") text).toList =
        text.toList ++ (cells.map (cellChars write)).flatMap ('\t' :: ·) := by
    intro cells
    induction cells with
    | nil => simp
    | cons cell cells ih =>
      intro text
      rw [List.foldl_cons, ih]
      cases cell <;> simp [cellChars]
  rw [rowText, ← Array.foldl_toList]
  exact (hfold row.toList "").trans (by simp)

/-- The text of the rows is that of their lines. -/
theorem toList_rowLines (write : α → String) (state : Nat) (rows : List (Array (Option α))) :
    (String.join (rowLines write state rows)).toList =
      (lineList write state rows).flatMap (· ++ ['\n']) := by
  rw [String.toList_join]
  induction rows generalizing state with
  | nil => rfl
  | cons row rows ih =>
    rw [rowLines, lineList, List.flatMap_cons, List.flatMap_cons, ih]
    simp [tabbed, toList_rowText]

/-- **The text of a grid is its lines**, each with a line feed. -/
theorem text_eq (g : Grid α) (write : α → String) :
    (g.text write).toList =
      (g.headingLine :: lineList write 0 g.rows.toList).flatMap (· ++ ['\n']) := by
  rw [List.flatMap_cons, ← toList_rowLines]
  simp [text, headingLine, tabbed, String.toList_join, List.flatMap_map]

/-! ## Lines read back -/

/-- The parts of a line are found again. -/
theorem splitOn_tabbed {first : List Char} {cells : List (List Char)} (hfirst : '\t' ∉ first)
    (hcells : ∀ cell ∈ cells, '\t' ∉ cell) :
    Text.splitOn '\t' (tabbed first cells) = first :: cells :=
  Text.splitOn_parts hfirst hcells

/-- A line holds no line feed if its parts hold none. -/
theorem newline_notMem_tabbed {first : List Char} {cells : List (List Char)}
    (hfirst : '\n' ∉ first) (hcells : ∀ cell ∈ cells, '\n' ∉ cell) :
    '\n' ∉ tabbed first cells := by
  intro hmem
  rcases List.mem_append.mp hmem with hmem | hmem
  · exact hfirst hmem
  · obtain ⟨cell, hcell, hmem⟩ := List.mem_flatMap.mp hmem
    rcases List.mem_cons.mp hmem with htab | hmem
    · cases htab
    · exact hcells cell hcell hmem

/-- A line ends in no carriage return if its parts end in none. -/
theorem getLast?_tabbed {first : List Char} {cells : List (List Char)}
    (hfirst : first.getLast? ≠ some '\r') (hcells : ∀ cell ∈ cells, cell.getLast? ≠ some '\r') :
    (tabbed first cells).getLast? ≠ some '\r' := by
  induction cells generalizing first with
  | nil => simpa [tabbed] using hfirst
  | cons cell cells ih =>
    obtain ⟨hcell, hcells⟩ := List.forall_mem_cons.mp hcells
    have hline : tabbed first (cell :: cells) = tabbed (first ++ '\t' :: cell) cells := by
      simp [tabbed]
    rw [hline]
    refine ih ?_ hcells
    cases cell with
    | nil => simp
    | cons c rest => simpa using hcell

/-- A line whose first part begins with no blank is not blank. -/
theorem allBlank_tabbed {c : Char} (hc : Text.isBlank c = false) (rest : List Char)
    (cells : List (List Char)) : Text.allBlank (tabbed (c :: rest) cells) = false := by
  simp [tabbed, Text.allBlank, hc]

/-- A neat text ends in no carriage return. -/
theorem Neat.getLast? {s : String} (h : Neat s) : s.toList.getLast? ≠ some '\r' := by
  intro hlast
  cases Text.getLast?_of_trim h.trimmed '\r' hlast

/-- A digit is no blank. -/
theorem isBlank_of_isDigit {c : Char} (h : c.isDigit = true) : Text.isBlank c = false := by
  have hrange : 48 ≤ c.toNat ∧ c.toNat ≤ 57 := by
    simpa [Char.isDigit, UInt32.le_iff_toNat_le] using h
  simp only [Text.isBlank, Bool.or_eq_false_iff, Bool.and_eq_false_iff, decide_eq_false_iff_not,
    beq_eq_false_iff_ne]
  omega

/-- The digits of a number hold no blank. -/
theorem notMem_toDigits {c : Char} (h : Text.isBlank c = true) (n : Nat) :
    c ∉ Nat.toDigits 10 n := by
  intro hc
  rw [isBlank_of_isDigit (Text.isDigit_of_mem hc)] at h
  cases h

/-- **An item that a cell can hold**: its text is neat, is not that of a blank cell, and is read as
the item. -/
structure Legible (write : α → String) (read : String → Except CellFault α) (x : α) : Prop where
  neat : Neat (write x)
  filled : write x ≠ ""
  read_eq : read (write x) = .ok x

/-- **A grid that has a form as text**, with a property of all that stands in it: its names are
neat, and its rows have a cell for each column and a number that can be read. -/
structure Storable (P : α → Prop) (g : Grid α) : Prop where
  columns : ∀ c ∈ g.columns, Neat c
  width : ∀ row ∈ g.rows, row.size = g.columns.length
  cells : ∀ row ∈ g.rows, ∀ x, some x ∈ row → P x
  counted : g.rows.size ≤ Text.wordMax + 1

/-- Another property of all that stands in a grid. -/
theorem Storable.mono {P Q : α → Prop} {g : Grid α} (h : g.Storable P) (hPQ : ∀ x, P x → Q x) :
    g.Storable Q :=
  ⟨h.columns, h.width, fun row hrow x hx => hPQ x (h.cells row hrow x hx), h.counted⟩

/-- **A grid that can be written**: its cells are read as what was written. -/
abbrev Writable (write : α → String) (read : String → Except CellFault α) (g : Grid α) : Prop :=
  g.Storable (Legible write read)

variable {write : α → String} {read : String → Except CellFault α}

/-- The cells of a row are read back. -/
theorem readCells_eq {cells : List (Option α)}
    (h : ∀ x, some x ∈ cells → Legible write read x) :
    readCells read cells.length (cells.map (cellChars write)) = .ok cells := by
  induction cells with
  | nil => rfl
  | cons cell cells ih =>
    have hrest := ih fun x hx => h x (List.mem_cons_of_mem _ hx)
    rw [List.map_cons, List.length_cons, readCells]
    cases cell with
    | none => simp [cellChars, Text.trim, Text.trimRight, hrest]
    | some x =>
      have hx := h x List.mem_cons_self
      simp [cellChars, hx.neat.trimmed, hx.filled, hx.read_eq, hrest]

/-- A cell of a row holds no character that its text holds not. -/
theorem notMem_cellChars {c : Char} {cells : List (Option α)}
    (h : ∀ x, some x ∈ cells → c ∉ (write x).toList) :
    ∀ cell ∈ cells.map (cellChars write), c ∉ cell := by
  intro cell hcell
  obtain ⟨x, hx, rfl⟩ := List.mem_map.mp hcell
  cases x with
  | none => exact List.not_mem_nil
  | some x => exact h x hx

/-- **A row is read back.** -/
theorem readRow_eq {state : Nat} (hstate : state ≤ Text.wordMax) {row : Array (Option α)}
    (h : ∀ x, some x ∈ row → Legible write read x) :
    readRow read row.size state
      (tabbed (Nat.toDigits 10 state) (row.toList.map (cellChars write))) = .ok row := by
  have hcells : ∀ x, some x ∈ row.toList → Legible write read x :=
    fun x hx => h x (Array.mem_toList_iff.mp hx)
  have hsplit := splitOn_tabbed (notMem_toDigits (c := '\t') rfl state)
    (notMem_cellChars fun x hx => (hcells x hx).neat.no_tab)
  have htrim : Text.trim (Nat.toDigits 10 state) = Nat.toDigits 10 state :=
    Text.trim_of_forall fun c hc => isBlank_of_isDigit (Text.isDigit_of_mem hc)
  have hread := readCells_eq hcells
  rw [Array.length_toList] at hread
  simp only [readRow, hsplit, htrim, Text.readBounded?_toDigits hstate, if_true, hread,
    Array.toArray_toList]

/-- **The rows of a grid are read back**, whatever their lines are numbered. -/
theorem readRows_eq {columns : Nat} (origin : String) {rows : List (Array (Option α))}
    (hwidth : ∀ row ∈ rows, row.size = columns)
    (hcells : ∀ row ∈ rows, ∀ x, some x ∈ row → Legible write read x)
    (found : Array (Array (Option α))) (hcount : found.size + rows.length ≤ Text.wordMax + 1)
    (place : Nat) :
    readRows origin read columns found ((lineList write found.size rows).zipIdx place) =
      .ok (found ++ rows.toArray) := by
  induction rows generalizing found place with
  | nil => simp [lineList, readRows]
  | cons row rows ih =>
    obtain ⟨hrow, hwidth⟩ := List.forall_mem_cons.mp hwidth
    obtain ⟨hcell, hcells⟩ := List.forall_mem_cons.mp hcells
    rw [List.length_cons] at hcount
    have hstate : found.size ≤ Text.wordMax := by omega
    have hline := readRow_eq hstate hcell
    rw [hrow] at hline
    have hrest := ih hwidth hcells (found.push row) (by rw [Array.size_push]; omega) (place + 1)
    rw [Array.size_push] at hrest
    rw [lineList, List.zipIdx_cons, readRows, hline]
    simp only [hrest]
    simp

/-- A cell that can be written holds no line feed and ends in no carriage return. -/
theorem cellChars_clean {cells : List (Option α)} (h : ∀ x, some x ∈ cells → Neat (write x)) :
    ∀ cell ∈ cells.map (cellChars write), '\n' ∉ cell ∧ cell.getLast? ≠ some '\r' := by
  intro cell hcell
  obtain ⟨x, hx, rfl⟩ := List.mem_map.mp hcell
  cases x with
  | none => simp [cellChars]
  | some x => exact ⟨(h x hx).no_newline, (h x hx).getLast?⟩

/-- **What a line must be to be found again**: it holds no line feed, ends in no carriage return,
and is not blank. -/
structure LineLike (l : List Char) : Prop where
  no_newline : '\n' ∉ l
  no_return : l.getLast? ≠ some '\r'
  not_blank : Text.allBlank l = false

/-- A first part that is not blank and parts that can be written make a line. -/
theorem lineLike_tabbed {c : Char} {rest : List Char} {cells : List (List Char)}
    (hc : Text.isBlank c = false) (hfirst : '\n' ∉ c :: rest)
    (hlast : (c :: rest).getLast? ≠ some '\r')
    (hcells : ∀ cell ∈ cells, '\n' ∉ cell ∧ cell.getLast? ≠ some '\r') :
    LineLike (tabbed (c :: rest) cells) where
  no_newline := newline_notMem_tabbed hfirst fun cell h => (hcells cell h).1
  no_return := getLast?_tabbed hlast fun cell h => (hcells cell h).2
  not_blank := allBlank_tabbed hc rest cells

/-- The lines of rows that can be written. -/
theorem lineLike_lineList {rows : List (Array (Option α))}
    (h : ∀ row ∈ rows, ∀ x, some x ∈ row → Neat (write x)) (state : Nat) :
    ∀ l ∈ lineList write state rows, LineLike l := by
  induction rows generalizing state with
  | nil => intro l hl; cases hl
  | cons row rows ih =>
    obtain ⟨hrow, hrows⟩ := List.forall_mem_cons.mp h
    obtain ⟨c, cs, hdigits, hc, -⟩ := Text.head_toDigits state
    have hlast : (Nat.toDigits 10 state).getLast? ≠ some '\r' := fun hlast =>
      notMem_toDigits (c := '\r') rfl state (List.mem_of_getLast? hlast)
    have hline : LineLike (tabbed (Nat.toDigits 10 state) (row.toList.map (cellChars write))) := by
      have hnewline := notMem_toDigits (c := '\n') rfl state
      rw [hdigits] at hnewline hlast ⊢
      exact lineLike_tabbed (isBlank_of_isDigit hc) hnewline hlast
        (cellChars_clean fun x hx => hrow x (Array.mem_toList_iff.mp hx))
    rw [lineList]
    exact List.forall_mem_cons.mpr ⟨hline, ih hrows (state + 1)⟩

/-- The heading of a grid whose columns can be written. -/
theorem lineLike_headingLine {g : Grid α} (h : ∀ c ∈ g.columns, Neat c) :
    LineLike g.headingLine := by
  have hstate : stateHeading.toList = 'S' :: ['T', 'A', 'T', 'E'] := by decide
  rw [headingLine, hstate]
  refine lineLike_tabbed (by decide) (by decide) (by decide) fun cell hcell => ?_
  obtain ⟨name, hname, rfl⟩ := List.mem_map.mp hcell
  exact ⟨(h name hname).no_newline, (h name hname).getLast?⟩

/-- The columns of a grid are found in its heading. -/
theorem headingColumns_eq {g : Grid α} (h : ∀ c ∈ g.columns, Neat c) :
    headingColumns g.headingLine = g.columns := by
  have hsplit : Text.splitOn '\t' g.headingLine =
      stateHeading.toList :: g.columns.map String.toList := by
    refine splitOn_tabbed (by decide) fun cell hcell => ?_
    obtain ⟨name, hname, rfl⟩ := List.mem_map.mp hcell
    exact (h name hname).no_tab
  rw [headingColumns, hsplit, List.drop_one, List.tail_cons, List.map_map]
  refine (List.map_congr_left fun name hname => ?_).trans (List.map_id g.columns)
  simp [(h name hname).trimmed]

/-- **The lines of a grid are found in its text**, one after the other. -/
theorem numberedLines_text {g : Grid α} (h : g.Writable write read) :
    numberedLines (g.text write) =
      (g.headingLine, 0) :: (lineList write 0 g.rows.toList).zipIdx 1 := by
  have hlines : ∀ l ∈ g.headingLine :: lineList write 0 g.rows.toList, LineLike l :=
    List.forall_mem_cons.mpr ⟨lineLike_headingLine h.columns,
      lineLike_lineList (fun row hrow x hx =>
        (h.cells row (Array.mem_toList_iff.mp hrow) x hx).neat) 0⟩
  rw [numberedLines, text_eq, Text.lines_of_ended (fun l hl => (hlines l hl).no_newline)
    fun l hl => (hlines l hl).no_return, ← List.zipIdx_cons, List.filter_eq_self]
  intro line hline
  have hmem := List.fst_mem_of_mem_zipIdx hline
  rw [(hlines line.1 hmem).not_blank]
  rfl

/-- **A grid with columns is read back.** -/
theorem ofText_text {g : Grid α} (h : g.Writable write read) (hcolumns : g.columns ≠ [])
    (origin : String) : ofText (g.text write) origin read = .ok g := by
  have hrows := readRows_eq origin (fun row hrow => h.width row (Array.mem_toList_iff.mp hrow))
    (fun row hrow => h.cells row (Array.mem_toList_iff.mp hrow)) #[]
    (by simpa using h.counted) 1
  have hsome : g.columns.isEmpty = false := by simpa using hcolumns
  rw [ofText, numberedLines_text h]
  simp only [headingColumns_eq h.columns, hsome, Bool.false_eq_true, if_false]
  simp only [Array.size_empty] at hrows
  rw [hrows]
  simp

/-- **A grid without columns is refused**, whatever its rows are. -/
theorem ofText_text_nil {g : Grid α} (h : g.Writable write read) (hcolumns : g.columns = [])
    (origin : String) :
    ofText (g.text write) origin read = .error (.tableFormat origin 1 .noColumns) := by
  rw [ofText, numberedLines_text h]
  simp only [headingColumns_eq h.columns, hcolumns, List.isEmpty_nil, if_true]

end Grid

/-! ## Cells read back -/

/-- **A move that can be written**: its number is one that a cell can hold. -/
def Action.Bounded : Action → Prop
  | shift state => state ≤ Text.wordMax
  | reduce rule => rule ≤ Text.wordMax
  | accept => True
  | error slot => slot ≤ Text.slotMax

/-- A word of characters that are no blanks is neat. -/
theorem Grid.neat_of_forall {s : String} (h : ∀ c ∈ s.toList, Text.isBlank c = false) :
    Grid.Neat s where
  trimmed := Text.trim_of_forall h
  no_tab hmem := by cases h _ hmem
  no_newline hmem := by cases h _ hmem

/-- A letter and the digits of a number are neat. -/
theorem Grid.neat_of_digits {s : String} {letter : Char} {n : Nat}
    (hs : s.toList = letter :: Nat.toDigits 10 n) (hletter : Text.isBlank letter = false) :
    Grid.Neat s := by
  refine Grid.neat_of_forall fun c hc => ?_
  rw [hs] at hc
  rcases List.mem_cons.mp hc with rfl | hc
  · exact hletter
  · exact Grid.isBlank_of_isDigit (Text.isDigit_of_mem hc)

/-- The letters and digits of a move. -/
theorem Action.toList_cell (n : Nat) :
    (shift n).cell.toList = 's' :: Nat.toDigits 10 n ∧
      (reduce n).cell.toList = 'r' :: Nat.toDigits 10 n ∧
      (error n).cell.toList = 'e' :: Nat.toDigits 10 n := by
  simp [cell]

/-- The cell of a move is neat. -/
theorem Action.neat_cell (a : Action) : Grid.Neat a.cell := by
  cases a with
  | shift n => exact Grid.neat_of_digits (toList_cell n).1 (by decide)
  | reduce n => exact Grid.neat_of_digits (toList_cell n).2.1 (by decide)
  | accept => exact Grid.neat_of_forall (by simp [cell, Text.isBlank])
  | error n => exact Grid.neat_of_digits (toList_cell n).2.2 (by decide)

/-- A cell with another first letter is not that of acceptance. -/
theorem Action.ne_acc {s : String} {letter : Char} {rest : List Char}
    (hs : s.toList = letter :: rest) (hletter : letter ≠ 'a') : s ≠ "acc" := by
  rintro rfl
  exact hletter (List.cons.inj hs).1.symm

/-- **A move is read back.** -/
theorem Action.ofCell_cell {a : Action} (h : a.Bounded) : ofCell a.cell = .ok a := by
  cases a with
  | shift n =>
    have hchars := (toList_cell n).1
    simp only [ofCell, if_neg (ne_acc hchars (by decide)), hchars, Text.readBounded?_toDigits h]
  | reduce n =>
    have hchars := (toList_cell n).2.1
    simp only [ofCell, if_neg (ne_acc hchars (by decide)), hchars, Text.readBounded?_toDigits h]
  | accept => rfl
  | error n =>
    have hchars := (toList_cell n).2.2
    simp only [ofCell, if_neg (ne_acc hchars (by decide)), hchars, Text.readBounded?_toDigits h]

/-- **A move with a number in bounds can be written.** -/
theorem Action.legible {a : Action} (h : a.Bounded) : Grid.Legible cell ofCell a where
  neat := a.neat_cell
  filled hempty := by
    -- the empty text is no cell at all
    have hread := ofCell_cell h
    rw [hempty] at hread
    cases hread
  read_eq := ofCell_cell h

/-- **A target in bounds can be written.** -/
theorem GotoTable.legible {n : Nat} (h : n ≤ Text.wordMax) :
    Grid.Legible toString readTarget n := by
  have hchars : (toString n).toList = Nat.toDigits 10 n := by simp
  have hread : readTarget (toString n) = .ok n := by
    rw [readTarget, hchars, Text.readBounded?_toDigits h]
  refine ⟨Grid.neat_of_forall fun c hc => ?_, fun hempty => ?_, hread⟩
  · rw [hchars] at hc
    exact Grid.isBlank_of_isDigit (Text.isDigit_of_mem hc)
  · rw [hempty] at hread
    cases hread

end Mgol
