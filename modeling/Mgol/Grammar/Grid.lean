import Mgol.Grammar.Error
import Mgol.Text.Blank
import Mgol.Text.Split

/-! # Grids

Tables with a row for every state and a column for every symbol, and their form as text: a heading
and one line per state, with tabs between the cells.

* **`Grid.get?`, `Grid.put?`** — look-up and update; of two columns with one name the last counts.
* **`Grid.text`, `Grid.ofText`** — a grid as text, and back. -/

namespace Mgol

/-- **A table of states and symbols.** A blank cell holds nothing. -/
structure Grid (α : Type) where
  columns : List String
  rows : Array (Array (Option α))
  deriving DecidableEq, Repr

namespace Grid

variable {α : Type}

/-- A grid of blank cells. -/
def blank (columns : List String) (states : Nat) : Grid α :=
  ⟨columns, Array.replicate states (Array.replicate columns.length none)⟩

/-- How many rows there are. -/
def stateCount (g : Grid α) : Nat := g.rows.size

/-- The place of the last column with a name. -/
def columnIndex? (name : String) : List String → Option Nat
  | [] => none
  | c :: rest =>
    match columnIndex? name rest with
    | some i => some (i + 1)
    | none => if c = name then some 0 else none

/-- Whether there is a column with a name. -/
def hasColumn (g : Grid α) (name : String) : Bool := g.columns.contains name

/-- The cell of a state and a symbol, if the grid has one. -/
def cell? (g : Grid α) (state : Nat) (column : String) : Option (Option α) :=
  match columnIndex? column g.columns, g.rows[state]? with
  | some i, some row => row[i]?
  | _, _ => none

/-- **What stands in the cell** of a state and a symbol. -/
def get? (g : Grid α) (state : Nat) (column : String) : Option α :=
  (g.cell? state column).join

/-- **Fills the cell** of a state and a symbol, if the grid has one. -/
def put? (g : Grid α) (state : Nat) (column : String) (a : α) : Option (Grid α) :=
  match columnIndex? column g.columns, g.rows[state]? with
  | some i, some row =>
    if i < row.size then
      some { g with rows := g.rows.setIfInBounds state (row.setIfInBounds i (some a)) }
    else none
  | _, _ => none

/-- Fills every blank cell of a state. -/
def fillBlanks (g : Grid α) (state : Nat) (a : α) : Grid α :=
  { g with rows := g.rows.modify state fun row => row.map fun cell => some (cell.getD a) }

/-- The filled cells of a row under the given columns. -/
def rowEntries (state : Nat) : List String → List (Option α) → List (Nat × String × α)
  | column :: columns, some a :: cells => (state, column, a) :: rowEntries state columns cells
  | _ :: columns, none :: cells => rowEntries state columns cells
  | _, _ => []

/-- The filled cells of the rows from `state` on. -/
def entriesFrom (columns : List String) (state : Nat) :
    List (Array (Option α)) → List (Nat × String × α)
  | [] => []
  | row :: rest => rowEntries state columns row.toList ++ entriesFrom columns (state + 1) rest

/-- **The filled cells**, row by row. -/
def entries (g : Grid α) : List (Nat × String × α) := entriesFrom g.columns 0 g.rows.toList

/-! ## The form as text -/

/-- The name of the column of states. -/
def stateHeading : String := "STATE"

/-- The text of a row's cells, each after a tab. -/
def rowText (write : α → String) (row : Array (Option α)) : String :=
  row.foldl
    (fun text cell =>
      match cell with
      | some a => text ++ "\t" ++ write a
      | none => text ++ "\t") ""

/-- The lines of the rows from `state` on. -/
def rowLines (write : α → String) (state : Nat) : List (Array (Option α)) → List String
  | [] => []
  | row :: rest =>
    (toString state ++ rowText write row ++ "\n") :: rowLines write (state + 1) rest

/-- **The grid as text.** -/
def text (g : Grid α) (write : α → String) : String :=
  stateHeading ++ String.join (g.columns.map fun c => "\t" ++ c) ++ "\n"
    ++ String.join (rowLines write 0 g.rows.toList)

/-- The names in a heading, without that of the column of states. -/
def headingColumns (heading : List Char) : List String :=
  ((Text.splitOn '\t' heading).drop 1).map fun cell => String.ofList (Text.trim cell)

/-- The cells of a row with `n` columns. Missing cells are blank, and cells without a column must
be. -/
def readCells (read : String → Except CellFault α) :
    Nat → List (List Char) → Except TableFault (List (Option α))
  | n, [] => .ok (List.replicate n none)
  | n, cell :: rest =>
    let cell := Text.trim cell
    if cell.isEmpty then
      match readCells read (n - 1) rest with
      | .error e => .error e
      | .ok cells => .ok (if n = 0 then [] else none :: cells)
    else if n = 0 then .error .tooManyCells
    else
      match read (String.ofList cell) with
      | .error fault => .error (.badCell fault)
      | .ok a =>
        match readCells read (n - 1) rest with
        | .error e => .error e
        | .ok cells => .ok (some a :: cells)

/-- The row on a line, which must be that of state `expected`. -/
def readRow (read : String → Except CellFault α) (columns expected : Nat) (line : List Char) :
    Except TableFault (Array (Option α)) :=
  match Text.splitOn '\t' line with
  | [] => .error (.invalidState "")
  | stateCell :: cells =>
    let stateCell := Text.trim stateCell
    match Text.readBounded? Text.wordMax stateCell with
    | none => .error (.invalidState (String.ofList stateCell))
    | some state =>
      if state = expected then
        match readCells read columns cells with
        | .error e => .error e
        | .ok row => .ok row.toArray
      else .error (.wrongState expected state)

/-- The rows on numbered lines, put after those read already. -/
def readRows (origin : String) (read : String → Except CellFault α) (columns : Nat)
    (found : Array (Array (Option α))) :
    List (List Char × Nat) → Except GrammarError (Array (Array (Option α)))
  | [] => .ok found
  | (line, index) :: rest =>
    match readRow read columns found.size line with
    | .error fault => .error (.tableFormat origin (index + 1) fault)
    | .ok row => readRows origin read columns (found.push row) rest

/-- The lines of a text that are not blank, with their places. -/
def numberedLines (text : String) : List (List Char × Nat) :=
  (Text.lines text.toList).zipIdx.filter fun line => !Text.allBlank line.1

/-- **Reads a grid.** Blank lines are passed over, and cells may be padded. -/
def ofText (content origin : String) (read : String → Except CellFault α) :
    Except GrammarError (Grid α) :=
  match numberedLines content with
  | [] => .error (.tableFormat origin 1 .missingHeader)
  | (heading, _) :: rows =>
    let columns := headingColumns heading
    if columns.isEmpty then .error (.tableFormat origin 1 .noColumns)
    else
      match readRows origin read columns.length #[] rows with
      | .error e => .error e
      | .ok rows => .ok ⟨columns, rows⟩

end Grid

end Mgol
