import Mgol.Grammar.Grid
import Mgol.Grammar.Rule

/-! # Decision tables

What the parser looks up: a move for every state and terminal, and a state for every state and
nonterminal.

* **`ActionTable`, `GotoTable`** — the two tables.
* **`DecisionTables`, `DecisionTables.check`** — rules and tables that fit together. -/

namespace Mgol

/-- The terminal that stands for the end of the input. -/
def endMarker : GrammarSymbol := "$"

/-- **Moves by state and terminal.** A blank cell is no move at all. -/
abbrev ActionTable := Grid Action

namespace ActionTable

/-- The move in a state on a terminal. -/
def action (t : ActionTable) (state : Nat) (terminal : GrammarSymbol) : Option Action :=
  t.get? state terminal

/-- Whether the parser can go on in a state on a terminal. -/
def hasAction (t : ActionTable) (state : Nat) (terminal : GrammarSymbol) : Bool :=
  match t.action state terminal with
  | some a => a.isViable
  | none => false

/-- **Sets a move.** A cell that holds another one is a conflict. -/
def set (t : ActionTable) (state : Nat) (terminal : GrammarSymbol) (a : Action) :
    Except GrammarError ActionTable :=
  match t.cell? state terminal with
  | none => .error (.undefinedSymbol terminal .actions)
  | some (some existing) =>
    if existing = a then .ok t else .error (.conflict state terminal existing a)
  | some none =>
    match t.put? state terminal a with
    | some t => .ok t
    | none => .error (.undefinedSymbol terminal .actions)

/-- Reads an action table, which must have a column for the end of the input. -/
def ofText (content origin : String) : Except GrammarError ActionTable :=
  match Grid.ofText content origin Action.ofCell with
  | .error e => .error e
  | .ok grid =>
    if grid.hasColumn endMarker then .ok grid else .error (.undefinedSymbol endMarker .actions)

/-- An action table as text. -/
def text (t : ActionTable) : String := Grid.text t Action.cell

end ActionTable

/-- **States by state and nonterminal.** -/
abbrev GotoTable := Grid Nat

namespace GotoTable

/-- The state after a nonterminal. -/
def goto (t : GotoTable) (state : Nat) (nonterminal : GrammarSymbol) : Option Nat :=
  t.get? state nonterminal

/-- **Sets a target**, whatever the cell held. -/
def set (t : GotoTable) (state : Nat) (nonterminal : GrammarSymbol) (target : Nat) :
    Except GrammarError GotoTable :=
  match t.put? state nonterminal target with
  | some t => .ok t
  | none => .error (.undefinedSymbol nonterminal .gotos)

/-- The target in the text of a cell. -/
def readTarget (cell : String) : Except CellFault Nat :=
  match Text.readBounded? Text.wordMax cell.toList with
  | some n => .ok n
  | none => .error (.target cell)

/-- All targets, row by row. -/
def targets (t : GotoTable) : List Nat := t.entries.map fun e => e.2.2

/-- Reads a goto table. -/
def ofText (content origin : String) : Except GrammarError GotoTable :=
  Grid.ofText content origin readTarget

/-- A goto table as text. -/
def text (t : GotoTable) : String := Grid.text t toString

end GotoTable

/-- **Rules with their tables.** -/
structure DecisionTables where
  rules : RuleSet
  actions : ActionTable
  gotos : GotoTable
  deriving DecidableEq, Repr

namespace DecisionTables

/-- How many states there are. -/
def stateCount (t : DecisionTables) : Nat := t.actions.stateCount

/-- The move in a state on a terminal. -/
def action (t : DecisionTables) (state : Nat) (terminal : GrammarSymbol) : Option Action :=
  t.actions.action state terminal

/-- Whether the parser can go on in a state on a terminal. -/
def hasAction (t : DecisionTables) (state : Nat) (terminal : GrammarSymbol) : Bool :=
  t.actions.hasAction state terminal

/-- The state after a nonterminal. -/
def goto (t : DecisionTables) (state : Nat) (nonterminal : GrammarSymbol) : Option Nat :=
  t.gotos.goto state nonterminal

/-- The rule with a number. -/
def rule (t : DecisionTables) (number : Nat) : Except GrammarError Rule := t.rules.rule number

/-! ## Whether rules and tables fit together -/

/-- A difference in the numbers of rows. -/
def rowFault? (t : DecisionTables) : Option GrammarError :=
  if t.gotos.stateCount = t.stateCount then none
  else some (.tableFormat TableName.gotos.file 0 (.rowCounts t.gotos.stateCount t.stateCount))

/-- A terminal without a column. -/
def terminalFault? (t : DecisionTables) : Option GrammarError :=
  (t.rules.terminals.find? fun a => !t.actions.hasColumn a).map (.undefinedSymbol · .actions)

/-- A nonterminal without a column. -/
def nonterminalFault? (t : DecisionTables) : Option GrammarError :=
  (t.rules.nonterminals.find? fun a => !t.gotos.hasColumn a).map (.undefinedSymbol · .gotos)

/-- What is wrong with one move: a rule or a state that does not exist. -/
def cellFault? (t : DecisionTables) (entry : Nat × String × Action) : Option GrammarError :=
  match entry with
  | (_, _, .reduce rule) =>
    match t.rules.get? rule with
    | some _ => none
    | none => some (.unknownRule rule)
  | (state, terminal, .shift target) =>
    if target < t.stateCount then none
    else some (.tableFormat TableName.actions.file (state + 2) (.unknownShift terminal target))
  | _ => none

/-- The first move that is wrong. -/
def actionFault? (t : DecisionTables) : Option GrammarError :=
  t.actions.entries.findSome? t.cellFault?

/-- A target that does not exist. -/
def gotoFault? (t : DecisionTables) : Option GrammarError :=
  (t.gotos.targets.find? fun q => t.stateCount ≤ q).map fun q =>
    .tableFormat TableName.gotos.file 0 (.unknownGoto q)

/-- The first thing that does not fit. -/
def fault? (t : DecisionTables) : Option GrammarError :=
  t.rowFault? <|> t.terminalFault? <|> t.nonterminalFault? <|> t.actionFault? <|> t.gotoFault?

/-- **Lets tables through that fit together.** -/
def check (t : DecisionTables) : Except GrammarError DecisionTables :=
  match t.fault? with
  | some e => .error e
  | none => .ok t

end DecisionTables

end Mgol
