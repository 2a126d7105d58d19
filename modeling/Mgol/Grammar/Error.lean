import Mgol.Disk.Error
import Mgol.Grammar.Action
import Mgol.Report.Code

/-! # Errors of grammars and tables

Everything that can be wrong with a rule set or a decision table. All of it is found before the
first token is read.

* **`RulesFault`, `TableFault`** — what is wrong with a rule set and with the text of a table.
* **`GrammarError`** — the errors, with their text and code. -/

namespace Mgol

/-- **What is wrong with a rule set.** -/
inductive RulesFault where
  | noRules
  | emptyLeft (rule : Nat)
  | duplicate (rule : Nat)
  | unreadable
  deriving DecidableEq, Repr

/-- The text of a rule set fault. -/
def RulesFault.message : RulesFault → String
  | noRules => "no rules"
  | emptyLeft rule => "rule " ++ toString rule ++ " has an empty left side"
  | duplicate rule => "rule " ++ toString rule ++ " is defined twice"
  | unreadable => "unreadable rules"

/-- **What is wrong with a table.** -/
inductive TableFault where
  | missingHeader
  | noColumns
  | invalidState (cell : String)
  | wrongState (expected found : Nat)
  | tooManyCells
  | badCell (fault : CellFault)
  | rowCounts (gotos actions : Nat)
  | unknownShift (terminal : String) (target : Nat)
  | unknownGoto (target : Nat)
  deriving DecidableEq, Repr

/-- The text of a table fault. -/
def TableFault.message : TableFault → String
  | missingHeader => "missing header row"
  | noColumns => "header has no columns"
  | invalidState cell => "invalid state number '" ++ cell ++ "'"
  | wrongState expected found =>
    "expected state " ++ toString expected ++ ", found " ++ toString found
  | tooManyCells => "more cells than columns"
  | badCell fault => fault.message
  | rowCounts gotos actions =>
    toString gotos ++ " goto rows for " ++ toString actions ++ " action rows"
  | unknownShift terminal target =>
    "shift on '" ++ terminal ++ "' to unknown state " ++ toString target
  | unknownGoto target => "goto to unknown state " ++ toString target

/-- The two decision tables. -/
inductive TableName where
  | actions
  | gotos
  deriving DecidableEq, Repr

/-- What a table is called. -/
def TableName.text : TableName → String
  | actions => "action table"
  | gotos => "goto table"

/-- The file of a table in a table directory. -/
def TableName.file : TableName → String
  | actions => "action_table.tsv"
  | gotos => "goto_table.tsv"

/-- The file of the rules in a table directory. -/
def rulesFile : String := "rules.json"

/-- **An error of a grammar or its tables.** -/
inductive GrammarError where
  | io (path : String) (failure : DiskError)
  | tableFormat (origin : String) (line : Nat) (fault : TableFault)
  | rulesFormat (origin : String) (fault : RulesFault)
  | unknownRule (rule : Nat)
  | conflict (state : Nat) (terminal : String) (existing incoming : Action)
  | undefinedSymbol (symbol : String) (table : TableName)
  deriving DecidableEq, Repr

namespace GrammarError

/-- The text of the error. -/
def message : GrammarError → String
  | io path failure => "Cannot access table file " ++ path ++ ": " ++ failure.message
  | tableFormat origin line fault => origin ++ ":" ++ toString line ++ ": " ++ fault.message
  | rulesFormat origin fault => "Invalid rule set in " ++ origin ++ ": " ++ fault.message
  | unknownRule rule => "Unknown grammar rule " ++ toString rule
  | conflict state terminal existing incoming =>
    "Conflict in state " ++ toString state ++ " on '" ++ terminal ++ "': " ++ existing.cell
      ++ " vs " ++ incoming.cell
  | undefinedSymbol symbol table => "Symbol '" ++ symbol ++ "' is missing from the " ++ table.text

/-- The code of the error. -/
def code : GrammarError → Code
  | io .. => .tableIoError
  | tableFormat .. => .tableFormatError
  | rulesFormat .. => .rulesFormatError
  | unknownRule _ => .unknownRule
  | conflict .. => .grammarConflict
  | undefinedSymbol .. => .undefinedSymbol

/-- The error in full detail. -/
def inspect : GrammarError → String
  | io path failure =>
    "Io \x7b path: " ++ Text.quote path ++ ", source: " ++ failure.inspect ++ " \x7d"
  | tableFormat origin line fault =>
    "TableFormat \x7b origin: " ++ Text.quote origin ++ ", line: " ++ toString line
      ++ ", message: " ++ Text.quote fault.message ++ " \x7d"
  | rulesFormat origin fault =>
    "RulesFormat \x7b origin: " ++ Text.quote origin ++ ", message: "
      ++ Text.quote fault.message ++ " \x7d"
  | unknownRule rule => "UnknownRule \x7b rule: " ++ toString rule ++ " \x7d"
  | conflict state terminal existing incoming =>
    "Conflict \x7b state: " ++ toString state ++ ", terminal: " ++ Text.quote terminal
      ++ ", existing: " ++ existing.inspect ++ ", incoming: " ++ incoming.inspect ++ " \x7d"
  | undefinedSymbol symbol table =>
    "UndefinedSymbol \x7b symbol: " ++ Text.quote symbol ++ ", table: "
      ++ Text.quote table.text ++ " \x7d"

end GrammarError

end Mgol
