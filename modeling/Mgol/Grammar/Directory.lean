import Mgol.Disk.Basic
import Mgol.Grammar.RuleJson
import Mgol.Grammar.Tables
import Mgol.Source.Path

/-! # Table directories

Decision tables as three files in one directory: the rules and the two tables.

* **`DecisionTables.load`** — reads the files of a directory and checks that they fit together.
* **`DecisionTables.save`** — writes the files of a directory. -/

namespace Mgol.DecisionTables

/-- The text of a file in a table directory. -/
def readFile (d : Disk) (path : String) : Except GrammarError String :=
  match d.readText path with
  | .ok text => .ok text
  | .error e => .error (.io path e)

/-- Reads a file and what it holds. -/
def loadFile {α : Type} (d : Disk) (dir file : String)
    (read : String → String → Except GrammarError α) : Except GrammarError α :=
  match readFile d (joinPath dir file) with
  | .error e => .error e
  | .ok text => read text (joinPath dir file)

/-- **Reads the tables of a directory.** -/
def load (d : Disk) (dir : String) : Except GrammarError DecisionTables := do
  let rules ← loadFile d dir rulesFile RuleSet.ofJson
  let actions ← loadFile d dir TableName.actions.file ActionTable.ofText
  let gotos ← loadFile d dir TableName.gotos.file GotoTable.ofText
  check { rules, actions, gotos }

/-- The files of a table directory in the order of writing. -/
def filesOf (t : DecisionTables) : List (String × String) :=
  [(TableName.actions.file, ActionTable.text t.actions),
   (TableName.gotos.file, GotoTable.text t.gotos),
   (rulesFile, t.rules.json)]

/-- Writes files in a directory. Those before one that fails stay. -/
def saveFiles (d : Disk) (dir : String) : List (String × String) → Except GrammarError Unit × Disk
  | [] => (.ok (), d)
  | (file, text) :: rest =>
    match d.write (joinPath dir file) text.toUTF8 with
    | .error e => (.error (.io (joinPath dir file) e), d)
    | .ok d => saveFiles d dir rest

/-- **Writes the tables to a directory**, which is made if it is missing. -/
def save (t : DecisionTables) (d : Disk) (dir : String) : Except GrammarError Unit × Disk :=
  match d.createDirectories dir with
  | (.error e, d) => (.error (.io dir e), d)
  | (.ok (), d) => saveFiles d dir t.filesOf

end Mgol.DecisionTables
