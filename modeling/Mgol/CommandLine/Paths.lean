import Mgol.CommandLine.Options
import Mgol.Disk.Basic
import Mgol.Grammar.Error
import Mgol.Settings.Preferences
import Mgol.Source.Path

/-! # Paths of a run

Which paths a run may follow, so that whoever provides its disk knows where to look.

* **`Options.paths`** — the paths that options and preferences name.
* **`Disk.namesAlong`** — the absolute names that a path passes.
* **`Disk.changesSince`** — what a run left different. -/

namespace Mgol

/-- The paths of the files in a table directory, and of the directory itself. -/
def tablePaths (dir : String) : List String :=
  [dir, joinPath dir rulesFile, joinPath dir TableName.actions.file,
   joinPath dir TableName.gotos.file]

/-- **The paths that a run may follow.** -/
def Options.paths (o : Options) (p : Preferences) : List String :=
  o.settingsFile.toList ++ o.input.toList ++ [o.output.getD p.output.defaultOutput]
    ++ p.logging.logFile.toList ++ o.tableDirectory.toList.flatMap tablePaths
    ++ o.exportDirectory.toList.flatMap tablePaths

namespace Disk

/-- The absolute names that the pieces of a path pass, from a directory. -/
def namesFrom (dir : List String) : List String → List (List String)
  | [] => []
  | piece :: rest =>
    if piece = "" ∨ piece = "." then namesFrom dir rest
    else if piece = ".." then namesFrom dir.dropLast rest
    else (dir ++ [piece]) :: namesFrom (dir ++ [piece]) rest

/-- **The absolute names that a path passes.** -/
def namesAlong (d : Disk) (path : String) : List (List String) :=
  namesFrom (d.base path) (path.splitOn "/")

/-- The absolute path of a name. -/
def pathOfName (name : List String) : String := "/" ++ "/".intercalate name

/-- **The entries that differ from those of an earlier disk.** -/
def changesSince (d earlier : Disk) : List (List String × DiskEntry) :=
  d.entries.filter fun e => !earlier.has e.1 e.2

end Disk

end Mgol
