import Mgol.Compiler.Basic

/-! # Writing programs

* **`Compilation.deliver`** — hands the program to anything that takes bytes.
* **`Compilation.writeFile`** — writes the program to a file. -/

namespace Mgol.Compilation

/-- **Hands the program to a sink**, which takes it whole or fails. -/
def deliver {α : Type} (c : Compilation) (target : String)
    (sink : ByteArray → Except DiskError α) : Except OutputError α :=
  match c.program with
  | none => .error .nothingToWrite
  | some program =>
    match sink program.toUTF8 with
    | .ok a => .ok a
    | .error e => .error (.failed target e)

/-- What the journal says of a program that was to be written. -/
def writtenNotes (c : Compilation) (path : String) : Except OutputError Disk → List Note
  | .ok _ => [.outputWritten path (c.program.getD "").utf8ByteSize]
  | .error (.failed target failure) => [.outputFailed (OutputError.failed target failure).code path]
  | .error .nothingToWrite => []

/-- **Writes the program to a file**, whatever it held before. -/
def writeFile (c : Compilation) (d : Disk) (path : String) (j : Journal) :
    Except OutputError Disk × Journal :=
  let result := c.deliver path (d.write path)
  (result, (c.writtenNotes path result).foldl Journal.note j)

end Mgol.Compilation
