import Mgol.Compiler.SourceFile
import Mgol.Parser.Error

/-! # Errors of the compiler

* **`CompileError`** — what keeps a source from being compiled.
* **`OutputError`** — what keeps a program from being written. -/

namespace Mgol

/-- **What keeps a source from being compiled.** Errors in the source are diagnostics and do not. -/
inductive CompileError where
  | file (e : FileError)
  | syntactic (e : SyntaxError)
  deriving DecidableEq, Repr

namespace CompileError

/-- The text of the error. -/
def message : CompileError → String
  | file e => "File processing failed: " ++ e.message
  | syntactic e => "Syntax analysis failed: " ++ e.message

/-- The code of the error. -/
def code : CompileError → Code
  | file e => e.code
  | syntactic e => e.code

end CompileError

/-- **What keeps a program from being written.** -/
inductive OutputError where
  | failed (target : String) (failure : DiskError)
  | nothingToWrite
  deriving DecidableEq, Repr

namespace OutputError

/-- The text of the error. -/
def message : OutputError → String
  | failed target failure => "Failed to write output to " ++ target ++ ": " ++ failure.message
  | nothingToWrite => "Compilation produced no program to write"

/-- The code of the error. -/
def code : OutputError → Code := fun _ => .outputWriteFailed

/-- The error in full detail. -/
def inspect : OutputError → String
  | failed target failure =>
    "Output \x7b target: " ++ Text.quote target ++ ", source: " ++ failure.inspect ++ " \x7d"
  | nothingToWrite => "NothingToWrite"

end OutputError

end Mgol
