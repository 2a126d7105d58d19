import Mgol.Report.Code
import Mgol.Source.Position

/-! # Diagnostics

Problems of a source that do not stop the compiler.

* **`DiagnosticKind`** — which part of the compiler found the problem.
* **`Diagnostic`** — a problem with its code, its message and its place. -/

namespace Mgol

/-- Which part of the compiler found a problem. -/
inductive DiagnosticKind where
  | lexical
  | syntactic
  | semantic
  deriving DecidableEq, Repr

/-- The name of a kind. -/
def DiagnosticKind.text : DiagnosticKind → String
  | lexical => "lexical"
  | syntactic => "syntax"
  | semantic => "semantic"

/-- **A problem of a source**, with the offending lexeme where there is one. -/
structure Diagnostic where
  kind : DiagnosticKind
  code : Code
  message : String
  position : Position
  lexeme : Option String := none
  deriving DecidableEq, Repr

namespace Diagnostic

/-- Whether the scanner found the problem. -/
def isLexical (d : Diagnostic) : Bool := d.kind = .lexical

/-- Whether the parser found the problem. -/
def isSyntactic (d : Diagnostic) : Bool := d.kind = .syntactic

/-- Whether the type rules found the problem. -/
def isSemantic (d : Diagnostic) : Bool := d.kind = .semantic

/-- What the code of the problem means. -/
def description (d : Diagnostic) : String := d.code.description

/-- The problem in one line. -/
def text (d : Diagnostic) : String :=
  d.kind.text ++ " error[" ++ d.code.text ++ "] at line " ++ toString d.position.line
    ++ ", column " ++ toString d.position.column ++ ": " ++ d.message

end Diagnostic

end Mgol
