import Mgol.Token.Basic

/-! # Statements of the generated program

The lines that the compiler writes, as data.

* **`Statement`** — one C statement that stands on a line.
* **`Header`** — the head of a block.
* **`Line`, `Line.text`** — a line of the program body with its depth. -/

namespace Mgol.Target

/-- **A C statement on one line.** -/
inductive Statement where
  | declare (type : DataType) (names : List String)
  | read (type : DataType) (name : String)
  | write (type : DataType) (operand : String)
  | writeText (literal : String)
  | assign (target value : String)
  | copy (target value : String)
  | compute (temporary left operator right : String)
  | verbatim (text : String)
  deriving DecidableEq, Repr

namespace Statement

/-- The text of a statement. -/
def text : Statement → String
  | declare type names => (type.cType?).getD "" ++ " " ++ ", ".intercalate names ++ ";"
  | read type name =>
    "scanf(\"" ++ (type.conversion?).getD "" ++ "\", "
      ++ (if type = .literal then name else "&" ++ name) ++ ");"
  | write type operand =>
    "printf(\"" ++ (type.conversion?).getD "" ++ "\", " ++ operand ++ ");"
  | writeText literal => "printf(\"%s\", " ++ literal ++ ");"
  | assign target value => target ++ " = " ++ value ++ ";"
  | copy target value => "strcpy(" ++ target ++ ", " ++ value ++ ");"
  | compute temporary left operator right =>
    temporary ++ " = " ++ left ++ " " ++ operator ++ " " ++ right ++ ";"
  | verbatim text => text

end Statement

/-- **The head of a block.** -/
inductive Header where
  | ifHolds (condition : String)
  | whileHolds (condition : String)
  | verbatim (text : String)
  deriving DecidableEq, Repr

/-- The text of a head, before its brace. -/
def Header.text : Header → String
  | ifHolds condition => "if (" ++ condition ++ ")"
  | whileHolds condition => "while (" ++ condition ++ ")"
  | verbatim text => text

/-- What stands on a line. -/
inductive LineBody where
  | statement (s : Statement)
  | opening (h : Header)
  | closing
  deriving DecidableEq, Repr

/-- The text of what stands on a line. -/
def LineBody.text : LineBody → String
  | statement s => s.text
  | opening h => h.text ++ " \x7b"
  | closing => "\x7d"

/-- **A line of the program body**, inside `depth` blocks. -/
structure Line where
  depth : Nat
  body : LineBody
  deriving DecidableEq, Repr

/-- The text of a line: a tab, one more for each block around it, and its body. -/
def Line.text (l : Line) : String :=
  String.ofList (List.replicate (l.depth + 1) '\t') ++ l.body.text ++ "\n"

end Mgol.Target
