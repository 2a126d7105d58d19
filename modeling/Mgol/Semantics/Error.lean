import Mgol.Registry
import Mgol.Stack

/-! # Errors of the semantic actions

* **`SemanticError`** — what stops the actions; type errors of the program are diagnostics. -/

namespace Mgol

/-- **What stops the semantic actions.** -/
inductive SemanticError where
  | valueUnderflow (rule needed available : Nat)
  | tooManyTemporaries (limit : Nat)
  | stack (e : StackError)
  | registry (e : RegistryError)
  deriving DecidableEq, Repr

namespace SemanticError

/-- The text of the error. -/
def message : SemanticError → String
  | valueUnderflow rule needed available =>
    "Rule " ++ toString rule ++ " needs " ++ toString needed
      ++ " values but the value stack holds " ++ toString available
  | tooManyTemporaries limit => "Temporary limit of " ++ toString limit ++ " exceeded"
  | stack e => "Value stack: " ++ e.message
  | registry e => e.message

/-- The code of the error. -/
def code : SemanticError → Code
  | valueUnderflow .. => .valueStackUnderflow
  | tooManyTemporaries _ => .tooManyTemporaries
  | stack e => e.code
  | registry e => e.code

end SemanticError

end Mgol
