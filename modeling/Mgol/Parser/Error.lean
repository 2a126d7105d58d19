import Mgol.Grammar.Error
import Mgol.Scanner.Error
import Mgol.Semantics.Error

/-! # Errors of the parser

* **`SyntaxError`** — what stops a parse; syntax errors of the program are diagnostics. -/

namespace Mgol

/-- **What stops a parse.** Only tables with a cycle of reductions leave one `unfinished`. -/
inductive SyntaxError where
  | stack (e : StackError)
  | lexical (e : LexicalError)
  | grammar (e : GrammarError)
  | semantic (e : SemanticError)
  | missingGoto (state : Nat) (nonterminal : String)
  | unfinished
  deriving DecidableEq, Repr

namespace SyntaxError

/-- The text of the error. -/
def message : SyntaxError → String
  | stack e => "Parse stack: " ++ e.message
  | lexical e => e.message
  | grammar e => e.message
  | semantic e => e.message
  | missingGoto state nonterminal =>
    "No goto entry for state " ++ toString state ++ " on " ++ nonterminal
  | unfinished => "The tables reduce without end"

/-- The code of the error. -/
def code : SyntaxError → Code
  | stack e => e.code
  | lexical e => e.code
  | grammar e => e.code
  | semantic e => e.code
  | missingGoto .. => .missingGoto
  | unfinished => .internalError

end SyntaxError

end Mgol
