import Mgol.Report.Code

/-! # Categories of syntax errors

What the parser says of a token that has no place where it stands. The number of a category is
what an action table holds in its error cells.

* **`Category`, `Category.number`, `Category.ofNumber?`** — the categories and their numbers. -/

namespace Mgol

/-- **The categories of syntax errors.** -/
inductive Category where
  | unexpectedToken
  | missingProgramStart
  | malformedDeclaration
  | malformedAssignment
  | malformedIo
  | malformedConditional
  | malformedLoop
  | unbalancedParentheses
  | missingSemicolon
  | unexpectedEndOfInput
  deriving DecidableEq, Repr

namespace Category

/-- All categories in the order of their numbers. -/
def all : List Category :=
  [unexpectedToken, missingProgramStart, malformedDeclaration, malformedAssignment, malformedIo,
   malformedConditional, malformedLoop, unbalancedParentheses, missingSemicolon,
   unexpectedEndOfInput]

/-- The number of a category in an error cell. -/
def number : Category → Nat
  | unexpectedToken => 1
  | missingProgramStart => 2
  | malformedDeclaration => 3
  | malformedAssignment => 4
  | malformedIo => 5
  | malformedConditional => 6
  | malformedLoop => 7
  | unbalancedParentheses => 8
  | missingSemicolon => 9
  | unexpectedEndOfInput => 10

/-- The category with a given number. -/
def ofNumber? (n : Nat) : Option Category := all.find? fun c => c.number = n

/-- Every category is found under its number. -/
@[simp] theorem ofNumber?_number (c : Category) : ofNumber? c.number = some c := by
  cases c <;> decide

/-- The code that a category is reported under. -/
def code : Category → Code
  | unexpectedToken => .unexpectedToken
  | missingProgramStart => .missingProgramStart
  | malformedDeclaration => .malformedDeclaration
  | malformedAssignment => .malformedAssignment
  | malformedIo => .malformedIo
  | malformedConditional => .malformedConditional
  | malformedLoop => .malformedLoop
  | unbalancedParentheses => .unbalancedParentheses
  | missingSemicolon => .missingSemicolon
  | unexpectedEndOfInput => .unexpectedEndOfInput

/-- What is said of a token in the category. -/
def description : Category → String
  | unexpectedToken => "unexpected token"
  | missingProgramStart => "program must start with 'inicio'"
  | malformedDeclaration => "malformed declaration"
  | malformedAssignment => "malformed assignment or expression"
  | malformedIo => "malformed read or write statement"
  | malformedConditional => "malformed conditional"
  | malformedLoop => "malformed loop"
  | unbalancedParentheses => "unbalanced parentheses"
  | missingSemicolon => "missing ';'"
  | unexpectedEndOfInput => "unexpected end of input"

end Category

end Mgol
