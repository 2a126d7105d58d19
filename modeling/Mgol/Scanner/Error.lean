import Mgol.Automaton.Basic
import Mgol.Limits
import Mgol.Source.Position

/-! # Scanner errors

* **`LexicalError`** — what stops a scanner.
* **`LexemeFault`** — what is wrong with a lexeme; scanning goes on after it. -/

namespace Mgol

/-- **What stops a scanner.** -/
inductive LexicalError where
  | sourceRead (message : String) (position : Position)
  | tokenLimit (limit : Nat)
  | automaton (e : AutomatonError)
  deriving DecidableEq, Repr

namespace LexicalError

/-- The text of the error. -/
def message : LexicalError → String
  | sourceRead message position =>
    "Failed to read source at " ++ position.text ++ ": " ++ message
  | tokenLimit limit => "Too many tokens (max " ++ toString limit ++ ")"
  | automaton e => "Invalid scanner table: " ++ e.message

/-- The code of the error. -/
def code : LexicalError → Code
  | sourceRead .. => .sourceReadError
  | tokenLimit _ => .tokenLimitExceeded
  | automaton e => e.code

/-- The error in full detail. -/
def inspect : LexicalError → String
  | sourceRead message position =>
    "SourceRead \x7b message: " ++ Text.quote message ++ ", position: " ++ position.inspect
      ++ " \x7d"
  | tokenLimit limit => "TokenLimitExceeded \x7b limit: " ++ toString limit ++ " \x7d"
  | automaton e => "Automaton(" ++ Text.quote e.message ++ ")"

end LexicalError

/-- **What is wrong with a lexeme.** -/
inductive LexemeFault where
  | invalidNumber
  | invalidLiteral
  | invalidComment
  | invalidWord
  | lexemeTooLong
  deriving DecidableEq, Repr

namespace LexemeFault

/-- The fault of a lexeme that no class accepts, by how it begins and whether it has digits. -/
def classify (lexeme : List UInt8) : LexemeFault :=
  match lexeme.head? with
  | some 34 => .invalidLiteral
  | some 123 => .invalidComment
  | _ =>
    if lexeme = [125] then .invalidComment
    else if lexeme.any isDigitByte then .invalidNumber
    else .invalidWord

/-- The code of a fault. -/
def code : LexemeFault → Code
  | invalidNumber => .invalidNumber
  | invalidLiteral => .invalidLiteral
  | invalidComment => .invalidComment
  | invalidWord => .invalidWord
  | lexemeTooLong => .lexemeTooLong

/-- The text of a fault. -/
def message : LexemeFault → String
  | invalidNumber => "Invalid number"
  | invalidLiteral => "Unterminated literal"
  | invalidComment => "Unbalanced comment"
  | invalidWord => "Invalid word"
  | lexemeTooLong => "Lexeme too long (max " ++ toString Limits.lexemeLength ++ " bytes)"

end LexemeFault

end Mgol
