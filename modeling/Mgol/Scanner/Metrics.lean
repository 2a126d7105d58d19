import Mgol.Token.Basic

/-! # Scanner metrics

What a scanner counts about the tokens it hands out.

* **`LexicalMetrics.record`** — counts one token. -/

namespace Mgol

/-- How a scanner works: whether it counts tokens by class, and whether log events about bad
lexemes show them. -/
structure ScanOptions where
  detailedMetrics : Bool := true
  lexemeInErrors : Bool := true
  deriving DecidableEq, Repr

/-- **What a scanner has counted.** -/
structure LexicalMetrics where
  tokens : Nat := 0
  identifiers : Nat := 0
  comments : Nat := 0
  errors : Nat := 0
  longestLexeme : Nat := 0
  byClass : List (TokenClass × Nat) := []
  deriving DecidableEq, Repr

namespace LexicalMetrics

/-- Adds one to the count of a class. -/
def countClass (kind : TokenClass) : List (TokenClass × Nat) → List (TokenClass × Nat)
  | [] => [(kind, 1)]
  | (k, n) :: rest => if k = kind then (k, n + 1) :: rest else (k, n) :: countClass kind rest

/-- **Counts one token.** -/
def record (m : LexicalMetrics) (detailed : Bool) (t : Token) : LexicalMetrics where
  tokens := m.tokens + 1
  identifiers := if t.kind = .identifier then m.identifiers + 1 else m.identifiers
  comments := if t.kind = .comment then m.comments + 1 else m.comments
  errors := if t.kind = .error then m.errors + 1 else m.errors
  longestLexeme := max m.longestLexeme t.lexeme.utf8ByteSize
  byClass := if detailed then countClass t.kind m.byClass else m.byClass

@[simp] theorem tokens_record (m : LexicalMetrics) (detailed : Bool) (t : Token) :
    (m.record detailed t).tokens = m.tokens + 1 := rfl

end LexicalMetrics

end Mgol
