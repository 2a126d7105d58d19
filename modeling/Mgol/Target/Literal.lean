/-! # String literals in C

* **`Target.cLiteral lexeme`** — the C string literal for a literal constant of the source. -/

namespace Mgol.Target

/-- One character inside a C string literal. -/
def escapeChar (c : Char) : List Char :=
  if c = '\\' then ['\\', '\\']
  else if c = '"' then ['\\', '"']
  else if c = '\n' then ['\\', 'n']
  else if c = '\t' then ['\\', 't']
  else if c = '\r' then ['\\', 'r']
  else [c]

/-- A text without a quote at its start. -/
def dropOpening : List Char → List Char
  | '"' :: rest => rest
  | cs => cs

/-- A text without a quote at its end. -/
def dropClosing (cs : List Char) : List Char :=
  if cs.getLast? = some '"' then cs.dropLast else cs

/-- The text between the quotes of a lexeme. -/
def literalBody (lexeme : List Char) : List Char := dropClosing (dropOpening lexeme)

/-- A text in quotes, as a C string literal on one line. -/
def quoteBody (body : List Char) : List Char := '"' :: body.flatMap escapeChar ++ ['"']

/-- **The C string literal of a literal constant.** -/
def cLiteral (lexeme : String) : String :=
  String.ofList (quoteBody (literalBody lexeme.toList))

end Mgol.Target
