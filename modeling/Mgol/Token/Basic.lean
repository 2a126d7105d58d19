import Mgol.Token.Keyword

/-! # Tokens

The words of a program as the scanner, the parser and the type rules exchange them.

* **`TokenClass`** — what kind of word a token is, and under which name the grammar knows it.
* **`DataType`** — the type a token carries, with its spelling in C.
* **`Token`** — class, lexeme and type. -/

namespace Mgol

/-- **The lexical class of a token.** The scanner never makes a `nonterminal`: that is a value made
by a reduction. -/
inductive TokenClass where
  | number
  | literal
  | identifier
  | comment
  | endOfFile
  | relational
  | assignment
  | arithmetic
  | openParen
  | closeParen
  | semicolon
  | comma
  | error
  | nonterminal
  | keyword (word : Keyword)
  deriving DecidableEq, Repr

namespace TokenClass

/-- The terminal of the grammar that a class is parsed as, if any. -/
def terminal? : TokenClass → Option String
  | number => some "num"
  | literal => some "lit"
  | identifier => some "id"
  | endOfFile => some "$"
  | relational => some "opr"
  | assignment => some "rcb"
  | arithmetic => some "opm"
  | openParen => some "ab_p"
  | closeParen => some "fc_p"
  | semicolon => some "pt_v"
  | comma => some "vir"
  | keyword word => some word.spelling
  | comment | error | nonterminal => none

/-- The classes that the parser passes over. -/
def isIgnorable : TokenClass → Bool
  | comment | error => true
  | _ => false

/-- The name of a class in listings. -/
def name : TokenClass → String
  | number => "Num"
  | literal => "Lit"
  | identifier => "id"
  | comment => "Comentario"
  | endOfFile => "EOF"
  | relational => "OPR"
  | assignment => "RCB"
  | arithmetic => "OPM"
  | openParen => "AB_P"
  | closeParen => "FC_P"
  | semicolon => "PT_V"
  | comma => "VIR"
  | error => "ERRO"
  | nonterminal => "NT"
  | keyword word => word.spelling

/-- All classes. -/
def all : List TokenClass :=
  [number, literal, identifier, comment, endOfFile, relational, assignment, arithmetic, openParen,
   closeParen, semicolon, comma, error, nonterminal] ++ Keyword.all.map keyword

/-- The class with a given name. -/
def ofName? (s : String) : Option TokenClass :=
  all.find? fun c => c.name = s

end TokenClass

/-- **The type of a token**: declared for an identifier, inferred for a value. -/
inductive DataType where
  | integer
  | real
  | literal
  | untyped
  deriving DecidableEq, Repr

namespace DataType

/-- The name of a type in the language and in listings. -/
def text : DataType → String
  | integer => "inteiro"
  | real => "real"
  | literal => "literal"
  | untyped => "NULO"

/-- All types. -/
def all : List DataType := [integer, real, literal, untyped]

/-- The type with a given name. -/
def ofText? (s : String) : Option DataType :=
  all.find? fun t => t.text = s

/-- The type in C. -/
def cType? : DataType → Option String
  | integer => some "int"
  | real => some "double"
  | literal => some "literal"
  | untyped => none

/-- The conversion that reads and writes a value of the type in C. -/
def conversion? : DataType → Option String
  | integer => some "%d"
  | real => some "%lf"
  | literal => some "%s"
  | untyped => none

/-- Whether values of the type are numbers. -/
def isNumeric : DataType → Bool
  | integer | real => true
  | literal | untyped => false

end DataType

/-- **A token.** -/
structure Token where
  kind : TokenClass
  lexeme : String
  type : DataType := .untyped
  deriving DecidableEq, Repr

namespace Token

/-- The token of a reserved word. -/
def ofKeyword (word : Keyword) : Token := ⟨.keyword word, word.spelling, .untyped⟩

/-- The token after the last one. -/
def endOfFile : Token := ⟨.endOfFile, "EOF", .untyped⟩

/-- The token of characters that are no word. -/
def ofError (lexeme : String) : Token := ⟨.error, lexeme, .untyped⟩

/-- The value of a reduced nonterminal. -/
def ofNonterminal (name : String) : Token := ⟨.nonterminal, name, .untyped⟩

/-- Whether a token is the one after the last. -/
def isEndOfFile (t : Token) : Bool := t = endOfFile

/-- The terminal that a token is parsed as, if any. -/
def terminal? (t : Token) : Option String := t.kind.terminal?

/-- The terminal that a token is looked up under; the empty name has no column. -/
def terminalName (t : Token) : String := (t.kind.terminal?).getD ""

/-- A token in listings. -/
def text (t : Token) : String :=
  "Classe: " ++ t.kind.name ++ ", Lexema: " ++ t.lexeme ++ ", Tipo: " ++ t.type.text

end Token

end Mgol
