import Mgol.Automaton.Basic
import Mgol.Token.Basic

/-! # The lexicon

An automaton whose final states stand for token classes.

* **`Lexicon`, `Lexicon.ofParts`** — an automaton with a class for each final state.
* **`Lexicon.accept`** — the token of a lexeme that was read up to a state.
* **`Lexicon.mgol`** — the words of the MGol language. -/

namespace Mgol

/-- **An automaton with the token classes of its states.** -/
structure Lexicon where
  automaton : Automaton
  classes : List (Nat × TokenClass)
  deriving Repr

namespace Lexicon

/-- The class of a state; of several entries the last counts. -/
def classOf? (l : Lexicon) (q : Nat) : Option TokenClass :=
  match l.classes.reverse.find? fun e => e.1 = q with
  | some e => some e.2
  | none => none

/-- **Joins an automaton with classes**, unless a final state has none. -/
def ofParts (automaton : Automaton) (classes : List (Nat × TokenClass)) :
    Except AutomatonError Lexicon :=
  let lexicon : Lexicon := ⟨automaton, classes⟩
  match automaton.finals.find? fun q => (lexicon.classOf? q).isNone with
  | some q => .error (.unclassified q)
  | none => .ok lexicon

/-- The type of a lexeme of a class. A number is real when it has a decimal point; an exponent does
not change its type. -/
def typeOf (kind : TokenClass) (lexeme : String) : DataType :=
  match kind with
  | .number => if lexeme.toList.contains '.' then .real else .integer
  | .literal => .literal
  | _ => .untyped

/-- **The token of a lexeme** that was read up to state `q`, if the state has a class. -/
def accept (l : Lexicon) (q : Nat) (lexeme : String) : Option Token :=
  match l.classOf? q with
  | some kind => some ⟨kind, lexeme, typeOf kind lexeme⟩
  | none => none

/-! ## The words of MGol -/

/-- The states of the MGol automaton. -/
inductive Stage where
  | start
  | identifier
  | integer
  | decimalPoint
  | fraction
  | exponent
  | exponentSign
  | exponentDigits
  | less
  | lessCompound
  | greater
  | greaterEqual
  | equal
  | assignment
  | arithmetic
  | openParen
  | closeParen
  | semicolon
  | comma
  | commentBody
  | comment
  | literalBody
  | literal
  deriving DecidableEq, Repr

/-- The number of a state. -/
def Stage.number : Stage → Nat
  | start => 0
  | identifier => 1
  | integer => 2
  | decimalPoint => 3
  | fraction => 4
  | exponent => 5
  | exponentSign => 6
  | exponentDigits => 7
  | less => 8
  | lessCompound => 9
  | greater => 10
  | greaterEqual => 11
  | equal => 12
  | assignment => 13
  | arithmetic => 14
  | openParen => 15
  | closeParen => 16
  | semicolon => 17
  | comma => 18
  | commentBody => 19
  | comment => 20
  | literalBody => 21
  | literal => 22

/-- How many states there are. -/
def stageCount : Nat := 23

/-- A transition between states of the MGol automaton. -/
def edge (source : Stage) (reads : ByteClass) (target : Stage) : Transition :=
  ⟨source.number, reads, target.number⟩

/-- The class of one ASCII character. -/
def char (c : Char) : ByteClass := .byte c.toUInt8

/-- **The transitions of the MGol automaton.** -/
def mgolTransitions : List Transition :=
  [edge .start .letter .identifier,
   edge .start .digit .integer,
   edge .start (char '<') .less,
   edge .start (char '>') .greater,
   edge .start (char '=') .equal,
   edge .start (char '(') .openParen,
   edge .start (char ')') .closeParen,
   edge .start (char ';') .semicolon,
   edge .start (char ',') .comma,
   edge .start (char '\x7b') .commentBody,
   edge .start (char '"') .literalBody,
   edge .identifier .letter .identifier,
   edge .identifier .digit .identifier,
   edge .identifier (char '_') .identifier,
   edge .integer .digit .integer,
   edge .integer (char '.') .decimalPoint,
   edge .decimalPoint .digit .fraction,
   edge .fraction .digit .fraction,
   edge .exponent .digit .exponentDigits,
   edge .exponentSign .digit .exponentDigits,
   edge .exponentDigits .digit .exponentDigits,
   edge .less (char '>') .lessCompound,
   edge .less (char '=') .lessCompound,
   edge .less (char '-') .assignment,
   edge .greater (char '=') .greaterEqual,
   edge .commentBody (char '\x7d') .comment,
   edge .commentBody .other .commentBody,
   edge .literalBody (char '"') .literal,
   edge .literalBody .other .literalBody,
   edge .start (char '+') .arithmetic,
   edge .start (char '-') .arithmetic,
   edge .start (char '*') .arithmetic,
   edge .start (char '/') .arithmetic,
   edge .integer (char 'e') .exponent,
   edge .integer (char 'E') .exponent,
   edge .fraction (char 'e') .exponent,
   edge .fraction (char 'E') .exponent,
   edge .exponent (char '+') .exponentSign,
   edge .exponent (char '-') .exponentSign]

/-- **The classes of the MGol automaton's final states.** -/
def mgolClasses : List (Nat × TokenClass) :=
  [(Stage.identifier.number, .identifier),
   (Stage.integer.number, .number),
   (Stage.fraction.number, .number),
   (Stage.exponentDigits.number, .number),
   (Stage.less.number, .relational),
   (Stage.lessCompound.number, .relational),
   (Stage.greater.number, .relational),
   (Stage.greaterEqual.number, .relational),
   (Stage.equal.number, .relational),
   (Stage.assignment.number, .assignment),
   (Stage.arithmetic.number, .arithmetic),
   (Stage.openParen.number, .openParen),
   (Stage.closeParen.number, .closeParen),
   (Stage.semicolon.number, .semicolon),
   (Stage.comma.number, .comma),
   (Stage.comment.number, .comment),
   (Stage.literal.number, .literal)]

/-- **The MGol automaton.** -/
def mgolAutomaton : Automaton where
  states := List.range stageCount
  initial := Stage.start.number
  finals := mgolClasses.map Prod.fst
  transitions := mgolTransitions

/-- **The lexicon of MGol.** -/
def mgol : Lexicon := ⟨mgolAutomaton, mgolClasses⟩

/-- The table of the MGol automaton has nothing wrong with it. -/
theorem tableError?_mgol :
    Automaton.tableError? (List.range stageCount) Stage.start.number (mgolClasses.map Prod.fst)
      mgolTransitions = none := by
  decide +kernel

/-- The MGol automaton is the one built from its table. -/
theorem ofTable_mgol :
    Automaton.ofTable (List.range stageCount) Stage.start.number (mgolClasses.map Prod.fst)
      mgolTransitions = .ok mgolAutomaton := by
  rw [Automaton.ofTable, tableError?_mgol]
  rfl

end Lexicon

end Mgol
