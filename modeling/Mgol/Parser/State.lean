import Mgol.Grammar.Category
import Mgol.Grammar.Tables
import Mgol.Parser.Error
import Mgol.Scanner.Basic
import Mgol.Semantics.Executor

/-! # The state of a parse

* **`SyntaxOptions`** — how a parse is run.
* **`SyntaxMetrics`, `ErrorRecord`** — what a parse counts and remembers.
* **`ParseState`** — everything that changes while a parse goes on, and what the parser tells. -/

namespace Mgol

/-- **How a parse is run**: the depth of its stacks, and whether every move is noted. -/
structure SyntaxOptions where
  stackCapacity : Nat := Limits.stackDepth
  traceActions : Bool := false
  deriving DecidableEq, Repr

/-- The depth of the stacks: what is asked for, within what is allowed. -/
def SyntaxOptions.effectiveCapacity (o : SyntaxOptions) : Nat :=
  min (max o.stackCapacity 1) Limits.stackDepth

/-- **What a parse counts.** -/
structure SyntaxMetrics where
  shifts : Nat := 0
  reductions : Nat := 0
  errors : Nat := 0
  recoveries : Nat := 0
  discarded : Nat := 0
  deriving DecidableEq, Repr

/-- **One syntax error** as the parser saw it. -/
structure ErrorRecord where
  state : Nat
  token : Token
  position : Position
  category : Category
  deriving DecidableEq, Repr

/-- **The state of a parse.** The lookahead is the next token that is no comment and no error; the
trigger is the offset of the token behind the latest recovery, until a token is shifted. -/
structure ParseState where
  scanner : Scanner
  states : Stack Nat
  executor : Executor
  lookahead : Spanned Token
  trigger : Option Nat := none
  metrics : SyntaxMetrics := {}
  diagnostics : Array Diagnostic := #[]
  history : Array ErrorRecord := #[]

namespace ParseState

/-- The state with one more note. -/
def note (p : ParseState) (n : Note) : ParseState := { p with scanner := p.scanner.note n }

/-- The state with a move noted, if moves are to be noted. -/
def trace (p : ParseState) (o : SyntaxOptions) (move : String) (state : Nat) : ParseState :=
  if o.traceActions then p.note (.moved move state p.lookahead.value.lexeme) else p

/-- The category of an error on a token, by the slot of the action table. -/
def categoryOf (t : Token) (slot : Option Nat) : Category :=
  if t.isEndOfFile then .unexpectedEndOfInput
  else ((slot.bind Category.ofNumber?).getD .unexpectedToken)

/-- The text of a syntax error. -/
def errorMessage (t : Token) (category : Category) : String :=
  if t.isEndOfFile then "Unexpected end of input"
  else category.description ++ " near '" ++ t.lexeme ++ "'"

/-- The terminals that the parser can go on with. -/
def expected (tables : DecisionTables) (state : Nat) : List GrammarSymbol :=
  tables.actions.columns.filter fun a => tables.hasAction state a

/-- The latest errors, up to a limit, with one more. -/
def remember (history : Array ErrorRecord) (r : ErrorRecord) : Array ErrorRecord :=
  let history := history.push r
  history.extract (history.size - Limits.errorHistory) history.size

/-- The state with one more diagnostic. -/
def diagnose (p : ParseState) (d : Diagnostic) : ParseState :=
  { p with diagnostics := p.diagnostics.push d }

/-- **Reports a syntax error** on the lookahead. -/
def report (p : ParseState) (tables : DecisionTables) (state : Nat) (slot : Option Nat) :
    ParseState :=
  let t := p.lookahead
  let category := categoryOf t.value slot
  let message := errorMessage t.value category
  let p := p.note
    (.syntaxError category.code message t.span state t.value.kind (expected tables state))
  let p := p.diagnose
    { kind := .syntactic, code := category.code, message, position := t.span.start
      lexeme := some t.value.lexeme }
  { p with
    history := remember p.history ⟨state, t.value, t.span.start, category⟩
    metrics := { p.metrics with errors := p.metrics.errors + 1 } }

/-- What is said when no token was found to go on with. -/
def recoveryFailure : String := "Could not resynchronize before end of input"

/-- Reports that no token was found to go on with after an error at a place. -/
def reportFailure (p : ParseState) (at_ : Position) : ParseState :=
  (p.note (.recoveryFailed at_)).diagnose
    { kind := .syntactic, code := .recoveryFailed, message := recoveryFailure, position := at_ }

/-- **Scans the next lookahead.** -/
def fetch (p : ParseState) : Except SyntaxError (Spanned Token) × ParseState :=
  match p with
  | ⟨scanner, states, executor, lookahead, trigger, metrics, diagnostics, history⟩ =>
    match scanner.nextVisible with
    | (.error e, scanner) =>
      (.error (.lexical e),
       ⟨scanner, states, executor, lookahead, trigger, metrics, diagnostics, history⟩)
    | (.ok t, scanner) =>
      (.ok t, ⟨scanner, states, executor, t, trigger, metrics, diagnostics, history⟩)

end ParseState

end Mgol
