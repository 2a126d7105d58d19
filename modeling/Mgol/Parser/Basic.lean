import Mgol.Parser.Step

/-! # The parser

Runs the moves of a parse to its end and gathers the outcome.

* **`ParseState.run`** — moves until the parse ends.
* **`ParseOutcome`** — what came of a parse.
* **`parse`** — the parse of a scanner's tokens with given tables. -/

namespace Mgol

/-- **How a parse ended.** -/
inductive ParseEnd where
  | accepted (p : ParseState)
  | abandoned (p : ParseState)
  | failed (e : SyntaxError) (p : ParseState)

namespace ParseState

/-- **Moves until the parse ends**, at most `n` times. -/
def run (tables : DecisionTables) (o : SyntaxOptions) : Nat → ParseState → ParseEnd
  | 0, p => .failed .unfinished p
  | n + 1, p =>
    match p.step tables o with
    | .next p => run tables o n p
    | .accepted p => .accepted p
    | .abandoned p => .abandoned p
    | .failed e p => .failed e p

end ParseState

/-- **What came of a parse.** The diagnostics are in the order of the source. -/
structure ParseOutcome where
  accepted : Bool
  recoveryFailed : Bool
  diagnostics : List Diagnostic
  program : Option String
  registry : Registry
  lexical : LexicalMetrics
  syntactic : SyntaxMetrics
  history : Array ErrorRecord

namespace ParseOutcome

/-- Accepted without any diagnostic. -/
def success (o : ParseOutcome) : Bool := o.accepted && o.diagnostics.isEmpty

/-- Whether the scanner found problems. -/
def hasLexicalErrors (o : ParseOutcome) : Bool := o.diagnostics.any Diagnostic.isLexical

/-- Whether the parser found problems. -/
def hasSyntaxErrors (o : ParseOutcome) : Bool := o.diagnostics.any Diagnostic.isSyntactic

/-- Whether the type rules found problems. -/
def hasSemanticErrors (o : ParseOutcome) : Bool := o.diagnostics.any Diagnostic.isSemantic

/-- Diagnostics in the order of their offsets; those at one offset keep their order. -/
def sortDiagnostics (diagnostics : List Diagnostic) : List Diagnostic :=
  diagnostics.mergeSort fun a b => a.position.offset ≤ b.position.offset

/-- The program of a parse, unless something was wrong. -/
def programOf (p : ParseState) (accepted : Bool) : Option String :=
  if accepted && p.diagnostics.isEmpty then p.executor.program? else none

/-- The last notes of a parse. -/
def closingNotes (p : ParseState) (accepted : Bool) (program : Option String) : List Note :=
  (if accepted then [.accepted p.metrics.shifts p.metrics.reductions p.metrics.errors] else [])
    ++ [.semanticsDone p.executor.errorCount]
    ++ (match program with
        | some text => [.programMade text.utf8ByteSize p.executor.work.code.temporaries.size]
        | none => [])

/-- **Gathers the outcome** of a parse that came to its end, and its journal. -/
def ofState (p : ParseState) (accepted : Bool) : ParseOutcome × Journal :=
  let program := programOf p accepted
  let journal := (closingNotes p accepted program).foldl Journal.note p.scanner.session.journal
  ({ accepted
     recoveryFailed := !accepted
     diagnostics := sortDiagnostics
       (p.scanner.diagnostics ++ p.diagnostics ++ p.executor.diagnostics).toList
     program
     registry := p.scanner.registry
     lexical := p.scanner.metrics
     syntactic := p.metrics
     history := p.history }, journal)

end ParseOutcome

/-- The state in which a parse begins: the initial state on the stack and the first token ahead. -/
def startState (scanner : Scanner) (executor : Executor) (capacity : Nat) :
    Except SyntaxError ParseState × Journal :=
  match (Stack.ofCapacity capacity).push 0 with
  | .error e => (.error (.stack e), scanner.session.journal)
  | .ok states =>
    match scanner.nextVisible with
    | (.error e, scanner) => (.error (.lexical e), scanner.session.journal)
    | (.ok lookahead, scanner) => (.ok { scanner, states, executor, lookahead }, {})

/-- The result of a parse that ended. -/
def ParseEnd.result : ParseEnd → Except SyntaxError ParseOutcome × Journal
  | .accepted p =>
    let (outcome, journal) := ParseOutcome.ofState p true
    (.ok outcome, journal)
  | .abandoned p =>
    let (outcome, journal) := ParseOutcome.ofState p false
    (.ok outcome, journal)
  | .failed e p => (.error e, p.scanner.session.journal)

/-- **Parses with a given executor**, in at most `moves` moves. -/
def parseWithin (moves : Nat) (executor : Executor) (scanner : Scanner) (tables : DecisionTables)
    (o : SyntaxOptions) : Except SyntaxError ParseOutcome × Journal :=
  match startState scanner executor o.effectiveCapacity with
  | (.error e, journal) => (.error e, journal)
  | (.ok p, _) => (p.run tables o moves).result

/-- **Parses with a given executor**, within the limits. -/
def parseWith (executor : Executor) (scanner : Scanner) (tables : DecisionTables)
    (o : SyntaxOptions) : Except SyntaxError ParseOutcome × Journal :=
  parseWithin Limits.parseMoves executor scanner tables o

/-- **Parses with the actions of MGol.** -/
def parse (scanner : Scanner) (tables : DecisionTables) (o : SyntaxOptions) :
    Except SyntaxError ParseOutcome × Journal :=
  parseWith (.mgol o.effectiveCapacity) scanner tables o

end Mgol
