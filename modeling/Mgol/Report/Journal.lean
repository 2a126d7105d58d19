import Mgol.Report.Collector
import Mgol.Token.Basic

/-! # The journal

Everything noteworthy that happens during a compilation is a **note**. A journal keeps the notes
that somebody listens to and forgets the rest, so taking notes never changes what is compiled.

* **`Note`** — the things worth telling, with `Note.level` and `Note.event`.
* **`Journal.note`** — adds a note; while a file is compiled its path goes with every event, and
  errors and warnings are collected for the final report. -/

namespace Mgol

/-- **The things worth telling.** -/
inductive Note where
  | tokenLimit (limit : Nat)
  | tokensRead (tokens errors : Nat)
  | tokenAccepted (token : Token) (at_ : Position)
  | badLexeme (code : Code) (message : String) (span : Span) (lexeme : Option String)
  | readFailed (at_ : Position) (message : String)
  | automatonBuilt (states accepting : Nat)
  | tablesBuilt (states rules : Nat)
  | tablesLoaded (dir : String) (states : Nat)
  | syntaxError (code : Code) (message : String) (span : Span) (state : Nat) (kind : TokenClass)
      (expected : List String)
  | recoveryFailed (at_ : Position)
  | recovered (state : Nat) (lexeme : String) (line discarded : Nat)
  | discarding (lexeme : String) (line : Nat)
  | moved (move : String) (state : Nat) (lexeme : String)
  | missingGoto (state : Nat) (nonterminal : String)
  | accepted (shifts reductions errors : Nat)
  | semanticsDone (errors : Nat)
  | programMade (bytes temporaries : Nat)
  | actionRun (rule : Nat) (lexeme : String)
  | semanticError (code : Code) (message : String) (at_ : Position) (lexeme : String)
  | semanticLimit (limit : Nat)
  | fileLoading (file : String)
  | fileLoaded (file : String) (bytesAndLines : Option (Nat × Nat))
  | fileRejected (code : Code) (message file : String)
  | compilationStarted (file : String)
  | outputSuppressed (source : String)
  | compilationSucceeded (source : String) (tokens : Nat)
  | compilationFailed (source : String) (lexical syntactic semantic : Nat) (hasProgram : Bool)
  | outputFailed (code : Code) (path : String)
  | outputWritten (path : String) (bytes : Nat)
  | validating
  | loggingReady
  deriving DecidableEq, Repr

namespace Note

/-- How important a note is. -/
def level : Note → Level
  | tokenLimit .. | badLexeme .. | readFailed .. | syntaxError .. | recoveryFailed ..
  | missingGoto .. | semanticError .. | fileRejected .. | outputFailed .. => .error
  | semanticLimit .. => .warning
  | tokenAccepted .. | discarding .. | moved .. | actionRun .. | fileLoading .. | validating =>
    .debug
  | tokensRead .. | automatonBuilt .. | tablesBuilt .. | tablesLoaded .. | recovered ..
  | accepted .. | semanticsDone .. | programMade .. | fileLoaded .. | compilationStarted ..
  | outputSuppressed .. | compilationSucceeded .. | compilationFailed .. | outputWritten ..
  | loggingReady => .info

/-- The details that name a place. -/
def placeDetails (p : Position) : List (String × String) :=
  [("line", toString p.line), ("column", toString p.column)]

/-- **The event that tells a note.** -/
def event : Note → Event
  | tokenLimit limit =>
    (Event.error .tokenLimitExceeded "Token limit exceeded").withDetails
      [("limit", toString limit)]
  | tokensRead tokens errors =>
    (Event.success .tokenizationComplete "Tokenization completed").withDetails
      [("tokens", toString tokens), ("lexical_errors", toString errors)]
  | tokenAccepted token at_ =>
    (Event.debug "Token accepted").withDetails
      [("class", token.kind.name), ("lexeme", token.lexeme), ("position", at_.text)]
  | badLexeme code message span lexeme =>
    let shown :=
      match lexeme with
      | some text => [("lexeme", text)]
      | none => []
    ({ Event.error code message with span := some span }).withDetails
      (shown ++ placeDetails span.start)
  | readFailed at_ message =>
    (Event.error .sourceReadError "Failed to read source").withDetails
      [("position", at_.text), ("error", message)]
  | automatonBuilt states accepting =>
    (Event.success .automatonConstructed "Scanner automaton constructed").withDetails
      [("states", toString states), ("accepting", toString accepting)]
  | tablesBuilt states rules =>
    (Event.success .tablesConstructed "Decision tables constructed").withDetails
      [("states", toString states), ("rules", toString rules)]
  | tablesLoaded dir states =>
    (Event.success .tablesConstructed "Decision tables loaded").withDetails
      [("dir", dir), ("states", toString states)]
  | syntaxError code message span state kind expected =>
    ({ Event.error code message with span := some span }).withDetails
      [("state", toString state), ("token", kind.name), ("expected", " ".intercalate expected)]
  | recoveryFailed at_ =>
    (Event.error .recoveryFailed "Could not resynchronize before end of input").withDetails
      (placeDetails at_)
  | recovered state lexeme line discarded =>
    (Event.success .errorRecovered "Recovered from syntax error").withDetails
      [("state", toString state), ("token", lexeme), ("line", toString line),
       ("discarded", toString discarded)]
  | discarding lexeme line =>
    (Event.debug "Discarding token").withDetails [("token", lexeme), ("line", toString line)]
  | moved move state lexeme =>
    (Event.debug move).withDetails [("state", toString state), ("token", lexeme)]
  | missingGoto state nonterminal =>
    (Event.error .missingGoto "Goto table has no entry").withDetails
      [("state", toString state), ("nonterminal", nonterminal)]
  | accepted shifts reductions errors =>
    ({ Event.success .parseAccepted "Parse accepted" with timed := true }).withDetails
      [("shifts", toString shifts), ("reductions", toString reductions),
       ("syntax_errors", toString errors)]
  | semanticsDone errors =>
    (Event.success .semanticAnalysisComplete "Semantic analysis completed").withDetails
      [("semantic_errors", toString errors)]
  | programMade bytes temporaries =>
    (Event.success .codeGenerated "Code generated").withDetails
      [("bytes", toString bytes), ("temporaries", toString temporaries)]
  | actionRun rule lexeme =>
    (Event.debug "Semantic action").withDetails [("rule", toString rule), ("value", lexeme)]
  | semanticError code message at_ lexeme =>
    ({ Event.error code message with span := some (.single at_) }).withDetails
      (("lexeme", lexeme) :: placeDetails at_)
  | semanticLimit limit =>
    (Event.warning "Semantic error limit reached; further errors are only counted").withDetails
      [("limit", toString limit)]
  | fileLoading file => (Event.debug "Loading source file").withDetails [("file", file)]
  | fileLoaded file bytesAndLines =>
    match bytesAndLines with
    | some (bytes, lines) =>
      ({ Event.success .fileLoaded "Source file loaded" with timed := true }).withDetails
        [("file", file), ("bytes", toString bytes), ("lines", toString lines)]
    | none => (Event.success .fileLoaded "Source file loaded").withDetails [("file", file)]
  | fileRejected code message file => (Event.error code message).withDetails [("file", file)]
  | compilationStarted file =>
    (Event.info "Starting MGol compilation").withDetails [("file", file)]
  | outputSuppressed source =>
    (Event.info "Output suppressed because of lexical errors").withDetails [("source", source)]
  | compilationSucceeded source tokens =>
    ({ Event.success .compilationSucceeded "Compilation succeeded" with timed := true }).withDetails
      [("source", source), ("tokens", toString tokens)]
  | compilationFailed source lexical syntactic semantic hasProgram =>
    ({ Event.info "Compilation finished with errors" with timed := true }).withDetails
      [("source", source), ("lexical", toString lexical), ("syntax", toString syntactic),
       ("semantic", toString semantic), ("program_generated", Json.ofBool hasProgram)]
  | outputFailed code path =>
    (Event.error code "Failed to write generated code").withDetails [("path", path)]
  | outputWritten path bytes =>
    (Event.success .codeGenerated "Generated code written").withDetails
      [("path", path), ("bytes", toString bytes)]
  | validating => Event.debug "Validating pipeline configuration"
  | loggingReady => Event.success .loggingReady "Global logging system initialized"

end Note

/-- **A journal**: what it lets through, the file being compiled, the events kept, and the errors
and warnings collected by file. Without a threshold nobody listens. -/
structure Journal where
  threshold : Option Level := none
  file : Option String := none
  events : Array Event := #[]
  collected : Collector := {}

namespace Journal

/-- The journal that nobody reads. -/
def silent : Journal := {}

/-- Whether notes of a level are kept. -/
def admits (j : Journal) (level : Level) : Bool :=
  match j.threshold with
  | some threshold => threshold.admits level
  | none => false

/-- Keeps an event, with the file in progress. -/
def keep (j : Journal) (e : Event) : Journal :=
  match j.file with
  | some path =>
    let e := e.withFile path
    { j with
      events := j.events.push e
      collected := if e.isError || e.isWarning then j.collected.record path e else j.collected }
  | none => { j with events := j.events.push e }

/-- **Takes a note**, if anybody listens to notes of its level. -/
def note (j : Journal) (n : Note) : Journal :=
  if j.admits n.level then j.keep n.event else j

/-- The journal while a file is compiled. -/
def enter (j : Journal) (path : String) : Journal := { j with file := some path }

/-- The journal after a file was compiled. -/
def leave (j : Journal) : Journal := { j with file := none }

/-- The journal with its events handed over. -/
def drained (j : Journal) : Journal := { j with events := #[] }

end Journal

end Mgol
