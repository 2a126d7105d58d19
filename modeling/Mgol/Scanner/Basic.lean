import Mgol.Automaton.Lexicon
import Mgol.Report.Diagnostic
import Mgol.Scanner.Error
import Mgol.Scanner.Metrics
import Mgol.Scanner.Run
import Mgol.Session
import Mgol.Source.Input
import Mgol.Text.LossyUtf8

/-! # The scanner

Cuts a source into tokens, one at each call, and the token after the last one for ever after. What
is no word of the language becomes an error token and a diagnostic, and scanning goes on; only a
source that breaks off and the token limit stop it.

* **`Scanner`** — the rest of the source, where it begins, and what was found so far.
* **`Scanner.scan`** — the next token.
* **`Scanner.scanAll`** — all tokens up to the end of the file.
* **`Scanner.nextVisible`** — the next token that the grammar can see. -/

namespace Mgol

/-- **A scanner.** -/
structure Scanner where
  lexicon : Lexicon
  options : ScanOptions
  input : Input
  position : Position := .start
  session : Session
  diagnostics : Array Diagnostic := #[]
  metrics : LexicalMetrics := {}
  reachedEnd : Bool := false

namespace Scanner

/-- A scanner at the start of a source. -/
def ofInput (input : Input) (lexicon : Lexicon := .mgol) (session : Session := {})
    (options : ScanOptions := {}) : Scanner :=
  { lexicon, options, input, session }

/-- The scanner with one more note taken. -/
def note (s : Scanner) (n : Note) : Scanner := { s with session := s.session.note n }

/-- The scanner moved on to a place. -/
def moveTo (s : Scanner) (p : Position) (rest : List UInt8) : Scanner :=
  { s with position := p, input := { s.input with bytes := rest } }

/-- The result of a scan beside the scanner it leaves. -/
abbrev Result := Except LexicalError (Spanned Token) × Scanner

/-- A source that broke off at the scanner's place. -/
def breakOff (s : Scanner) (message : String) : Result :=
  (.error (.sourceRead message s.position), s.note (.readFailed s.position message))

/-- **Gives up a lexeme**: an error token, and a diagnostic at its start. -/
def reject (s : Scanner) (fault : LexemeFault) (bytes : List UInt8) (start : Position) : Result :=
  let lexeme := Text.decodeLossy bytes
  let span : Span := ⟨start, s.position⟩
  let diagnostic : Diagnostic :=
    { kind := .lexical
      code := fault.code
      message := fault.message ++ " '" ++ Text.escapeMessage lexeme ++ "'"
      position := start
      lexeme := some lexeme }
  let shown := if s.options.lexemeInErrors then some lexeme else none
  (.ok ⟨.ofError lexeme, span⟩,
   { s.note (.badLexeme fault.code fault.message span shown) with
     diagnostics := s.diagnostics.push diagnostic })

/-- The token as it is handed out: an identifier by its entry in the registry, and anything else as
it is. -/
def enter (s : Scanner) (t : Token) : Token × Scanner :=
  if t.kind = .identifier then
    let (entry, registry) := s.session.registry.insert t
    (entry, { s with session := { s.session with registry } })
  else (t, s)

/-- **Hands out a token.** -/
def acceptToken (s : Scanner) (t : Token) (start : Position) : Result :=
  let (entry, s) := s.enter t
  (.ok ⟨entry, ⟨start, s.position⟩⟩, s.note (.tokenAccepted entry start))

/-- Ends a run that stopped in state `q`: it is a token if the state is final and has a class. -/
def finishRun (s : Scanner) (q : Nat) (tooLong : Bool) (bytes : List UInt8) (start : Position) :
    Result :=
  if tooLong then s.reject .lexemeTooLong bytes start
  else if s.lexicon.automaton.isFinal q then
    match s.lexicon.accept q (Text.decodeLossy bytes) with
    | some t => s.acceptToken t start
    | none => s.reject (.classify bytes) bytes start
  else s.reject (.classify bytes) bytes start

/-- A byte that no token starts with: it is an error together with the rest of its character. -/
def strayByte (s : Scanner) (b : UInt8) (start : Position) (rest : List UInt8) : Result :=
  let c := takeContinuation (continuationCount b) (start.advance b) rest
  let s := s.moveTo c.stop c.rest
  match c.ranOut, s.input.failure with
  | true, some message => s.breakOff message
  | _, _ => s.reject (.classify (b :: c.taken)) (b :: c.taken) start

/-- The token that begins at the scanner's place, where no separator stands. -/
def scanHere (s : Scanner) : Result :=
  match s.input.bytes with
  | [] =>
    match s.input.failure with
    | some message => s.breakOff message
    | none => (.ok ⟨.endOfFile, .empty s.position⟩, s)
  | b :: rest =>
    let start := s.position
    let run := munch s.lexicon.automaton start (b :: rest)
    if run.length = 0 then s.strayByte b start rest
    else
      let s := s.moveTo run.stop run.rest
      match run.rest, s.input.failure with
      | [], some message => s.breakOff message
      | _, _ => s.finishRun run.state run.tooLong run.bytes start

/-- The next token, before it is counted. -/
def scanToken (s : Scanner) : Result :=
  let (p, rest) := skipSeparators s.position s.input.bytes
  (s.moveTo p rest).scanHere

/-- Notes the first end of the file. -/
def noteEnd (s : Scanner) (t : Token) : Scanner :=
  if t.isEndOfFile && !s.reachedEnd then
    { s.note (.tokensRead s.metrics.tokens s.metrics.errors) with reachedEnd := true }
  else s

/-- **The next token with its span.** -/
def scan (s : Scanner) : Result :=
  if Limits.tokenCount ≤ s.metrics.tokens then
    (.error (.tokenLimit Limits.tokenCount), s.note (.tokenLimit Limits.tokenCount))
  else
    match s.scanToken with
    | (.error e, s) => (.error e, s)
    | (.ok t, s) =>
      let s := { s with metrics := s.metrics.record s.options.detailedMetrics t.value }
      (.ok t, s.noteEnd t.value)

/-- How many more tokens the scanner may hand out. -/
def allowance (s : Scanner) : Nat := Limits.tokenCount - s.metrics.tokens

/-- All tokens up to the end of the file, put after those found already. -/
def scanAllFrom : Nat → Array (Spanned Token) → Scanner →
    Except LexicalError (Array (Spanned Token)) × Scanner
  | 0, _, s => (.error (.tokenLimit Limits.tokenCount), s.note (.tokenLimit Limits.tokenCount))
  | n + 1, found, s =>
    match s.scan with
    | (.error e, s) => (.error e, s)
    | (.ok t, s) =>
      if t.value.isEndOfFile then (.ok (found.push t), s) else scanAllFrom n (found.push t) s

/-- **All tokens up to the end of the file.** -/
def scanAll (s : Scanner) : Except LexicalError (Array (Spanned Token)) × Scanner :=
  scanAllFrom s.allowance #[] s

/-- The next token that is no comment and no error, among at most `n`. -/
def nextVisibleFrom : Nat → Scanner → Result
  | 0, s => (.error (.tokenLimit Limits.tokenCount), s.note (.tokenLimit Limits.tokenCount))
  | n + 1, s =>
    match s.scan with
    | (.error e, s) => (.error e, s)
    | (.ok t, s) => if t.value.kind.isIgnorable then nextVisibleFrom n s else (.ok t, s)

/-- **The next token that the grammar can see.** -/
def nextVisible (s : Scanner) : Result := nextVisibleFrom s.allowance s

/-- The scanner with its registry replaced. -/
def withRegistry (s : Scanner) (registry : Registry) : Scanner :=
  { s with session := { s.session with registry } }

/-- Lends the session to somebody else for a while. -/
@[inline] def lend {α : Type} (s : Scanner) (f : Session → α × Session) : α × Scanner :=
  match s with
  | ⟨lexicon, options, input, position, session, diagnostics, metrics, reachedEnd⟩ =>
    let (a, session) := f session
    (a, ⟨lexicon, options, input, position, session, diagnostics, metrics, reachedEnd⟩)

/-- The names known to the scanner. -/
def registry (s : Scanner) : Registry := s.session.registry

/-- The scanner with its diagnostics handed over. -/
def withoutDiagnostics (s : Scanner) : Scanner := { s with diagnostics := #[] }

end Scanner

/-- **The tokens of a text**, with a fresh registry. -/
def tokenize (bytes : List UInt8) : Except LexicalError (Array (Spanned Token)) :=
  (Scanner.ofInput ⟨bytes, none⟩).scanAll.1

end Mgol
