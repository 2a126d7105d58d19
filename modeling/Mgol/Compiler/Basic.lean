import Mgol.Compiler.Error
import Mgol.Grammar.Mgol
import Mgol.Parser.Basic

/-! # The compiler

From a source to a program.

* **`Compilation`** — everything that one compilation brought forth.
* **`Compiler`** — decision tables and preferences. It can compile any number of sources; each one
  gets a registry and a code buffer of its own.
* **`Compiler.compile`, `Compiler.compileText`, `Compiler.compileFile`** — compile an input, a text
  and a file. -/

namespace Mgol

/-- **Everything that one compilation brought forth.** -/
structure Compilation where
  sourceName : String
  success : Bool
  accepted : Bool
  recoveryFailed : Bool
  diagnostics : List Diagnostic
  program : Option String
  registry : Registry
  lexical : LexicalMetrics
  syntactic : SyntaxMetrics

namespace Compilation

/-- The problems that the scanner found. -/
def lexicalErrors (c : Compilation) : List Diagnostic := c.diagnostics.filter Diagnostic.isLexical

/-- The problems that the parser found. -/
def syntaxErrors (c : Compilation) : List Diagnostic :=
  c.diagnostics.filter Diagnostic.isSyntactic

/-- The problems that the type rules found. -/
def semanticErrors (c : Compilation) : List Diagnostic :=
  c.diagnostics.filter Diagnostic.isSemantic

/-- The compilation that came of a parse. Its program is left out where it is not wanted. -/
def ofOutcome (name : String) (wanted : Bool) (o : ParseOutcome) : Compilation where
  sourceName := name
  success := o.success
  accepted := o.accepted
  recoveryFailed := o.recoveryFailed
  diagnostics := o.diagnostics
  program := if wanted then o.program else none
  registry := o.registry
  lexical := o.lexical
  syntactic := o.syntactic

/-- The last note of a compilation. -/
def closingNote (c : Compilation) : Note :=
  if c.success then .compilationSucceeded c.sourceName c.lexical.tokens
  else
    .compilationFailed c.sourceName c.lexicalErrors.length c.syntaxErrors.length
      c.semanticErrors.length c.program.isSome

end Compilation

/-- **A compiler.** -/
structure Compiler where
  tables : DecisionTables := .mgol
  preferences : Preferences := {}

namespace Compiler

/-- The name of a source that is no file. -/
def memoryName : String := "<memory>"

/-- The note that the automaton of the scanner is ready. -/
def automatonNote : Note :=
  .automatonBuilt Lexicon.mgol.automaton.states.length Lexicon.mgol.automaton.finals.length

/-- The note that tables were constructed. -/
def tablesNote (t : DecisionTables) : Note := .tablesBuilt t.stateCount t.rules.rules.length

/-- A compiler with the tables of MGol. -/
def withPreferences (p : Preferences) (j : Journal) : Compiler × Journal :=
  ({ preferences := p }, j.note (tablesNote .mgol))

/-- Whether the program of a parse is wanted. One with lexical errors may be unwanted. -/
def wants (c : Compiler) (o : ParseOutcome) : Bool :=
  c.preferences.output.emitOnLexicalErrors || !o.hasLexicalErrors

/-- The parse of an input. -/
def parseInput (c : Compiler) (input : Input) (j : Journal) :
    Except SyntaxError ParseOutcome × Journal :=
  parse (.ofInput input .mgol { journal := j.note automatonNote } c.preferences.lexical) c.tables
    c.preferences.syntactic

/-- **Compiles an input.** -/
def compile (c : Compiler) (input : Input) (name : String) (j : Journal) :
    Except CompileError Compilation × Journal :=
  match c.parseInput input j with
  | (.error e, j) => (.error (.syntactic e), j)
  | (.ok outcome, j) =>
    let wanted := c.wants outcome
    let j := if wanted then j else j.note (.outputSuppressed name)
    let result := Compilation.ofOutcome name wanted outcome
    (.ok result, j.note result.closingNote)

/-- **Compiles a text.** -/
def compileText (c : Compiler) (text : String) (j : Journal) :
    Except CompileError Compilation × Journal :=
  c.compile ⟨Text.encode text, none⟩ memoryName j

/-- Turns the journal to the page of a file that is about to be compiled. -/
def announce (path : String) (j : Journal) : Journal :=
  SourceFile.announce path ((j.enter path).note (.compilationStarted path))

/-- What comes of a file while the journal is on its page. -/
def compileAnnounced (c : Compiler) (d : Disk) (path : String) (j : Journal) :
    Except CompileError Compilation × Journal :=
  match SourceFile.loadAnnounced d c.preferences.files path j with
  | (.error e, j) => (.error (.file e), j)
  | (.ok file, j) => c.compile ⟨file.content.toList, none⟩ path j

/-- Compiles a file that is announced, and closes its page. -/
def finishFile (c : Compiler) (d : Disk) (path : String) (j : Journal) :
    Except CompileError Compilation × Journal :=
  let (result, j) := c.compileAnnounced d path j
  (result, j.leave)

/-- **Compiles a file.** The notes up to its loading do not depend on the disk, which may hold them
itself. -/
def compileFile (c : Compiler) (d : Disk) (path : String) (j : Journal) :
    Except CompileError Compilation × Journal :=
  c.finishFile d path (announce path j)

end Compiler

end Mgol
