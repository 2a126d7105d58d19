import Mgol.CommandLine.Command
import Mgol.CommandLine.Help
import Mgol.Compiler.Output
import Mgol.Grammar.Directory
import Mgol.Settings.FromToml
import Mgol.Source.Lines

/-! # Runs of the command

One run of the command from its arguments to its exit status, over a disk and an environment.

* **`listTokens`** — the tokens of a file, one a line.
* **`compileAndReport`** — compiles a file, shows its problems and writes its program.
* **`runCommand`** — a whole run. -/

namespace Mgol

/-- **What is left after a run.** -/
structure RunResult where
  status : Nat
  shown : Printout
  disk : Disk

namespace Command

/-! ## Setting up -/

/-- The preferences of the run. -/
def preferences (env : Environment) (o : Options) : Command Preferences := do
  match o.settingsFile with
  | some path => orFail SettingsError.inspect (Preferences.load (← disk) env path)
  | none => return .ofEnvironment env

/-- Starts the log, or ends the run. -/
def startLog (p : LoggingPreferences) : Command Unit := do
  match ← withDisk (Logging.start { preferences := some p }) with
  | .ok logging => modify fun t => { t with logging }
  | .error e =>
    printErrorLines ["[" ++ Code.initializationFailure.text ++ "] " ++ e.message]
    stop failure

/-- The decision tables of the run: those of a directory, or those of MGol. -/
def tables (o : Options) : Command DecisionTables := do
  match o.tableDirectory with
  | some dir =>
    let tables ← orFail GrammarError.inspect (DecisionTables.load (← disk) dir)
    note [.tablesLoaded dir tables.stateCount]
    return tables
  | none =>
    note [Compiler.tablesNote .mgol]
    return .mgol

/-- Writes the tables to a directory, if one is given. -/
def exportTables (o : Options) (tables : DecisionTables) : Command Unit := do
  match o.exportDirectory with
  | some dir =>
    orFail GrammarError.inspect (← withDisk fun d => tables.save d dir)
    print ("Decision tables written to " ++ dir)
  | none => pure ()

/-! ## Listing tokens -/

/-- A token as a line of the listing. -/
def tokenLine (t : Spanned Token) : String := "  " ++ t.span.start.text ++ "  " ++ t.value.text

/-- The tokens of a file, whose bytes are read as a text first. -/
def tokensOf (file : SourceFile) (j : Journal) :
    Except LexicalError (Array (Spanned Token)) × Journal :=
  let bytes := Text.encode (Text.decodeLossy file.content.toList)
  let scanner := Scanner.ofInput ⟨bytes, none⟩ .mgol { journal := j.note Compiler.automatonNote }
  let (result, scanner) := scanner.scanAll
  (result, scanner.session.journal)

/-- **Lists the tokens of a file.** -/
def listTokens (input : String) : Command Unit := do
  inJournal (SourceFile.announce input)
  let d ← disk
  let file ← orFail FileError.inspect (← withJournal (SourceFile.loadAnnounced d {} input))
  print "Tokens:"
  let tokens ← orFail LexicalError.inspect (← withJournal (tokensOf file))
  printLines (tokens.toList.map tokenLine)
  print ""

/-! ## Compiling -/

/-- Prints the report about everything collected, where it is wanted. -/
def closingReport : Command Unit := do
  modify Terminal.settle
  printError (← get).logging.closingReport

/-- Compiles a file, or ends the run. -/
def compileInput (c : Compiler) (input : String) : Command Compilation := do
  inJournal (Compiler.announce input)
  let d ← disk
  match ← withJournal (c.finishFile d input) with
  | .ok result => return result
  | .error e =>
    printErrorLines ["", "FAILED [" ++ e.code.text ++ "]: " ++ e.message]
    closingReport
    stop failure

/-- A problem in one line, for showing it in its place. -/
def problemText (d : Diagnostic) : String :=
  d.kind.text ++ " [" ++ d.code.text ++ "] " ++ d.message

/-- Shows the problems of a compilation in their places. -/
def showProblems (input : String) (result : Compilation) : Command Unit := do
  if result.diagnostics.isEmpty then return ()
  match (← disk).read input with
  | .ok content =>
    let lines := SourceLines.ofText (Text.decodeLossy content.toList)
    printError (String.join (result.diagnostics.map fun d =>
      lines.showError d.position (problemText d)))
  | .error _ => printErrorLines (result.diagnostics.map Diagnostic.text)

/-- Writes the program, if there is one. -/
def writeProgram (output : String) (result : Compilation) : Command Unit := do
  if result.program.isSome then
    let d ← disk
    setDisk (← orFail OutputError.inspect (← withJournal (result.writeFile d output)))
    print ("Generated " ++ output)

/-- The last words of a run. -/
def conclude (input : String) (result : Compilation) : Command Unit := do
  if result.success then printLines ["", "SUCCESS: " ++ input ++ " compiled without errors"]
  else
    printErrorLines
      ["", "FAILED: " ++ toString result.lexicalErrors.length ++ " lexical, "
        ++ toString result.syntaxErrors.length ++ " syntax, "
        ++ toString result.semanticErrors.length ++ " semantic error(s)"]
    stop failure

/-- **Compiles a file, shows its problems and writes its program.** -/
def compileAndReport (c : Compiler) (o : Options) (input : String) : Command Unit := do
  print ("Compiling: " ++ input)
  let result ← compileInput c input
  showProblems input result
  if o.showRegistry then printLines ["", "Symbol registry:", result.registry.listing]
  writeProgram (o.output.getD c.preferences.output.defaultOutput) result
  closingReport
  if o.showStatus then printLines ["", (← get).logging.status]
  conclude input result

/-! ## A whole run -/

/-- What a run does with its input. -/
def process (c : Compiler) (o : Options) : Command Unit := do
  match o.input with
  | some input =>
    if o.showTokens then listTokens input
    compileAndReport c o input
  | none =>
    if o.exportDirectory.isNone then
      printErrorLines ["Error: no input file given", usageLine]
      stop misuse

/-- A run with options that make sense. -/
def perform (env : Environment) (o : Options) : Command Unit := do
  if o.help then printLines helpLines
  else
    let preferences ← preferences env o
    startLog preferences.logging
    note Compiler.checkNotes
    let tables ← tables o
    exportTables o tables
    process { tables, preferences } o

/-- A run of the command. -/
def ofArguments (env : Environment) (arguments : List String) : Command Unit :=
  match Options.ofArguments arguments with
  | .ok o => perform env o
  | .error e => do
    printErrorLines (usageLines e)
    stop misuse

end Command

/-- **Runs the command** on a disk, in an environment and at a time. -/
def runCommand (env : Environment) (arguments : List String) (clock : Clock) (disk : Disk) :
    RunResult :=
  let (result, t) := (Command.ofArguments env arguments).run.run { clock, disk }
  let t := t.settle
  let status :=
    match result with
    | .ok () => 0
    | .error status => status
  { status, shown := t.shown, disk := t.disk }

end Mgol
