import Mgol.Disk.Error
import Mgol.Parser.State
import Mgol.Report.Event

/-! # Preferences

What a user may change about a run. Every preference has a default, and an environment variable can
set another one.

* **`Preferences`** — the preferences by area.
* **`Environment`, `Preferences.ofEnvironment`** — the preferences that the environment asks for. -/

namespace Mgol

/-- How source files are loaded. -/
structure FilePreferences where
  requireExtension : Bool := false
  reportStatistics : Bool := true
  deriving DecidableEq, Repr

/-- How the program is written. -/
structure OutputPreferences where
  defaultOutput : String := "output.c"
  emitOnLexicalErrors : Bool := true
  deriving DecidableEq, Repr

/-- What is told, and where. -/
structure LoggingPreferences where
  structured : Bool := false
  console : Bool := false
  minLevel : Level := .info
  closingReport : Bool := true
  logFile : Option String := none
  deriving DecidableEq, Repr

/-- No run tells less than this. -/
def Level.floor : Level := .info

/-- The level that is told: what is asked for, and at least the floor. -/
def LoggingPreferences.level (p : LoggingPreferences) : Level := p.minLevel.max .floor

/-- **The preferences of a run.** -/
structure Preferences where
  files : FilePreferences := {}
  lexical : ScanOptions := {}
  syntactic : SyntaxOptions := {}
  output : OutputPreferences := {}
  logging : LoggingPreferences := {}
  deriving DecidableEq, Repr

/-! ## The environment -/

/-- **The variables of the environment.** -/
abbrev Environment := List (String × String)

namespace Environment

/-- The value of a variable. -/
def get? (env : Environment) (name : String) : Option String :=
  match env.find? fun v => v.1 = name with
  | some v => some v.2
  | none => none

/-- The variables that make a difference. -/
def names : List String :=
  ["MGOL_REQUIRE_MGOL_EXTENSION", "MGOL_ENABLE_PERFORMANCE_LOGGING",
   "MGOL_LEXICAL_DETAILED_METRICS", "MGOL_LEXICAL_INCLUDE_LEXEME", "MGOL_SYNTAX_STACK_CAPACITY",
   "MGOL_SYNTAX_TRACE_ACTIONS", "MGOL_CODEGEN_DEFAULT_OUTPUT",
   "MGOL_CODEGEN_EMIT_ON_LEXICAL_ERRORS", "MGOL_LOGGING_USE_STRUCTURED",
   "MGOL_LOGGING_ENABLE_CONSOLE", "MGOL_LOGGING_MIN_LEVEL", "MGOL_LOGGING_CARGO_STYLE",
   "MGOL_LOGGING_FILE"]

/-- A variable read by `read`, or the default if it is missing or cannot be read. -/
def readOr {α : Type} (env : Environment) (read : String → Option α) (name : String)
    (fallback : α) : α :=
  ((env.get? name).bind read).getD fallback

/-- Reads a truth value. -/
def readBool? : String → Option Bool
  | "true" => some true
  | "false" => some false
  | _ => none

/-- Reads a number. -/
def readNat? (s : String) : Option Nat := Text.readBounded? Text.wordMax s.toList

/-- A truth value from the environment. -/
def boolOr (env : Environment) (name : String) (fallback : Bool) : Bool :=
  env.readOr readBool? name fallback

end Environment

namespace Preferences

/-- How the environment wants files to be loaded. -/
def filesOf (env : Environment) : FilePreferences where
  requireExtension := env.boolOr "MGOL_REQUIRE_MGOL_EXTENSION" false
  reportStatistics := env.boolOr "MGOL_ENABLE_PERFORMANCE_LOGGING" true

/-- How the environment wants sources to be scanned. -/
def lexicalOf (env : Environment) : ScanOptions where
  detailedMetrics := env.boolOr "MGOL_LEXICAL_DETAILED_METRICS" true
  lexemeInErrors := env.boolOr "MGOL_LEXICAL_INCLUDE_LEXEME" true

/-- How the environment wants sources to be parsed. -/
def syntacticOf (env : Environment) : SyntaxOptions where
  stackCapacity :=
    env.readOr Environment.readNat? "MGOL_SYNTAX_STACK_CAPACITY" Limits.stackDepth
  traceActions := env.boolOr "MGOL_SYNTAX_TRACE_ACTIONS" false

/-- How the environment wants programs to be written. -/
def outputOf (env : Environment) : OutputPreferences where
  defaultOutput := (env.get? "MGOL_CODEGEN_DEFAULT_OUTPUT").getD "output.c"
  emitOnLexicalErrors := env.boolOr "MGOL_CODEGEN_EMIT_ON_LEXICAL_ERRORS" true

/-- What the environment wants to be told. -/
def loggingOf (env : Environment) : LoggingPreferences where
  structured := env.boolOr "MGOL_LOGGING_USE_STRUCTURED" false
  console := env.boolOr "MGOL_LOGGING_ENABLE_CONSOLE" false
  minLevel := env.readOr Level.ofName? "MGOL_LOGGING_MIN_LEVEL" .info
  closingReport := env.boolOr "MGOL_LOGGING_CARGO_STYLE" true
  logFile := (env.get? "MGOL_LOGGING_FILE").filter fun path => path ≠ ""

/-- **The preferences that the environment asks for.** -/
def ofEnvironment (env : Environment) : Preferences where
  files := filesOf env
  lexical := lexicalOf env
  syntactic := syntacticOf env
  output := outputOf env
  logging := loggingOf env

end Preferences

/-- Why preferences could not be loaded. -/
inductive SettingsError where
  | io (path : String) (failure : DiskError)
  | parse (path : String)
  deriving DecidableEq, Repr

namespace SettingsError

/-- The text of the error. -/
def message : SettingsError → String
  | io path failure =>
    "Failed to read configuration file '" ++ path ++ "': " ++ failure.message
  | parse path => "Invalid configuration in '" ++ path ++ "'"

/-- The error in full detail. -/
def inspect : SettingsError → String
  | io path failure =>
    "Io \x7b path: " ++ Text.quote path ++ ", source: " ++ failure.inspect ++ " \x7d"
  | parse path => "Parse \x7b path: " ++ Text.quote path ++ " \x7d"

end SettingsError

end Mgol
