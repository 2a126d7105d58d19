import Mgol.Disk.Basic
import Mgol.Format.Toml.Reader
import Mgol.Settings.Preferences

/-! # Preferences in TOML

A preferences file is a TOML document with a table for every area. What it does not mention keeps
the value that the environment gives it, and what it does not know is passed over. A table may also
be written as an array of its values in order.

* **`Preferences.ofToml?`** — the preferences of a document.
* **`Preferences.load`** — the preferences of a file. -/

namespace Mgol

namespace Toml.Value

/-- A truth value. -/
def bool? : Value → Option Bool
  | .boolean b => some b
  | _ => none

/-- A number that is not negative. -/
def nat? : Value → Option Nat
  | .integer n => if 0 ≤ n then some n.toNat else none
  | _ => none

/-- The text of a string. -/
def text? : Value → Option String
  | .text s => some s
  | _ => none

/-- Whether a value holds nothing: the payload of a name that stands for itself. -/
def isVoid : Value → Bool
  | .table [] => true
  | .array [] => true
  | _ => false

/-- A level: its name, or a table with its name and nothing in it. -/
def level? : Value → Option Level
  | .text s => Level.ofPlainName? s
  | .table [(name, payload)] => if payload.isVoid then Level.ofPlainName? name else none
  | _ => none

/-- **The fields of a section**: those of a table by name, those of an array by their places. A date
is a section without fields, and any other value is none. -/
def fields? (names : List String) : Value → Option (List (String × Value))
  | .table entries => some entries
  | .array items => some (names.zip items)
  | .date _ => some []
  | _ => none

end Toml.Value

/-- A field of a section. -/
def sectionField? (fields : List (String × Toml.Value)) (name : String) : Option Toml.Value :=
  match fields.find? fun f => f.1 = name with
  | some f => some f.2
  | none => none

/-- A field of a section read by `read`; a missing one has a default, and one that cannot be read
spoils the section. -/
def fieldOr {α : Type} (fields : List (String × Toml.Value)) (read : Toml.Value → Option α)
    (name : String) (fallback : α) : Option α :=
  match sectionField? fields name with
  | some v => read v
  | none => some fallback

namespace Preferences

open Toml.Value

/-- The section about files. -/
def filesOfToml (base : FilePreferences) (v : Toml.Value) : Option FilePreferences := do
  let fields ← v.fields? ["require_mgol_extension", "enable_performance_logging"]
  return {
    requireExtension := ← fieldOr fields bool? "require_mgol_extension" base.requireExtension
    reportStatistics :=
      ← fieldOr fields bool? "enable_performance_logging" base.reportStatistics }

/-- The section about scanning. -/
def lexicalOfToml (base : ScanOptions) (v : Toml.Value) : Option ScanOptions := do
  let fields ← v.fields? ["collect_detailed_metrics", "include_lexeme_in_errors"]
  return {
    detailedMetrics := ← fieldOr fields bool? "collect_detailed_metrics" base.detailedMetrics
    lexemeInErrors := ← fieldOr fields bool? "include_lexeme_in_errors" base.lexemeInErrors }

/-- The section about parsing. -/
def syntacticOfToml (base : SyntaxOptions) (v : Toml.Value) : Option SyntaxOptions := do
  let fields ← v.fields? ["stack_capacity", "trace_actions"]
  return {
    stackCapacity := ← fieldOr fields nat? "stack_capacity" base.stackCapacity
    traceActions := ← fieldOr fields bool? "trace_actions" base.traceActions }

/-- The section about the program. -/
def outputOfToml (base : OutputPreferences) (v : Toml.Value) : Option OutputPreferences := do
  let fields ← v.fields? ["default_output", "emit_on_lexical_errors"]
  return {
    defaultOutput := ← fieldOr fields text? "default_output" base.defaultOutput
    emitOnLexicalErrors :=
      ← fieldOr fields bool? "emit_on_lexical_errors" base.emitOnLexicalErrors }

/-- The section about logging. -/
def loggingOfToml (base : LoggingPreferences) (v : Toml.Value) : Option LoggingPreferences := do
  let fields ← v.fields? ["use_structured_logging", "enable_console_logging", "min_log_level",
    "enable_cargo_style_output", "log_file"]
  return {
    structured := ← fieldOr fields bool? "use_structured_logging" base.structured
    console := ← fieldOr fields bool? "enable_console_logging" base.console
    minLevel := ← fieldOr fields level? "min_log_level" base.minLevel
    closingReport := ← fieldOr fields bool? "enable_cargo_style_output" base.closingReport
    logFile := ← fieldOr fields (fun v => (text? v).map some) "log_file" base.logFile }

/-- The preferences of a document's entries. -/
def ofEntries? (base : Preferences) (entries : List (String × Toml.Value)) :
    Option Preferences := do
  return {
    files := ← fieldOr entries (filesOfToml base.files) "file_processor" base.files
    lexical := ← fieldOr entries (lexicalOfToml base.lexical) "lexical" base.lexical
    syntactic := ← fieldOr entries (syntacticOfToml base.syntactic) "syntax" base.syntactic
    output := ← fieldOr entries (outputOfToml base.output) "codegen" base.output
    logging := ← fieldOr entries (loggingOfToml base.logging) "logging" base.logging }

/-- **The preferences of a document**, over those of the environment. -/
def ofToml? (env : Environment) (content : String) : Option Preferences :=
  (Toml.read? content.toList).bind (ofEntries? (ofEnvironment env))

/-- **The preferences of a file**, over those of the environment. -/
def load (d : Disk) (env : Environment) (path : String) : Except SettingsError Preferences :=
  match d.readText path with
  | .error e => .error (.io path e)
  | .ok content =>
    match ofToml? env content with
    | some p => .ok p
    | none => .error (.parse path)

end Preferences

end Mgol
