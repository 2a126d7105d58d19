import Mgol.Format.JsonText
import Mgol.Report.Code
import Mgol.Source.Position

/-! # Events

What the compiler tells while it works.

* **`Level`** — how important an event is; a threshold admits what is at least as important.
* **`Context`** — named details of an event in the order of their names.
* **`Event`, `Event.text`, `Event.json`** — one event, as a line for people and as JSON. -/

namespace Mgol

/-- **How important an event is.** -/
inductive Level where
  | error
  | warning
  | info
  | debug
  deriving DecidableEq, Repr

namespace Level

/-- The rank of a level; zero is the most important. -/
def rank : Level → Nat
  | error => 0
  | warning => 1
  | info => 2
  | debug => 3

/-- The name of a level in events. -/
def text : Level → String
  | error => "ERROR"
  | warning => "WARN"
  | info => "INFO"
  | debug => "DEBUG"

/-- Whether a threshold lets a level through. -/
def admits (threshold level : Level) : Bool := level.rank ≤ threshold.rank

/-- The more talkative of two levels. -/
def max (a b : Level) : Level := if a.rank ≤ b.rank then b else a

/-- The level written in full in small letters. -/
def ofPlainName? : String → Option Level
  | "error" => some error
  | "warning" => some warning
  | "info" => some info
  | "debug" => some debug
  | _ => none

/-- **Reads a level** by name in any case, by a short name, or by its rank. -/
def ofName? (s : String) : Option Level :=
  match s.map Char.toLower with
  | "error" | "0" => some error
  | "warning" | "warn" | "1" => some warning
  | "info" | "2" => some info
  | "debug" | "3" => some debug
  | _ => none

/-- What is said of a name that is no level. -/
def unknownMessage (s : String) : String :=
  "unknown log level '" ++ s.map Char.toLower ++ "'"

end Level

/-- **Named details**, in ascending order of their names. -/
abbrev Context := List (String × String)

namespace Context

/-- Puts a detail in its place; a detail of the same name is replaced. -/
def insert (key value : String) : Context → Context
  | [] => [(key, value)]
  | (k, v) :: rest =>
    match compare key k with
    | .lt => (key, value) :: (k, v) :: rest
    | .eq => (key, value) :: rest
    | .gt => (k, v) :: insert key value rest

/-- The context with the given details, of which a later one replaces an earlier one. -/
def ofList (details : List (String × String)) : Context :=
  details.foldl (fun c d => c.insert d.1 d.2) []

end Context

/-- **One event.** A timed event also tells how long its work took. -/
structure Event where
  level : Level
  code : Code
  message : String
  span : Option Span := none
  context : Context := []
  timed : Bool := false
  deriving DecidableEq, Repr

namespace Event

/-- An error with a code. -/
def error (code : Code) (message : String) : Event := { level := .error, code, message }

/-- A warning. -/
def warning (message : String) : Event := { level := .warning, code := .plainWarning, message }

/-- A piece of information. -/
def info (message : String) : Event := { level := .info, code := .plainInfo, message }

/-- A milestone with a code. -/
def success (code : Code) (message : String) : Event := { level := .info, code, message }

/-- A debugging note. -/
def debug (message : String) : Event := { level := .debug, code := .plainDebug, message }

/-- The event with one more detail. -/
def withDetail (e : Event) (key value : String) : Event :=
  { e with context := e.context.insert key value }

/-- The event with several more details. -/
def withDetails (e : Event) (details : List (String × String)) : Event :=
  details.foldl (fun e d => e.withDetail d.1 d.2) e

/-- The event with the file it is about. -/
def withFile (e : Event) (path : String) : Event := e.withDetail "file_path" path

/-- Whether the event is an error. -/
def isError (e : Event) : Bool := e.level = .error

/-- Whether the event is a warning. -/
def isWarning (e : Event) : Bool := e.level = .warning

/-- **The event in one line**, with its place if it has one. -/
def text (e : Event) : String :=
  let line := "[" ++ e.level.text ++ "] " ++ e.code.text ++ " - " ++ e.message
  match e.span with
  | some span => line ++ " at " ++ span.start.text
  | none => line

/-- The details with the time taken among them. -/
def timedContext (e : Event) (elapsed : String) : Context :=
  if e.timed then e.context.insert "duration_ms" elapsed else e.context

/-- What the register says of an error's code. -/
def errorFields (e : Event) : List String :=
  if e.isError then
    [Json.field "error_metadata" (Json.object
      [Json.field "recoverable" (Json.ofBool e.code.recoverable),
       Json.field "requires_halt" (Json.ofBool e.code.requiresHalt),
       Json.field "description" (Json.quote e.code.description),
       Json.field "recommended_action" (Json.quote e.code.action)])]
  else []

/-- The place of the event. -/
def spanFields (e : Event) : List String :=
  match e.span with
  | some span =>
    [Json.field "span" (Json.object
      [Json.field "start_line" (toString span.start.line),
       Json.field "start_column" (toString span.start.column),
       Json.field "end_line" (toString span.stop.line),
       Json.field "end_column" (toString span.stop.column)])]
  | none => []

/-- The details of the event, unless it has none. -/
def contextFields (e : Event) (elapsed : String) : List String :=
  match e.timedContext elapsed with
  | [] => []
  | details => [Json.field "context"
      (Json.object (details.map fun d => Json.field d.1 (Json.quote d.2)))]

/-- **The event as JSON**, at a moment and with the time taken, both already written out. -/
def json (e : Event) (moment elapsed : String) : String :=
  Json.object
    ([Json.field "timestamp" (Json.quote moment),
      Json.field "level" (Json.quote e.level.text),
      Json.field "code" (Json.quote e.code.text),
      Json.field "message" (Json.quote e.message),
      Json.field "category" (Json.quote e.code.category),
      Json.field "severity" (Json.quote e.code.severity.text)]
      ++ e.errorFields ++ e.spanFields ++ e.contextFields elapsed)

end Event

end Mgol
