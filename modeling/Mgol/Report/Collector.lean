import Mgol.Limits
import Mgol.Report.Event
import Mgol.Source.Path

/-! # Collected events

Events gathered by source file, for the report at the end of a run.

* **`Collector.record`** — adds an event to the log of a file; past a limit it is only counted.
* **`Collector.summary`** — totals over all files.
* **`Collector.report`** — the errors and warnings of each file, then the totals. -/

namespace Mgol

/-- The events of one file, under the path by which it was first named. -/
structure FileLog where
  path : String
  events : Array Event := #[]
  dropped : Nat := 0

namespace FileLog

/-- Adds an event, or counts it once the log is full. -/
def record (log : FileLog) (e : Event) : FileLog :=
  if log.events.size < Limits.eventsPerFile then { log with events := log.events.push e }
  else { log with dropped := log.dropped + 1 }

/-- How many errors the log holds. -/
def errors (log : FileLog) : Nat := log.events.countP Event.isError

/-- How many warnings the log holds. -/
def warnings (log : FileLog) : Nat := log.events.countP Event.isWarning

end FileLog

/-- **Totals over the files of a collector.** -/
structure Summary where
  files : Nat := 0
  failed : Nat := 0
  errors : Nat := 0
  warnings : Nat := 0
  deriving DecidableEq, Repr

/-- **Event logs in the order of their paths.** -/
structure Collector where
  logs : List FileLog := []

namespace Collector

/-- Adds an event to the log of its file among logs in order. -/
def recordIn (path : String) (e : Event) : List FileLog → List FileLog
  | [] => [FileLog.record { path } e]
  | log :: rest =>
    match comparePaths path log.path with
    | .lt => FileLog.record { path } e :: log :: rest
    | .eq => log.record e :: rest
    | .gt => log :: recordIn path e rest

/-- **Records an event of a file.** -/
def record (c : Collector) (path : String) (e : Event) : Collector :=
  ⟨recordIn path e c.logs⟩

/-- The events kept of a file. -/
def eventsOf (c : Collector) (path : String) : Array Event :=
  match c.logs.find? fun log => comparePaths path log.path = .eq with
  | some log => log.events
  | none => #[]

/-- A number added up over all logs. -/
def total (c : Collector) (f : FileLog → Nat) : Nat := (c.logs.map f).foldr (· + ·) 0

/-- How many events are kept. -/
def size (c : Collector) : Nat := c.total fun log => log.events.size

/-- **The totals.** A file has failed if one of its events is an error. -/
def summary (c : Collector) : Summary :=
  { files := c.logs.length
    failed := c.logs.countP fun log => 0 < log.errors
    errors := c.total FileLog.errors
    warnings := c.total FileLog.warnings }

/-- The lines of the report about one event. -/
def eventLines (path : String) (e : Event) : List String :=
  let kind := if e.isError then "error" else "warning"
  let heading := kind ++ "[" ++ e.code.text ++ "]: " ++ e.message
  let place :=
    match e.span with
    | some span => ["  --> " ++ path ++ ":" ++ span.start.text]
    | none => []
  let details :=
    (e.context.filter fun d => d.1 ≠ "file_path").map fun d => "  = " ++ d.1 ++ ": " ++ d.2
  let help :=
    match e.code.entry? with
    | some entry => if e.isError then ["  = help: " ++ entry.action] else []
    | none => []
  heading :: place ++ details ++ help

/-- The lines of the report about one file. -/
def fileLines (log : FileLog) : List String :=
  let reported := log.events.toList.filter fun e => e.isError || e.isWarning
  if reported.isEmpty then []
  else
    ("Checking " ++ log.path ++ "...") :: reported.flatMap (eventLines log.path)
      ++ (if 0 < log.dropped then ["note: " ++ toString log.dropped ++ " more events not shown"]
          else [])
      ++ [""]

/-- **The report**: the errors and warnings of each file, then the totals. -/
def report (c : Collector) : String :=
  let totals := c.summary
  let lines :=
    c.logs.flatMap fileLines
      ++ (if 0 < totals.errors then ["Total errors: " ++ toString totals.errors] else [])
      ++ (if 0 < totals.warnings then ["Total warnings: " ++ toString totals.warnings] else [])
  String.join (lines.map (· ++ "\n"))

end Collector

end Mgol
