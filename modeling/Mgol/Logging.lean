import Mgol.Disk.Basic
import Mgol.Report.Journal
import Mgol.Settings.Preferences

/-! # The log of a run

Who listens to the journal is decided once: first the preferences, then the journal itself.

* **`Logging`** — the preferences and the journal of a run.
* **`Logging.start`** — opens the log file, if there is one, and begins to listen.
* **`Logging.status`** — what the run knows about its log.
* **`Logging.handOver`** — the events of the journal on their way to those who listen. -/

namespace Mgol

/-- **Why the log could not be set up.** -/
inductive LoggingError where
  | preferencesFixed
  | alreadyListening
  | logFile (path : String) (failure : DiskError)
  deriving DecidableEq, Repr

/-- The text of the error. -/
def LoggingError.message : LoggingError → String
  | preferencesFixed => "Runtime preferences already initialized"
  | alreadyListening => "Global logger already initialized"
  | logFile path failure => "Cannot open log file " ++ path ++ ": " ++ failure.message

namespace LoggingPreferences

/-- A truth value in words. -/
def truth (b : Bool) : String := if b then "true" else "false"

/-- **The preferences in words.** -/
def summary (p : LoggingPreferences) : String :=
  "\n".intercalate
    ["Logging Configuration:",
     " - Log buffer size: " ++ toString Limits.logBuffer,
     " - Max events per file: " ++ toString Limits.eventsPerFile,
     " - Level floor: " ++ Level.floor.text,
     " - Min log level: " ++ p.level.text,
     " - Structured logging: " ++ truth p.structured,
     " - Console logging: " ++ truth p.console,
     " - Cargo-style output: " ++ truth p.closingReport,
     " - Log file: " ++ p.logFile.getD "none"]

/-- Opens the log file: the directory it stands in is made, and the file itself if it is
missing. -/
def openLogFile (p : LoggingPreferences) (d : Disk) : Except LoggingError Unit × Disk :=
  match p.logFile with
  | none => (.ok (), d)
  | some path =>
    match d.createParent path with
    | (.error e, d) => (.error (.logFile path e), d)
    | (.ok (), d) =>
      match d.append path .empty with
      | .error e => (.error (.logFile path e), d)
      | .ok d => (.ok (), d)

end LoggingPreferences

/-- **The log of a run**: its preferences, once they are fixed, and its journal. -/
structure Logging where
  preferences : Option LoggingPreferences := none
  journal : Journal := {}

namespace Logging

/-- The preferences in force. -/
def inForce (l : Logging) : LoggingPreferences := l.preferences.getD {}

/-- Whether somebody listens. -/
def isListening (l : Logging) : Bool := l.journal.threshold.isSome

/-- **Fixes the preferences**, which can be done once. -/
def fix (l : Logging) (p : LoggingPreferences) : Except LoggingError Logging :=
  match l.preferences with
  | some _ => .error .preferencesFixed
  | none => .ok { l with preferences := some p }

/-- **Begins to listen** to everything that a level admits, which can be done once. -/
def listen (l : Logging) (level : Level) : Except LoggingError Logging :=
  if l.isListening then .error .alreadyListening
  else .ok { l with journal := { l.journal with threshold := some level } }

/-- **Starts the log that the preferences describe.** -/
def start (l : Logging) (d : Disk) : Except LoggingError Logging × Disk :=
  match l.inForce.openLogFile d with
  | (.error e, d) => (.error e, d)
  | (.ok (), d) =>
    match l.listen l.inForce.level with
    | .error e => (.error e, d)
    | .ok l => (.ok { l with journal := l.journal.note .loggingReady }, d)

/-- What has been collected, in words. -/
def collectedLines (c : Collector) : List String :=
  let totals := c.summary
  ["Collected events: " ++ toString c.size ++ "/" ++ toString Limits.logBuffer,
   "Files with events: " ++ toString totals.files,
   "Total errors: " ++ toString totals.errors,
   "Total warnings: " ++ toString totals.warnings]

/-- **The state of the log in words.** -/
def status (l : Logging) : String :=
  "\n".intercalate
    (["=== Logging System Diagnostics ===",
      "Initialized: " ++ LoggingPreferences.truth l.isListening]
      ++ (if l.isListening then collectedLines l.journal.collected else [])
      ++ ["", l.inForce.summary])

/-- The report at the end of a run, where it is wanted. -/
def closingReport (l : Logging) : String :=
  if l.inForce.closingReport && l.isListening then l.journal.collected.report else ""

end Logging

/-! ## Handing over the events -/

/-- The moment of a run and the time its work takes, both already written out. -/
structure Clock where
  moment : String
  elapsed : String
  deriving DecidableEq, Repr

namespace Logging

/-- An event as a line of the log. -/
def eventLine (p : LoggingPreferences) (clock : Clock) (e : Event) : String :=
  if p.structured then e.json clock.moment clock.elapsed else e.text

/-- Prints an event: an error with the errors, anything else with the output. -/
def printEvent (p : LoggingPreferences) (clock : Clock) (shown : Printout) (e : Event) :
    Printout :=
  if e.isError then shown.errorLine (eventLine p clock e) else shown.line (eventLine p clock e)

/-- The lines of the log file for some events. -/
def fileLines (p : LoggingPreferences) (clock : Clock) (events : Array Event) : String :=
  events.foldl (fun text e => text ++ eventLine p clock e ++ "\n") ""

/-- Adds events to the log file. A log file that cannot be written is left alone. -/
def appendToFile (p : LoggingPreferences) (clock : Clock) (events : Array Event) (d : Disk) :
    Disk :=
  match p.logFile with
  | none => d
  | some path =>
    match d.append path (fileLines p clock events).toUTF8 with
    | .ok d => d
    | .error _ => d

/-- Shows an event on the console: printed, where that is wanted, and then as a line of the log,
where the log file is one of the streams. -/
def tell (p : LoggingPreferences) (clock : Clock) (log : Option Device) (shown : Printout)
    (e : Event) : Printout :=
  let shown := if p.console then printEvent p clock shown e else shown
  match log with
  | some .output => shown.line (eventLine p clock e)
  | some .errors => shown.errorLine (eventLine p clock e)
  | _ => shown

/-- **Hands the events of the journal over** to the console and to the log file. Each event is told
in full before the next one, which can be seen where the log file is the console as well. -/
def handOver (l : Logging) (clock : Clock) (shown : Printout) (d : Disk) :
    Logging × Printout × Disk :=
  let p := l.inForce
  let events := l.journal.events
  let log := p.logFile.bind d.device?
  let shown := events.foldl (tell p clock log) shown
  let d := if events.isEmpty || log.isSome then d else appendToFile p clock events d
  ({ l with journal := l.journal.drained }, shown, d)

end Logging

end Mgol
