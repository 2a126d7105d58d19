import Mgol.Logging

/-! # Commands

The steps of a run: each one may print, take notes, touch the disk, or end the run.

* **`Terminal`** — the state of a run.
* **`Command`** — a step of a run; ending it gives the exit status.
* **`Command.print`, `Command.withJournal`, `Command.stop`** — the basic steps. -/

namespace Mgol

/-- **The state of a run**: the time, the disk, the log, and what has been printed. -/
structure Terminal where
  clock : Clock
  disk : Disk
  logging : Logging := {}
  shown : Printout := {}

namespace Terminal

/-- Shows what was written to the console through the disk. -/
def collect (t : Terminal) : Terminal :=
  match t with
  | ⟨clock, ⟨entries, workingDirectory, printed⟩, logging, shown⟩ =>
    ⟨clock, ⟨entries, workingDirectory, {}⟩, logging, shown.append printed⟩

/-- Hands the events of the journal over, so that what comes next is printed after them. -/
def settle (t : Terminal) : Terminal :=
  match t.collect with
  | ⟨clock, disk, logging, shown⟩ =>
    let (logging, shown, disk) := logging.handOver clock shown disk
    ⟨clock, disk, logging, shown⟩

/-- Prints something after the events so far. -/
def put (t : Terminal) (f : Printout → Printout) : Terminal :=
  match t.settle with
  | ⟨clock, disk, logging, shown⟩ => ⟨clock, disk, logging, f shown⟩

end Terminal

/-- **A step of a run.** Ending the run gives its exit status. -/
abbrev Command := ExceptT Nat (StateM Terminal)

namespace Command

/-- The exit status of a run with errors. -/
def failure : Nat := 1

/-- The exit status of a run with arguments that are wrong. -/
def misuse : Nat := 2

/-- **Prints a line.** -/
def print (line : String) : Command Unit := modify (·.put (·.line line))

/-- Prints lines. -/
def printLines (lines : List String) : Command Unit :=
  modify (·.put fun p => lines.foldl Printout.line p)

/-- Prints a text among the errors. -/
def printError (text : String) : Command Unit := modify (·.put (·.error text))

/-- Prints lines among the errors. -/
def printErrorLines (lines : List String) : Command Unit :=
  modify (·.put fun p => lines.foldl Printout.errorLine p)

/-- **Ends the run.** -/
def stop {α : Type} (status : Nat) : Command α := throw status

/-- **Ends the run with an error** in full detail. -/
def fail {α : Type} (detail : String) : Command α := do
  printErrorLines ["Error: " ++ detail]
  stop failure

/-- The disk, after the log file is up to date. -/
def disk : Command Disk := do
  modify Terminal.settle
  return (← get).disk

/-- Does something with the disk. -/
def withDisk {α : Type} (f : Disk → α × Disk) : Command α :=
  modifyGet fun t =>
    match t.settle with
    | ⟨clock, disk, logging, shown⟩ =>
      let (a, disk) := f disk
      (a, ⟨clock, disk, logging, shown⟩)

/-- Changes to another disk. -/
def setDisk (d : Disk) : Command Unit := modify fun t => { t with disk := d }

/-- **Does something while notes are taken.** -/
def withJournal {α : Type} (f : Journal → α × Journal) : Command α :=
  modifyGet fun t =>
    match t with
    | ⟨clock, disk, ⟨preferences, journal⟩, shown⟩ =>
      let (a, journal) := f journal
      (a, ⟨clock, disk, ⟨preferences, journal⟩, shown⟩)

/-- Changes the journal. -/
def inJournal (f : Journal → Journal) : Command Unit := withJournal fun j => ((), f j)

/-- Takes notes. -/
def note (notes : List Note) : Command Unit := inJournal fun j => notes.foldl Journal.note j

/-- What came of a step, or the end of the run if it failed. -/
def orFail {ε α : Type} (inspect : ε → String) : Except ε α → Command α
  | .ok a => pure a
  | .error e => fail (inspect e)

end Command

end Mgol
