import Std.Time.DateTime.Timestamp
import Mgol.CommandLine.Paths
import Mgol.CommandLine.Run
import Mgol.Report.Timestamp

/-! # The command

The outer layer of the command: it shows a run the part of the disk that it may touch, and carries
out what the run has decided. -/

namespace Mgol.Outer

/-- What stands under an absolute path. -/
def look (path : String) : IO (Option DiskEntry) := do
  try
    let place ← IO.FS.realPath path
    if ← place.isDir then return some .directory
    else if ← place.pathExists then return some (.file (← IO.FS.readBinFile place))
    else return none
  catch _ => return none

/-- Adds what stands under a name to a disk, unless every disk has it. -/
def observe (d : Disk) (name : List String) : IO Disk := do
  if (Disk.builtIn? name).isSome then return d
  match ← look (Disk.pathOfName name) with
  | some entry => return d.put name entry
  | none => return d

/-- Adds everything along some paths to a disk. -/
def observeAll (d : Disk) (paths : List String) : IO Disk :=
  (paths.flatMap d.namesAlong).foldlM observe d

/-- The environment, as far as it makes a difference. -/
def environment : IO Environment :=
  Environment.names.filterMapM fun name => do
    return (← IO.getEnv name).map fun value => (name, value)

/-- The part of the disk that a run with some arguments may touch. -/
def diskFor (env : Environment) (arguments : List String) : IO Disk := do
  let start : Disk :=
    { workingDirectory := ((← IO.currentDir).toString.splitOn "/").filter (· ≠ "") }
  match Options.ofArguments arguments with
  | .error _ => return start
  | .ok o =>
    let d ← observeAll start o.settingsFile.toList
    let preferences :=
      match o.settingsFile.map (Preferences.load d env) with
      | some (.ok p) => p
      | _ => .ofEnvironment env
    observeAll d (o.paths preferences)

/-- Carries out a change of the disk. -/
def carryOut (change : List String × DiskEntry) : IO Unit :=
  match change.2 with
  | .directory => IO.FS.createDirAll (Disk.pathOfName change.1)
  | .file content => IO.FS.writeBinFile (Disk.pathOfName change.1) content
  | .device _ => pure ()

end Mgol.Outer

open Mgol in
/-- Runs the command. -/
def main (arguments : List String) : IO UInt32 := do
  let env ← Outer.environment
  let before ← Outer.diskFor env arguments
  let now ← Std.Time.Timestamp.now
  let clock : Clock := ⟨timestamp now.toMillisecondsSinceUnixEpoch.val, "0.00"⟩
  let result := runCommand env arguments clock before
  (result.disk.changesSince before).forM Outer.carryOut
  IO.print result.shown.out
  IO.eprint result.shown.err
  return result.status.toUInt32
