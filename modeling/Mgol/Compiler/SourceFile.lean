import Mgol.Disk.Basic
import Mgol.Limits
import Mgol.Report.Journal
import Mgol.Settings.Preferences
import Mgol.Source.Path

/-! # Source files

Loading a source file, which has to be a regular file of a bearable size.

* **`FileError`** — why a file is refused.
* **`SourceFile`, `SourceFile.load`** — a file that passed all checks, from the cheapest to the
  dearest. -/

namespace Mgol

/-- **Why a source file is refused.** -/
inductive FileError where
  | notFound (path : String)
  | invalidExtension (found : Option String)
  | tooLarge (size : Nat)
  | empty
  | permissionDenied (path : String)
  | io (text : String)
  | invalidPath (path : String)
  | tooManyLines (lines : Nat)
  deriving DecidableEq, Repr

namespace FileError

/-- An extension in full detail. -/
def inspectExtension : Option String → String
  | some e => "Some(" ++ Text.quote e ++ ")"
  | none => "None"

/-- The text of the error. -/
def message : FileError → String
  | notFound path => "File not found: " ++ path
  | invalidExtension found =>
    "Invalid file extension: expected .mgol, found " ++ inspectExtension found
  | tooLarge size =>
    "File too large: " ++ toString size ++ " bytes (max: " ++ toString Limits.fileSize ++ ")"
  | empty => "File is empty"
  | permissionDenied path => "Permission denied: " ++ path
  | io text => "I/O error reading file: " ++ text
  | invalidPath path => "Not a regular file: " ++ path
  | tooManyLines lines =>
    "File has " ++ toString lines ++ " lines (max: " ++ toString Limits.lineCount ++ ")"

/-- The code of the error. -/
def code : FileError → Code
  | notFound _ => .fileNotFound
  | invalidExtension _ => .invalidExtension
  | tooLarge _ => .fileTooLarge
  | empty => .emptyFile
  | permissionDenied _ => .permissionDenied
  | io _ => .ioError
  | invalidPath _ => .invalidPath
  | tooManyLines _ => .tooManyLines

/-- The error in full detail. -/
def inspect : FileError → String
  | notFound path => "FileNotFound \x7b path: " ++ Text.quote path ++ " \x7d"
  | invalidExtension found =>
    "InvalidExtension \x7b extension: " ++ inspectExtension found ++ " \x7d"
  | tooLarge size =>
    "FileTooLarge \x7b size: " ++ toString size ++ ", max_size: " ++ toString Limits.fileSize
      ++ " \x7d"
  | empty => "EmptyFile"
  | permissionDenied path => "PermissionDenied \x7b path: " ++ Text.quote path ++ " \x7d"
  | io text => "IoError \x7b message: " ++ Text.quote text ++ " \x7d"
  | invalidPath path => "InvalidPath \x7b path: " ++ Text.quote path ++ " \x7d"
  | tooManyLines lines =>
    "TooManyLines \x7b lines: " ++ toString lines ++ ", max_lines: " ++ toString Limits.lineCount
      ++ " \x7d"

end FileError

/-- The extension of source files. -/
def sourceExtension : String := "mgol"

/-- **A source file**: its name, its extension in small letters, its bytes and its lines. -/
structure SourceFile where
  name : String
  extension : Option String
  content : ByteArray
  lineCount : Nat

namespace SourceFile

/-- How many bytes the file has. -/
def size (f : SourceFile) : Nat := f.content.size

/-- Whether an extension is that of source files. -/
def isSourceExtension (extension : Option String) : Bool := extension = some sourceExtension

/-- Counts the lines of a file. A last line without an end counts as well. -/
def countLines (content : ByteArray) : Nat :=
  let ends := content.foldl (fun n b => if b = 10 then n + 1 else n) 0
  match content[content.size - 1]? with
  | none => ends
  | some last => if last = 10 then ends else ends + 1

/-- The extension of a file name in small letters. -/
def extensionOf (name : String) : Option String :=
  (extension? name).map fun e => e.map Char.toLower

/-- What a path must name to be loaded: the name and the bytes of a regular file. -/
def locate (d : Disk) (path : String) : Except FileError (String × ByteArray) :=
  if path = "" then .error (.invalidPath path)
  else
    match d.entry? path with
    | none => .error (.notFound path)
    | some (name, .file content) => .ok (name.getLast?.getD "", content)
    | some _ => .error (.invalidPath path)

/-- What is wrong with the size or the extension of a file. -/
def shapeError? (p : FilePreferences) (size : Nat) (extension : Option String) :
    Option FileError :=
  if Limits.fileSize < size then some (.tooLarge size)
  else if size = 0 then some .empty
  else if p.requireExtension && !isSourceExtension extension then
    some (.invalidExtension extension)
  else none

/-- **Checks and reads a file.** -/
def ofPath (d : Disk) (p : FilePreferences) (path : String) : Except FileError SourceFile :=
  match locate d path with
  | .error e => .error e
  | .ok (name, content) =>
    let extension := extensionOf name
    match shapeError? p content.size extension with
    | some e => .error e
    | none =>
      let lineCount := countLines content
      if Limits.lineCount < lineCount then .error (.tooManyLines lineCount)
      else .ok { name, extension, content, lineCount }

/-- The note that a file was loaded. -/
def loadedNote (p : FilePreferences) (path : String) (f : SourceFile) : Note :=
  .fileLoaded path (if p.reportStatistics then some (f.size, f.lineCount) else none)

/-- The note that a file is about to be loaded. -/
def announce (path : String) (j : Journal) : Journal := j.note (.fileLoading path)

/-- Loads a file that is announced, and takes note of what came of it. -/
def loadAnnounced (d : Disk) (p : FilePreferences) (path : String) (j : Journal) :
    Except FileError SourceFile × Journal :=
  match ofPath d p path with
  | .error e => (.error e, j.note (.fileRejected e.code e.message path))
  | .ok f => (.ok f, j.note (loadedNote p path f))

/-- **Loads a file** and takes notes of it. -/
def load (d : Disk) (p : FilePreferences) (path : String) (j : Journal) :
    Except FileError SourceFile × Journal :=
  loadAnnounced d p path (announce path j)

end SourceFile

end Mgol
