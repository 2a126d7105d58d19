import Mgol.Disk.Device
import Mgol.Disk.Error
import Mgol.Printout
import Mgol.Text.LossyUtf8

/-! # The disk

Files and directories as far as a run can see them, and what can be done to them.

* **`Disk`** — what stands under which absolute name, and the working directory.
* **`Disk.find`** — follows a path to what it names.
* **`Disk.read`, `Disk.write`, `Disk.append`, `Disk.createDirectories`** — the operations of a
  run. -/

namespace Mgol

/-- **What stands on a disk.** -/
inductive DiskEntry where
  | file (content : ByteArray)
  | directory
  | device (kind : Device)

/-- Whether two entries are alike. -/
def DiskEntry.isSame : DiskEntry → DiskEntry → Bool
  | file a, file b => a.size = b.size && a.data = b.data
  | directory, directory => true
  | device a, device b => a = b
  | _, _ => false

/-- **A disk**: entries by absolute name, the working directory, and what was written to the
console through its devices. The empty name is the root, which is always there, and so are the
devices. -/
structure Disk where
  entries : List (List String × DiskEntry) := []
  workingDirectory : List String := []
  printed : Printout := {}

namespace Disk

/-- What stands under an absolute name on every disk: the root, and the devices in their
directories. -/
def builtIn? (name : List String) : Option DiskEntry :=
  if name = [] ∨ name ∈ Device.directories then some .directory
  else (Device.ofName? name).map DiskEntry.device

/-- The entry with an absolute name. -/
def get? (d : Disk) (name : List String) : Option DiskEntry :=
  match builtIn? name with
  | some entry => some entry
  | none =>
    match d.entries.find? fun e => e.1 = name with
    | some e => some e.2
    | none => none

/-- Sets the entry with a name in a list. -/
def putIn (name : List String) (entry : DiskEntry) :
    List (List String × DiskEntry) → List (List String × DiskEntry)
  | [] => [(name, entry)]
  | e :: rest => if e.1 = name then (name, entry) :: rest else e :: putIn name entry rest

/-- Sets the entry with an absolute name. -/
def put (d : Disk) (name : List String) (entry : DiskEntry) : Disk :=
  { d with entries := putIn name entry d.entries }

/-! ## Following paths -/

/-- **What a path names**: something that is there, or a name in a directory that has none such. -/
inductive Place where
  | found (name : List String) (entry : DiskEntry)
  | missing (name : List String)

/-- The most bytes that one step of a path can have. -/
def longestName : Nat := 255

/-- The most bytes that a path can have. -/
def longestPath : Nat := 4095

/-- Why a path leads nowhere on any disk. -/
def malformed? (path : String) : Option DiskError :=
  if path = "" then some .notFound
  else if path.toList.any (· = '\x00') then some .nulInName
  else if longestPath < path.utf8ByteSize then some .nameTooLong
  else none

/-- Follows the pieces of a path from a directory. -/
def follow (d : Disk) (dir : List String) : List String → Except DiskError Place
  | [] => .ok (.found dir .directory)
  | piece :: rest =>
    if piece = "" ∨ piece = "." then follow d dir rest
    else if piece = ".." then follow d dir.dropLast rest
    else if longestName < piece.utf8ByteSize then .error .nameTooLong
    else
      match d.get? (dir ++ [piece]) with
      | some .directory => follow d (dir ++ [piece]) rest
      | some entry =>
        if rest.isEmpty then .ok (.found (dir ++ [piece]) entry) else .error .notADirectory
      | none => if rest.isEmpty then .ok (.missing (dir ++ [piece])) else .error .notFound

/-- The directory that a path starts from. -/
def base (d : Disk) (path : String) : List String :=
  if path.startsWith "/" then [] else d.workingDirectory

/-- **Follows a path.** -/
def find (d : Disk) (path : String) : Except DiskError Place :=
  match malformed? path with
  | some e => .error e
  | none => d.follow (d.base path) (path.splitOn "/")

/-- A path without the slashes at its end. -/
def withoutEndSlashes (path : String) : String :=
  String.ofList (path.toList.reverse.dropWhile (· = '/')).reverse

/-- **Follows a path to something that may be made there**, for which slashes at its end do not
matter. -/
def findForCreation (d : Disk) (path : String) : Except DiskError Place :=
  match malformed? path with
  | some e => .error e
  | none =>
    let bare := withoutEndSlashes path
    if bare = "" then .ok (.found [] .directory) else d.find bare

/-- What a path names, if it is there. -/
def entry? (d : Disk) (path : String) : Option (List String × DiskEntry) :=
  match d.find path with
  | .ok (.found name entry) => some (name, entry)
  | _ => none

/-- Whether a path names a directory. -/
def isDirectory (d : Disk) (path : String) : Bool :=
  match d.find path with
  | .ok (.found _ .directory) => true
  | _ => false

/-! ## Files -/

/-- **The content of a file.** Devices have none. -/
def read (d : Disk) (path : String) : Except DiskError ByteArray :=
  match d.find path with
  | .error e => .error e
  | .ok (.missing _) => .error .notFound
  | .ok (.found _ .directory) => .error .isADirectory
  | .ok (.found _ (.file content)) => .ok content
  | .ok (.found _ (.device _)) => .ok .empty

/-- The text of a file, which must be valid UTF-8. -/
def readText (d : Disk) (path : String) : Except DiskError String :=
  match d.read path with
  | .error e => .error e
  | .ok content =>
    match String.fromUTF8? content with
    | some text => .ok text
    | none => .error .invalidText

/-- **What takes bytes**: a file, with its name and what it holds now, or a device. -/
inductive Target where
  | file (name : List String) (content : ByteArray)
  | device (kind : Device)

/-- What takes the bytes for a path: the file that is or would be there, or a device. A path with
a slash at its end can only be that of a directory. -/
def target (d : Disk) (path : String) : Except DiskError Target :=
  match d.findForCreation path with
  | .error e => .error e
  | .ok place =>
    if path.endsWith "/" then .error .isADirectory
    else
      match place with
      | .found _ .directory => .error .isADirectory
      | .found name (.file content) => .ok (.file name content)
      | .found _ (.device kind) => .ok (.device kind)
      | .missing name => .ok (.file name .empty)

/-- The device that takes the bytes for a path, if one does. -/
def device? (d : Disk) (path : String) : Option Device :=
  match d.target path with
  | .ok (.device kind) => some kind
  | _ => none

/-- Sends bytes to a device. -/
def send (d : Disk) (content : ByteArray) : Device → Except DiskError Disk
  | .void => .ok d
  | .full => if content.isEmpty then .ok d else .error .noSpace
  | .output => .ok { d with printed := d.printed.output (Text.decodeLossy content.toList) }
  | .errors => .ok { d with printed := d.printed.error (Text.decodeLossy content.toList) }

/-- **Writes a file**, whatever it held before. -/
def write (d : Disk) (path : String) (content : ByteArray) : Except DiskError Disk :=
  match d.target path with
  | .error e => .error e
  | .ok (.file name _) => .ok (d.put name (.file content))
  | .ok (.device kind) => d.send content kind

/-- **Adds to the end of a file**, which is made if it is missing. -/
def append (d : Disk) (path : String) (content : ByteArray) : Except DiskError Disk :=
  match d.target path with
  | .error e => .error e
  | .ok (.file name old) => .ok (d.put name (.file (old ++ content)))
  | .ok (.device kind) => d.send content kind

/-- Whether the disk has an entry like a given one under its name. -/
def has (d : Disk) (name : List String) (entry : DiskEntry) : Bool :=
  match d.get? name with
  | some found => found.isSame entry
  | none => false

/-- The files of a disk, with their absolute names. -/
def files (d : Disk) : List (List String × ByteArray) :=
  d.entries.filterMap fun e =>
    match e.2 with
    | .file content => some (e.1, content)
    | _ => none

/-! ## Directories -/

/-- Makes one directory. -/
def createDirectory (d : Disk) (path : String) : Except DiskError Disk :=
  match d.findForCreation path with
  | .error e => .error e
  | .ok (.found _ _) => .error .alreadyExists
  | .ok (.missing name) => .ok (d.put name .directory)

/-- Makes one directory unless it is there. -/
def ensureDirectory (d : Disk) (path : String) : Except DiskError Unit × Disk :=
  match d.createDirectory path with
  | .ok d => (.ok (), d)
  | .error e => (if d.isDirectory path then .ok () else .error e, d)

/-- Whether a piece of a path makes no step. -/
def isIdle (piece : String) : Bool := piece = "" || piece = "."

/-- The pieces of the path above one, all in reverse: the last step is gone, and nothing idle is
left at the end. -/
def piecesAbove (pieces : List String) : List String :=
  ((pieces.dropWhile isIdle).drop 1).dropWhile isIdle

/-- The path of the directory that a path's last step stands in. -/
def parentPath (path : String) : String :=
  "/".intercalate (piecesAbove (path.splitOn "/").reverse).reverse

/-- Makes directories, given with those above them: the first, once the others are there. What was
made stays even if a later one fails. -/
def createAlong (d : Disk) : List String → Except DiskError Unit × Disk
  | [] => (.ok (), d)
  | path :: above =>
    match d.ensureDirectory path with
    | (.error .notFound, d) =>
      match createAlong d above with
      | (.error e, d) => (.error e, d)
      | (.ok (), d) => d.ensureDirectory path
    | (result, d) => (result, d)

/-- A path and all paths above it, as long as they have steps. -/
def ancestors : Nat → String → List String
  | 0, _ => []
  | n + 1, path => if path = "" then [] else path :: ancestors n (parentPath path)

/-- **Makes a directory and those above it** where they are missing. -/
def createDirectories (d : Disk) (path : String) : Except DiskError Unit × Disk :=
  d.createAlong (ancestors (path.length + 1) path)

/-- Makes the directory that a file is to stand in. -/
def createParent (d : Disk) (path : String) : Except DiskError Unit × Disk :=
  d.createDirectories (parentPath path)

end Disk

end Mgol
