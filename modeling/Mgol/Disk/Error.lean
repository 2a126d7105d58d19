import Mgol.Text.Escaped

/-! # Failures of the disk

Why reading or writing a file failed.

* **`DiskError`** — the causes.
* **`DiskError.message`, `DiskError.inspect`** — a failure for people and in full detail. -/

namespace Mgol

/-- **Why the disk refused.** A `refused` write is one that a sink turned down with a text of its
own. -/
inductive DiskError where
  | notFound
  | notADirectory
  | isADirectory
  | alreadyExists
  | noSpace
  | nameTooLong
  | nulInName
  | invalidText
  | refused (message : String)
  deriving DecidableEq, Repr

namespace DiskError

/-- The number of a system failure, with the names of its kind and of its text. -/
def system? : DiskError → Option (Nat × String × String)
  | notFound => some (2, "NotFound", "No such file or directory")
  | alreadyExists => some (17, "AlreadyExists", "File exists")
  | notADirectory => some (20, "NotADirectory", "Not a directory")
  | isADirectory => some (21, "IsADirectory", "Is a directory")
  | noSpace => some (28, "StorageFull", "No space left on device")
  | nameTooLong => some (36, "InvalidFilename", "File name too long")
  | nulInName | invalidText | refused _ => none

/-- The text of a failure that does not come from the system. -/
def plainText : DiskError → String
  | nulInName => "file name contained an unexpected NUL byte"
  | invalidText => "stream did not contain valid UTF-8"
  | refused message => message
  | _ => ""

/-- **The failure for people.** -/
def message (e : DiskError) : String :=
  match e.system? with
  | some (number, _, text) => text ++ " (os error " ++ toString number ++ ")"
  | none => e.plainText

/-- **The failure in full detail.** -/
def inspect (e : DiskError) : String :=
  match e.system? with
  | some (number, kind, text) =>
    "Os \x7b code: " ++ toString number ++ ", kind: " ++ kind ++ ", message: " ++ Text.quote text
      ++ " \x7d"
  | none =>
    match e with
    | nulInName =>
      "Error \x7b kind: InvalidInput, message: " ++ Text.quote e.plainText ++ " \x7d"
    | invalidText =>
      "Error \x7b kind: InvalidData, message: " ++ Text.quote e.plainText ++ " \x7d"
    | _ => "Custom \x7b kind: Other, error: " ++ Text.quote e.plainText ++ " \x7d"

end DiskError

end Mgol
