/-! # Paths

File paths as texts with slashes, and their parts.

* **`PathPart`, `pathParts`** — the steps that a path names; doubled slashes and inner single dots
  name none.
* **`comparePaths`** — the order of paths, part by part.
* **`joinPath`, `extension?`** — the everyday operations on paths. -/

namespace Mgol

/-- **One step of a path.** -/
inductive PathPart where
  | root
  | here
  | up
  | name (s : String)
  deriving DecidableEq, Repr

namespace PathPart

/-- Kinds of steps in ascending order. -/
def rank : PathPart → Nat
  | root => 0
  | here => 1
  | up => 2
  | name _ => 3

/-- The order of two steps. -/
def order : PathPart → PathPart → Ordering
  | name a, name b => compare a b
  | a, b => compare a.rank b.rank

end PathPart

/-- The pieces of a path between its slashes. -/
def pathPieces (path : String) : List String :=
  path.splitOn "/"

/-- The step named by a piece of a path, for a piece that is not its first. -/
def innerPart (piece : String) : Option PathPart :=
  if piece = "" then none
  else if piece = "." then none
  else if piece = ".." then some .up
  else some (.name piece)

/-- **The steps of a path.** A leading slash is the root, and a single dot counts only at the
start. -/
def pathParts (path : String) : List PathPart :=
  match pathPieces path with
  | [] => []
  | first :: rest =>
    let tail := rest.filterMap innerPart
    if first = "" then (if rest.isEmpty then [] else .root :: tail)
    else if first = "." then .here :: tail
    else (innerPart first).toList ++ tail

/-- The order of two lists of steps: the first difference decides, and a beginning comes first. -/
def compareParts : List PathPart → List PathPart → Ordering
  | [], [] => .eq
  | [], _ :: _ => .lt
  | _ :: _, [] => .gt
  | a :: as, b :: bs => (a.order b).then (compareParts as bs)

/-- **The order of two paths.** -/
def comparePaths (a b : String) : Ordering :=
  compareParts (pathParts a) (pathParts b)

/-- The path of a file in a directory. -/
def joinPath (dir file : String) : String :=
  if dir = "" then file
  else if dir.endsWith "/" then dir ++ file
  else dir ++ "/" ++ file

/-- The text after the last dot of a file name, unless that dot begins the name. -/
def extension? (file : String) : Option String :=
  match file.toList.reverse.span (· ≠ '.') with
  | (_, []) => none
  | (_, [_]) => none
  | (after, _ :: _ :: _) => some (String.ofList after.reverse)

end Mgol
