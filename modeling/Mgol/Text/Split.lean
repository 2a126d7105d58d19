/-! # Splitting text

Cutting a text at a separator.

* **`splitOn sep cs`** — the parts between the separators, one more than there are separators.
* **`lines cs`** — the parts between line ends, without the empty part after a final line end. -/

namespace Mgol.Text

/-- One step of `splitOn`, taken from the right. -/
def splitStep (sep c : Char) (parts : List (List Char)) : List (List Char) :=
  if c = sep then [] :: parts
  else
    match parts with
    | [] => [[c]]
    | part :: rest => (c :: part) :: rest

/-- **The parts of a text between separators.** There is always at least one. -/
def splitOn (sep : Char) (cs : List Char) : List (List Char) :=
  cs.foldr (splitStep sep) [[]]

@[simp] theorem splitOn_nil (sep : Char) : splitOn sep [] = [[]] := rfl

@[simp] theorem splitOn_cons (sep c : Char) (cs : List Char) :
    splitOn sep (c :: cs) = splitStep sep c (splitOn sep cs) := rfl

/-- A text without one given character at its end. -/
def dropLastIf (c : Char) (cs : List Char) : List Char :=
  if cs.getLast? = some c then cs.dropLast else cs

/-- Cuts the parts of a text into its lines: every part but the last ended in a line feed, and
loses a carriage return right before it; an empty last part is no line. -/
def linesOfParts : List (List Char) → List (List Char)
  | [] => []
  | [last] => if last.isEmpty then [] else [last]
  | part :: rest => dropLastIf '\r' part :: linesOfParts rest

/-- **The lines of a text**, each without its line end. -/
def lines (cs : List Char) : List (List Char) :=
  linesOfParts (splitOn '\n' cs)

end Mgol.Text
