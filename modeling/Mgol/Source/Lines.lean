import Mgol.Source.Position
import Mgol.Text.Split

/-! # Source lines

A source text cut into lines, for showing an error in place.

* **`SourceLines.line? n`** — the `n`th line without its line end.
* **`SourceLines.showError p message`** — message and place, then the line with a caret under the
  column. -/

namespace Mgol

/-- **A source text, line by line.** -/
structure SourceLines where
  lines : Array (List Char)

namespace SourceLines

/-- Cuts a text at its line feeds. -/
def ofText (text : String) : SourceLines :=
  ⟨(Text.splitOn '\n' text.toList).toArray⟩

/-- Line `n`, counted from one, without its line end. -/
def line? (s : SourceLines) (n : Nat) : Option String :=
  match n with
  | 0 => none
  | k + 1 => (s.lines[k]?).map fun cs => String.ofList (Text.dropLastIf '\r' cs)

/-- `n` spaces. -/
def blanks (n : Nat) : String :=
  String.ofList (List.replicate n ' ')

/-- **An error in its place**: the message, the position, and if the line exists the line with a
caret below the column. -/
def showError (s : SourceLines) (p : Position) (message : String) : String :=
  let heading := "error: " ++ message ++ "\n  --> " ++ p.text ++ "\n"
  match s.line? p.line with
  | none => heading
  | some text =>
    let number := toString p.line
    let gutter := blanks number.length
    heading ++ gutter ++ " |\n" ++ number ++ " | " ++ text ++ "\n"
      ++ gutter ++ " | " ++ blanks (p.column - 1) ++ "^\n"

end SourceLines

end Mgol
