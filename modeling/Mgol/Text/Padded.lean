/-! # Padded text

Fitting a text into a column. A precision cuts the text first; a width then fills it up, counted
in characters.

* **`Alignment`** — on which side the text stands.
* **`Column`, `Column.write`** — a column and the text written into it. -/

namespace Mgol.Text

/-- Where the text stands in its column. -/
inductive Alignment where
  | left
  | right
  | centre
  deriving DecidableEq, Repr

/-- **A column**: its least width, the most characters it shows, its fill and its alignment. -/
structure Column where
  width : Nat := 0
  precision : Option Nat := none
  fill : Char := ' '
  alignment : Alignment := .left

namespace Column

/-- The characters that a column shows of a text. -/
def shown (c : Column) (text : List Char) : List Char :=
  match c.precision with
  | some n => text.take n
  | none => text

/-- Fill on the left of the text, out of `room` places; an odd place of a centred text goes to
the right. -/
def leftFill (c : Column) (room : Nat) : Nat :=
  match c.alignment with
  | .left => 0
  | .right => room
  | .centre => room / 2

/-- **Writes a text into the column.** -/
def write (c : Column) (text : String) : String :=
  let body := c.shown text.toList
  let room := c.width - body.length
  let before := c.leftFill room
  String.ofList
    (List.replicate before c.fill ++ body ++ List.replicate (room - before) c.fill)

end Column

/-- A text filled with spaces on the right to at least `width` characters. -/
def padRight (width : Nat) (text : String) : String :=
  Column.write { width } text

end Mgol.Text
