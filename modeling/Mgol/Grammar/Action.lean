import Mgol.Text.Decimal

/-! # Actions of the parser

What an action table holds in its cells.

* **`Action`** — shift, reduce, accept, or an error slot.
* **`Action.cell`, `Action.ofCell`** — an action as the text of a cell, and back. -/

namespace Mgol

/-- **A move of the parser.** An error slot holds the number of a category. -/
inductive Action where
  | shift (state : Nat)
  | reduce (rule : Nat)
  | accept
  | error (slot : Nat)
  deriving DecidableEq, Repr

/-- What is wrong with the text of a cell. -/
inductive CellFault where
  | action (cell : String)
  | slot (cell : String)
  | target (cell : String)
  deriving DecidableEq, Repr

/-- The text of a cell fault. -/
def CellFault.message : CellFault → String
  | action cell => "invalid action cell '" ++ cell ++ "'"
  | slot cell => "invalid error slot '" ++ cell ++ "'"
  | target cell => "invalid goto cell '" ++ cell ++ "'"

namespace Action

/-- Whether the parser can go on with the action. -/
def isViable : Action → Bool
  | error _ => false
  | _ => true

/-- **The text of an action in a cell.** -/
def cell : Action → String
  | shift state => "s" ++ toString state
  | reduce rule => "r" ++ toString rule
  | accept => "acc"
  | error slot => "e" ++ toString slot

/-- **Reads the text of a cell.** -/
def ofCell (cell : String) : Except CellFault Action :=
  if cell = "acc" then .ok accept
  else
    match cell.toList with
    | 's' :: digits =>
      match Text.readBounded? Text.wordMax digits with
      | some state => .ok (shift state)
      | none => .error (.action cell)
    | 'r' :: digits =>
      match Text.readBounded? Text.wordMax digits with
      | some rule => .ok (reduce rule)
      | none => .error (.action cell)
    | 'e' :: digits =>
      match Text.readBounded? Text.slotMax digits with
      | some slot => .ok (error slot)
      | none => .error (.slot cell)
    | _ => .error (.action cell)

/-- The action in full detail. -/
def inspect : Action → String
  | shift state => "Shift(" ++ toString state ++ ")"
  | reduce rule => "Reduce(" ++ toString rule ++ ")"
  | accept => "Accept"
  | error slot => "Error(" ++ toString slot ++ ")"

end Action

end Mgol
