/-! # Tables of ranges

Properties of code points given as tables of closed ranges.

* **`inRanges table n`** — some range of an ascending table holds `n`. -/

namespace Mgol.Text

/-- **Whether some range of an ascending table holds a number.** Past the number, none can. -/
def inRanges : List (Nat × Nat) → Nat → Bool
  | [], _ => false
  | r :: rest, n => if n < r.1 then false else n ≤ r.2 || inRanges rest n

end Mgol.Text
