/-! # Printouts

What a run shows on the console.

* **`Printout`** — the texts of the two streams.
* **`Printout.line`, `Printout.errorLine`, `Printout.error`** — add to one of them.
* **`Printout.append`** — one printout after another. -/

namespace Mgol

/-- **Texts for the two streams of the console.** -/
structure Printout where
  out : String := ""
  err : String := ""
  deriving DecidableEq, Repr

namespace Printout

/-- Adds a text to the output. -/
def output (p : Printout) (text : String) : Printout := { p with out := p.out ++ text }

/-- Adds a line to the output. -/
def line (p : Printout) (text : String) : Printout := p.output (text ++ "\n")

/-- Adds a text to the errors. -/
def error (p : Printout) (text : String) : Printout := { p with err := p.err ++ text }

/-- Adds a line to the errors. -/
def errorLine (p : Printout) (text : String) : Printout := p.error (text ++ "\n")

/-- **One printout after another.** -/
def append (p q : Printout) : Printout := (p.output q.out).error q.err

@[simp] theorem append_empty (p : Printout) : p.append {} = p := by
  simp [append, output, error]

@[simp] theorem empty_append (p : Printout) : append {} p = p := by
  simp [append, output, error]

end Printout

end Mgol
