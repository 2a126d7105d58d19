import Mgol.Registry
import Mgol.Report.Journal

/-! # Sessions

What the parts of the compiler share during one compilation: the names of the program and the
notes taken so far. -/

namespace Mgol

/-- **The shared state of one compilation.** -/
structure Session where
  registry : Registry := .reserved
  journal : Journal := {}

namespace Session

/-- The session with one more note. -/
def note (s : Session) (n : Note) : Session := { s with journal := s.journal.note n }

/-- Taking a note leaves the names alone. -/
@[simp] theorem registry_note (s : Session) (n : Note) : (s.note n).registry = s.registry := rfl

end Session

end Mgol
