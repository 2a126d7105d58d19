import Mgol.Grammar.Rule
import Mgol.Report.Diagnostic
import Mgol.Session
import Mgol.Target.Buffer

/-! # What semantic actions work on

* **`Reduction`** — the values that a reduction took off, and where it happened.
* **`SemanticState`** — the program written so far, the declaration in progress, and the errors
  found.
* **`ActionContext`** — the state together with the session, with what actions do to it:
  `report`, `lookup`, `declare`, `emit`. -/

namespace Mgol

open Target

/-- **A reduction**: its rule, the values of the right side from left to right, and the place the
parser had come to. -/
structure Reduction where
  rule : Rule
  values : List (Spanned Token)
  position : Position

namespace Reduction

/-- The value of a symbol of the right side. -/
def token (r : Reduction) (index : Nat) : Except SemanticError Token :=
  match r.values[index]? with
  | some v => .ok v.value
  | none => .error (.valueUnderflow r.rule.number (index + 1) r.values.length)

/-- Where a symbol of the right side starts. -/
def positionOf (r : Reduction) (index : Nat) : Position :=
  match r.values[index]? with
  | some v => v.span.start
  | none => r.position

/-- The value that says nothing but the name of the left side. -/
def empty (r : Reduction) : Token := .ofNonterminal r.rule.left

/-- The part of the source that the values cover. -/
def span (r : Reduction) : Span := .cover r.position (r.values.map Spanned.span)

end Reduction

/-- **The state of the semantic actions.** The pending names are those of the declaration in
progress, from left to right; the comparisons of the open loops stand with the innermost first. -/
structure SemanticState where
  code : CodeBuffer := {}
  pendingType : DataType := .untyped
  pendingNames : List String := []
  lastRelational : Option Statement := none
  openLoops : List (Option Statement) := []
  diagnostics : Array Diagnostic := #[]
  errorCount : Nat := 0

/-- **The state and the session** that an action works on. -/
structure ActionContext where
  work : SemanticState
  session : Session

namespace ActionContext

/-- The context with one more note. -/
def note (c : ActionContext) (n : Note) : ActionContext := { c with session := c.session.note n }

/-- The context with one more error counted. -/
def countError (c : ActionContext) : ActionContext :=
  { c with work := { c.work with errorCount := c.work.errorCount + 1 } }

/-- The context with one more diagnostic. -/
def record (c : ActionContext) (d : Diagnostic) : ActionContext :=
  { c with work := { c.work with diagnostics := c.work.diagnostics.push d } }

/-- **Reports an error of the program.** Past a limit errors are only counted, which is noted
once. -/
def report (c : ActionContext) (code : Code) (message : String) (p : Position) (lexeme : String) :
    ActionContext :=
  let c := c.countError.note (.semanticError code message p lexeme)
  if c.work.diagnostics.size < Limits.semanticErrors then
    c.record { kind := .semantic, code, message, position := p, lexeme := some lexeme }
  else if c.work.errorCount = Limits.semanticErrors + 1 then
    c.note (.semanticLimit Limits.semanticErrors)
  else c

/-- **The type of a name**, which is an error if it has none. -/
def lookup (c : ActionContext) (id : Token) (p : Position) : DataType × ActionContext :=
  let type := c.session.registry.typeOf id.lexeme
  if type = .untyped then
    (type, c.report .undeclaredIdentifier ("Variable '" ++ id.lexeme ++ "' not declared") p
      id.lexeme)
  else (type, c)

/-- Gives a name the type of the declaration in progress. -/
def setPendingType (c : ActionContext) (lexeme : String) : Except SemanticError ActionContext :=
  match c.session.registry.setType lexeme c.work.pendingType with
  | .error e => .error (.registry e)
  | .ok registry =>
    .ok { work := { c.work with pendingNames := lexeme :: c.work.pendingNames }
          session := { c.session with registry } }

/-- **Declares a name.** A name that has a type already is an error of the program. -/
def declare (c : ActionContext) (id : Token) (p : Position) :
    Except SemanticError ActionContext :=
  let type := c.session.registry.typeOf id.lexeme
  if type ≠ .untyped then
    .ok (c.report .redeclaration
      ("Variable '" ++ id.lexeme ++ "' already declared as " ++ type.text) p id.lexeme)
  else if c.work.pendingType ≠ .untyped then c.setPendingType id.lexeme
  else .ok c

/-- Writes a statement. -/
def emit (c : ActionContext) (s : Statement) : ActionContext :=
  { c with work := { c.work with code := c.work.code.emit s } }

/-- Adds a temporary. -/
def addTemporary (c : ActionContext) (kind : TemporaryKind) : ActionContext :=
  { c with work := { c.work with code := c.work.code.addTemporary kind } }

/-- Opens a block. -/
def openBlock (c : ActionContext) (h : Header) : ActionContext :=
  { c with work := { c.work with code := c.work.code.openBlock h } }

/-- Closes a block. -/
def closeBlock (c : ActionContext) : ActionContext :=
  { c with work := { c.work with code := c.work.code.closeBlock } }

end ActionContext

/-- What an action gives: the value of the left side, or why the parse has to stop; and in either
case the context it leaves. -/
abbrev ActionResult := Except SemanticError Token × ActionContext

/-- **A semantic action.** -/
abbrev SemanticAction := Reduction → ActionContext → ActionResult

/-- Goes on with the value of a symbol of the right side. -/
@[inline] def Reduction.withToken (r : Reduction) (index : Nat) (c : ActionContext)
    (next : Token → ActionResult) : ActionResult :=
  match r.token index with
  | .error e => (.error e, c)
  | .ok t => next t

end Mgol
