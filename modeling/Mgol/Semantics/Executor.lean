import Mgol.Semantics.Actions

/-! # The executor

Runs the semantic actions beside the parser. Its value stack holds one value for every symbol that
the parser has seen: a shift puts a token on it, and a reduction replaces the values of the right
side by one for the left side.

* **`Executor.shift`, `Executor.reduce`, `Executor.truncate`** — what the parser does to it.
* **`Executor.program?`** — the program, unless an error was reported. -/

namespace Mgol

/-- **An executor**: the actions by rule number, the values, and the state of the actions. -/
structure Executor where
  actions : Nat → Option SemanticAction
  values : Stack (Spanned Token)
  work : SemanticState := {}

namespace Executor

/-- An executor whose rules have no actions. -/
def bare (capacity : Nat) : Executor := { actions := fun _ => none, values := .ofCapacity capacity }

/-- An executor with the actions of MGol. -/
def mgol (capacity : Nat) : Executor := { actions := mgolActions, values := .ofCapacity capacity }

/-- The executor with another action for a rule. -/
def register (e : Executor) (rule : Nat) (action : SemanticAction) : Executor :=
  { e with actions := fun n => if n = rule then some action else e.actions n }

/-- **Puts a token on the value stack.** -/
def shift (e : Executor) (t : Spanned Token) : Except SemanticError Executor :=
  match e.values.push t with
  | .ok values => .ok { e with values }
  | .error err => .error (.stack err)

/-- Runs the action of a reduction. Without one the left side has an empty value. -/
def perform (actions : Nat → Option SemanticAction) (r : Reduction) (c : ActionContext) :
    ActionResult :=
  match actions r.rule.number with
  | some action => action r c
  | none => (.ok r.empty, c)

/-- What a reduction gives: whether it succeeded, and the executor and session it leaves. -/
abbrev Result := Except SemanticError Unit × Executor × Session

/-- Puts the value of a reduction on the value stack. -/
def complete (actions : Nat → Option SemanticAction) (values : Stack (Spanned Token))
    (r : Reduction) : ActionResult → Result
  | (.error e, c) => (.error e, ⟨actions, values, c.work⟩, c.session)
  | (.ok value, c) =>
    let session := c.session.note (.actionRun r.rule.number value.lexeme)
    match values.push ⟨value, r.span⟩ with
    | .ok values => (.ok (), ⟨actions, values, c.work⟩, session)
    | .error e => (.error (.stack e), ⟨actions, values, c.work⟩, session)

/-- **Reduces by a rule**: takes off as many values as the right side has symbols, runs the action
of the rule, and puts the value of the left side on. -/
def reduce (e : Executor) (rule : Rule) (p : Position) (session : Session) : Result :=
  match e with
  | ⟨actions, values, work⟩ =>
    match values.popMany rule.arity with
    | .error _ =>
      (.error (.valueUnderflow rule.number rule.arity values.depth), ⟨actions, values, work⟩,
       session)
    | .ok (taken, values) =>
      let r : Reduction := ⟨rule, taken, p⟩
      complete actions values r (perform actions r ⟨work, session⟩)

/-- **Drops the values above the lowest `n`.** -/
def truncate (e : Executor) (n : Nat) : Executor := { e with values := e.values.truncate n }

/-- How many values there are. -/
def depth (e : Executor) : Nat := e.values.depth

/-- How many errors were reported. -/
def errorCount (e : Executor) : Nat := e.work.errorCount

/-- Whether an error was reported. -/
def hasErrors (e : Executor) : Bool := 0 < e.errorCount

/-- The errors recorded. -/
def diagnostics (e : Executor) : Array Diagnostic := e.work.diagnostics

/-- The executor with its diagnostics handed over. -/
def withoutDiagnostics (e : Executor) : Executor :=
  { e with work := { e.work with diagnostics := #[] } }

/-- **The program**, unless an error was reported. -/
def program? (e : Executor) : Option String :=
  if e.hasErrors then none else some e.work.code.program

end Executor

end Mgol
