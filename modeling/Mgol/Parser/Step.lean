import Mgol.Parser.Recovery

/-! # Moves of the parser

* **`ParseState.step`** — one move: a shift, a reduction, the acceptance, or an error with the
  recovery from it. -/

namespace Mgol

/-- **What a move leads to.** A parse is `abandoned` when a recovery found nothing to go on with. -/
inductive StepResult where
  | next (p : ParseState)
  | accepted (p : ParseState)
  | abandoned (p : ParseState)
  | failed (e : SyntaxError) (p : ParseState)

namespace ParseState

/-- The parse goes on after a shift: the token goes to the executor. -/
def finishShift (token : Spanned Token) (p : ParseState) : StepResult :=
  match p.executor.shift token with
  | .error e => .failed (.semantic e) p
  | .ok executor =>
    .next { p with
      executor
      trigger := none
      metrics := { p.metrics with shifts := p.metrics.shifts + 1 } }

/-- **Shifts the lookahead** and goes to a state. -/
def shift (p : ParseState) (target : Nat) : StepResult :=
  match p.states.push target with
  | .error e => .failed (.stack e) p
  | .ok states =>
    let token := p.lookahead
    match ({ p with states }).fetch with
    | (.error e, p) => .failed e p
    | (.ok _, p) => finishShift token p

/-- The state that a reduction uncovers and the stack with the state after it, or why there is
none. -/
def reducedStates (states : Stack Nat) (tables : DecisionTables) (rule : Rule) :
    Except SyntaxError (Stack Nat) :=
  match states.popMany rule.arity with
  | .error e => .error (.stack e)
  | .ok (_, states) =>
    match states.top? with
    | none => .error (.stack .empty)
    | some top =>
      match tables.goto top rule.left with
      | none => .error (.missingGoto top rule.left)
      | some target =>
        match states.push target with
        | .error e => .error (.stack e)
        | .ok states => .ok states

/-- Notes what has to be told of an error of a reduction. -/
def noteReduceError (p : ParseState) : SyntaxError → ParseState
  | .missingGoto state nonterminal => p.note (.missingGoto state nonterminal)
  | _ => p

/-- Runs the executor's part of a reduction. -/
def reduceValues (p : ParseState) (states : Stack Nat) (rule : Rule) : StepResult :=
  match p with
  | ⟨scanner, _, executor, lookahead, trigger, metrics, diagnostics, history⟩ =>
    let ((outcome, executor), scanner) := scanner.lend fun session =>
      let (outcome, executor, session) := executor.reduce rule lookahead.span.start session
      ((outcome, executor), session)
    match outcome with
    | .error e =>
      .failed (.semantic e)
        ⟨scanner, states, executor, lookahead, trigger, metrics, diagnostics, history⟩
    | .ok _ =>
      .next ⟨scanner, states, executor, lookahead, trigger,
        { metrics with reductions := metrics.reductions + 1 }, diagnostics, history⟩

/-- **Reduces by a rule.** -/
def reduce (p : ParseState) (tables : DecisionTables) (number : Nat) : StepResult :=
  match tables.rule number with
  | .error e => .failed (.grammar e) p
  | .ok rule =>
    match reducedStates p.states tables rule with
    | .error e => .failed e (p.noteReduceError e)
    | .ok states => p.reduceValues states rule

/-- **Deals with a lookahead that has no place here**: it is reported, unless that happened just
now, and the parser recovers. -/
def handleError (p : ParseState) (tables : DecisionTables) (state : Nat) (slot : Option Nat) :
    StepResult :=
  let start := p.lookahead.span.start
  let repeated := p.trigger = some start.offset
  let p := if repeated then p else p.report tables state slot
  match ({ p with trigger := some start.offset }).recover tables repeated with
  | .resumed p => .next p
  | .exhausted p => .abandoned (p.reportFailure start)
  | .failed e p => .failed e p

/-- **One move of the parser.** -/
def step (tables : DecisionTables) (o : SyntaxOptions) (p : ParseState) : StepResult :=
  match p.states.top? with
  | none => .failed (.stack .empty) p
  | some state =>
    match tables.action state p.lookahead.value.terminalName with
    | some (.shift target) => (p.trace o "Shift" state).shift target
    | some (.reduce rule) => (p.trace o "Reduce" state).reduce tables rule
    | some .accept => .accepted p
    | some (.error slot) => p.handleError tables state (some slot)
    | none => p.handleError tables state none

end ParseState

end Mgol
