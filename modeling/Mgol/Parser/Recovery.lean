import Mgol.Parser.State

/-! # Recovery from syntax errors

After an error the parser looks for a place to go on: the topmost state that can go on with the
lookahead. Where no state can, the lookahead is dropped and the next one is tried, until the input
or the patience is at its end.

* **`ParseState.resynchronize?`** — cuts the stacks to the topmost state that can go on.
* **`ParseState.recover`** — drops tokens until that works. -/

namespace Mgol

/-- **How a recovery ends**: with a lookahead to go on with, without one, or with an error that
stops the parse. -/
inductive Recovery where
  | resumed (p : ParseState)
  | exhausted (p : ParseState)
  | failed (e : SyntaxError) (p : ParseState)

namespace ParseState

/-- The states from the topmost on that can go on with a terminal, top first. -/
def viableStates (tables : DecisionTables) (terminal : GrammarSymbol) (states : List Nat) :
    List Nat :=
  states.dropWhile fun q => !tables.hasAction q terminal

/-- **Cuts the stacks to the topmost state that can go on** with the lookahead, if there is one,
after `dropped` tokens were dropped. -/
def resynchronize? (p : ParseState) (tables : DecisionTables) (dropped : Nat) :
    Option ParseState :=
  match viableStates tables p.lookahead.value.terminalName p.states.items with
  | [] => none
  | state :: below =>
    let p :=
      { p with
        states := p.states.withItems (state :: below)
        executor := p.executor.truncate below.length
        metrics := { p.metrics with recoveries := p.metrics.recoveries + 1 } }
    some (p.note (.recovered state p.lookahead.value.lexeme p.lookahead.span.start.line dropped))

/-- Counts the lookahead as dropped. -/
def dropLookahead (p : ParseState) : ParseState :=
  let p := p.note (.discarding p.lookahead.value.lexeme p.lookahead.span.start.line)
  { p with metrics := { p.metrics with discarded := p.metrics.discarded + 1 } }

/-- **Looks for a lookahead to go on with**, while `budget` more tokens may be dropped. -/
def search (tables : DecisionTables) : Nat → ParseState → Recovery
  | 0, p =>
    match p.resynchronize? tables Limits.recoveryScans with
    | some p => .resumed p
    | none => .exhausted p
  | budget + 1, p =>
    match p.resynchronize? tables (Limits.recoveryScans - (budget + 1)) with
    | some p => .resumed p
    | none =>
      if p.lookahead.value.isEndOfFile then .exhausted p
      else
        match p.dropLookahead.fetch with
        | (.error e, p) => .failed e p
        | (.ok _, p) => search tables budget p

/-- **Recovers from an error on the lookahead.** If `discard` is set, the lookahead is dropped
first. -/
def recover (p : ParseState) (tables : DecisionTables) (discard : Bool) : Recovery :=
  if discard then
    if p.lookahead.value.isEndOfFile then .exhausted p
    else
      match p.dropLookahead.fetch with
      | (.error e, p) => .failed e p
      | (.ok _, p) => search tables (Limits.recoveryScans - 1) p
  else search tables Limits.recoveryScans p

end ParseState

end Mgol
