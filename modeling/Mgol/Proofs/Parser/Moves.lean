import Mgol.Parser.Basic
import Mgol.Proofs.Scanner.Scan
import Mathlib.Logic.Relation

/-! # Moves of the parser

What a move can do, said once: every property of a parse is derived from this.

* **`ParseState.Drops`, `ParseState.recover_effect`** — what a recovery drops, and how it ends.
* **`ParseState.Effect`, `ParseState.step_effect`** — what a move does.
* **`ParseState.run_induction`** — what every move keeps holds at the end of a run. -/

namespace Mgol

/-- The scanner with other notes. -/
def Scanner.withJournal (s : Scanner) (j : Journal) : Scanner :=
  { s with session := { s.session with journal := j } }

namespace ParseState

/-- The terminal that the lookahead is looked up under. -/
def terminal (p : ParseState) : GrammarSymbol := p.lookahead.value.terminalName

/-- Whether the latest recovery was from the lookahead, with no token shifted since. -/
def repeated (p : ParseState) : Bool := p.trigger = some p.lookahead.span.start.offset

/-- The state that recovers from an error on the lookahead, after it was reported. -/
def alarmed (p : ParseState) (tables : DecisionTables) (state : Nat) (slot : Option Nat) :
    ParseState :=
  { (if p.repeated then p else p.report tables state slot) with
    trigger := some p.lookahead.span.start.offset }

/-- A report takes a note and adds one syntax error. -/
theorem report_eq (p : ParseState) (tables : DecisionTables) (state : Nat) (slot : Option Nat) :
    ∃ j d metrics history, d.kind = .syntactic ∧ p.report tables state slot =
      { p with
        scanner := p.scanner.withJournal j, diagnostics := p.diagnostics.push d
        metrics, history } := by
  let category := categoryOf p.lookahead.value slot
  exact ⟨_, ⟨.syntactic, category.code, errorMessage p.lookahead.value category,
    p.lookahead.span.start, some p.lookahead.value.lexeme⟩, _, _, rfl, rfl⟩

/-- What an alarm changes: notes, the trigger and what is told of the error. -/
theorem alarmed_eq (p : ParseState) (tables : DecisionTables) (state : Nat) (slot : Option Nat) :
    ∃ j metrics history diagnostics,
      (p.repeated = true ∧ diagnostics = p.diagnostics ∨
        ∃ d, d.kind = .syntactic ∧ diagnostics = p.diagnostics.push d) ∧
      p.alarmed tables state slot =
        { p with
          scanner := p.scanner.withJournal j
          trigger := some p.lookahead.span.start.offset
          diagnostics, metrics, history } := by
  unfold alarmed
  by_cases hrepeated : p.repeated = true
  · refine ⟨p.scanner.session.journal, p.metrics, p.history, _, .inl ⟨hrepeated, rfl⟩, ?_⟩
    rw [if_pos hrepeated]
    rfl
  · obtain ⟨j, d, metrics, history, hkind, heq⟩ := p.report_eq tables state slot
    refine ⟨j, metrics, history, _, .inr ⟨d, hkind, rfl⟩, ?_⟩
    rw [if_neg hrepeated, heq]

/-- What is cut where a recovery goes on. -/
theorem resynchronize?_eq {p p' : ParseState} {tables : DecisionTables} {n : Nat}
    (h : p.resynchronize? tables n = some p') :
    ∃ j states values metrics, p' =
      { p with
        scanner := p.scanner.withJournal j, states, metrics
        executor := { p.executor with values } } := by
  unfold resynchronize? at h
  split at h
  · cases h
  · exact ⟨_, _, _, _, (Option.some.inj h).symm⟩

/-! ## Recoveries -/

/-- **The lookahead is dropped** for the next one. -/
inductive Drops (p : ParseState) : ParseState → Prop
  | drop {j : Journal} {t : Spanned Token} {s : Scanner}
      (more : p.lookahead.value.isEndOfFile = false)
      (found : (p.scanner.withJournal j).nextVisible = (.ok t, s)) :
      Drops p
        { p with
          scanner := s, lookahead := t
          metrics := { p.metrics with discarded := p.metrics.discarded + 1 } }

/-- The next lookahead cannot be had, for a reason. -/
def Stuck (p : ParseState) (e : SyntaxError) : Prop :=
  ∃ j e' s, (p.scanner.withJournal j).nextVisible = (.error e', s) ∧ e = .lexical e'

/-- Dropping the lookahead gives the next one, or stops the parse. -/
theorem fetch_dropLookahead {p : ParseState} (more : p.lookahead.value.isEndOfFile = false) :
    (∃ t p', p.dropLookahead.fetch = (.ok t, p') ∧ p.Drops p') ∨
      ∃ e p', p.dropLookahead.fetch = (.error e, p') ∧ p.Stuck e := by
  let j := (p.scanner.note (.discarding p.lookahead.value.lexeme
    p.lookahead.span.start.line)).session.journal
  rcases hfound : (p.scanner.withJournal j).nextVisible with ⟨⟨e⟩ | ⟨t⟩, s⟩
  · have hdropped : (p.scanner.note (.discarding p.lookahead.value.lexeme
        p.lookahead.span.start.line)).nextVisible = (.error e, s) := hfound
    refine .inr ⟨.lexical e, { p.dropLookahead with scanner := s }, ?_, j, e, s, hfound, rfl⟩
    unfold fetch
    simp only [dropLookahead, note]
    rw [hdropped]
  · have hdropped : (p.scanner.note (.discarding p.lookahead.value.lexeme
        p.lookahead.span.start.line)).nextVisible = (.ok t, s) := hfound
    refine .inl ⟨t, _, ?_, .drop more hfound⟩
    unfold fetch
    simp only [dropLookahead, note]
    rw [hdropped]

/-- **How a recovery ends** that has dropped some lookaheads. -/
inductive Recovered (tables : DecisionTables) (p : ParseState) : Recovery → Prop
  | resumed {q p' : ParseState} {n : Nat} (dropped : Relation.ReflTransGen Drops p q)
      (synchronized : q.resynchronize? tables n = some p') : Recovered tables p (.resumed p')
  | exhausted {q : ParseState} (dropped : Relation.ReflTransGen Drops p q) :
      Recovered tables p (.exhausted q)
  | failed {q p' : ParseState} {e : SyntaxError} (dropped : Relation.ReflTransGen Drops p q)
      (stuck : q.Stuck e) : Recovered tables p (.failed e p')

/-- A recovery may drop one lookahead more at its beginning. -/
theorem Recovered.head {tables : DecisionTables} {p q : ParseState} {r : Recovery}
    (hd : p.Drops q) (h : Recovered tables q r) : Recovered tables p r := by
  cases h with
  | resumed dropped synchronized => exact .resumed (.head hd dropped) synchronized
  | exhausted dropped => exact .exhausted (.head hd dropped)
  | failed dropped stuck => exact .failed (.head hd dropped) stuck

/-- A search drops lookaheads until it ends. -/
theorem search_effect (tables : DecisionTables) (budget : Nat) (p : ParseState) :
    Recovered tables p (search tables budget p) := by
  induction budget generalizing p with
  | zero =>
    rw [search]
    split
    · next hsync => exact .resumed .refl hsync
    · exact .exhausted .refl
  | succ budget ih =>
    rw [search]
    split
    · next hsync => exact .resumed .refl hsync
    · by_cases hend : p.lookahead.value.isEndOfFile = true
      · rw [if_pos hend]
        exact .exhausted .refl
      · rw [if_neg hend]
        -- the lookahead is dropped, and the search goes on from the next token
        rcases fetch_dropLookahead (Bool.eq_false_iff.mpr hend) with ⟨t, q, hfetch, hdrops⟩ |
          ⟨e, q, hfetch, hstuck⟩
        · rw [hfetch]
          exact (ih q).head hdrops
        · rw [hfetch]
          exact .failed .refl hstuck

/-- **What a recovery does.** If the lookahead has to be dropped, that comes first, and at the end
of the input there is nothing to go on with. -/
theorem recover_effect (tables : DecisionTables) (p : ParseState) (discard : Bool) :
    Recovered tables p (p.recover tables discard) ∧
      (discard = true → p.recover tables discard = .exhausted p ∨
        (∃ q, p.Drops q ∧ Recovered tables q (p.recover tables discard)) ∨
        ∃ e q, p.recover tables discard = .failed e q) := by
  unfold recover
  by_cases hdiscard : discard = true
  · rw [if_pos hdiscard]
    by_cases hend : p.lookahead.value.isEndOfFile = true
    · rw [if_pos hend]
      exact ⟨.exhausted .refl, fun _ => .inl rfl⟩
    · rw [if_neg hend]
      rcases fetch_dropLookahead (Bool.eq_false_iff.mpr hend) with ⟨t, q, hfetch, hdrops⟩ |
        ⟨e, q, hfetch, hstuck⟩
      · rw [hfetch]
        -- the token that was dropped counts as one of the scans
        have hsearch := search_effect tables (Limits.recoveryScans - 1) q
        exact ⟨hsearch.head hdrops, fun _ => .inr (.inl ⟨q, hdrops, hsearch⟩)⟩
      · rw [hfetch]
        exact ⟨.failed .refl hstuck, fun _ => .inr (.inr ⟨e, q, rfl⟩)⟩
  · rw [if_neg hdiscard]
    exact ⟨search_effect tables _ p, fun h => absurd h hdiscard⟩

/-! ## Moves -/

/-- **What a move does**, by the cell of the action table. -/
inductive Effect (tables : DecisionTables) (p : ParseState) : StepResult → Prop
  | empty (items : p.states.items = []) : Effect tables p (.failed (.stack .empty) p)
  | accept {q : Nat} {below : List Nat} (items : p.states.items = q :: below)
      (cell : tables.action q p.terminal = some .accept) : Effect tables p (.accepted p)
  | full {q target : Nat} {below : List Nat} {e : StackError} {p' : ParseState}
      (items : p.states.items = q :: below)
      (cell : tables.action q p.terminal = some (.shift target))
      (pushed : p.states.push target = .error e) : Effect tables p (.failed (.stack e) p')
  | unread {q target : Nat} {below : List Nat} {states : Stack Nat} {e : SyntaxError}
      {p' : ParseState} (items : p.states.items = q :: below)
      (cell : tables.action q p.terminal = some (.shift target))
      (pushed : p.states.push target = .ok states) (stuck : p.Stuck e) :
      Effect tables p (.failed e p')
  | unkept {q target : Nat} {below : List Nat} {states : Stack Nat} {e : StackError}
      {p' : ParseState} (items : p.states.items = q :: below)
      (cell : tables.action q p.terminal = some (.shift target))
      (pushed : p.states.push target = .ok states)
      (kept : p.executor.values.push p.lookahead = .error e) :
      Effect tables p (.failed (.semantic (.stack e)) p')
  | shift {q target : Nat} {below : List Nat} {states : Stack Nat}
      {values : Stack (Spanned Token)} {j : Journal} {t : Spanned Token} {s : Scanner}
      (items : p.states.items = q :: below)
      (cell : tables.action q p.terminal = some (.shift target))
      (pushed : p.states.push target = .ok states)
      (found : (p.scanner.withJournal j).nextVisible = (.ok t, s))
      (kept : p.executor.values.push p.lookahead = .ok values) :
      Effect tables p (.next
        { p with
          scanner := s, states, lookahead := t, trigger := none
          executor := { p.executor with values }
          metrics := { p.metrics with shifts := p.metrics.shifts + 1 } })
  | unknown {q n : Nat} {below : List Nat} {e : GrammarError} {p' : ParseState}
      (items : p.states.items = q :: below)
      (cell : tables.action q p.terminal = some (.reduce n)) (missing : tables.rule n = .error e) :
      Effect tables p (.failed (.grammar e) p')
  | unreduced {q n : Nat} {below : List Nat} {r : Rule} {e : SyntaxError} {p' : ParseState}
      (items : p.states.items = q :: below)
      (cell : tables.action q p.terminal = some (.reduce n)) (rule : tables.rule n = .ok r)
      (reduced : reducedStates p.states tables r = .error e) : Effect tables p (.failed e p')
  | refused {q n : Nat} {below : List Nat} {r : Rule} {states : Stack Nat} {j : Journal}
      {e : SemanticError} {executor : Executor} {session : Session} {p' : ParseState}
      (items : p.states.items = q :: below)
      (cell : tables.action q p.terminal = some (.reduce n)) (rule : tables.rule n = .ok r)
      (reduced : reducedStates p.states tables r = .ok states)
      (run : p.executor.reduce r p.lookahead.span.start ⟨p.scanner.registry, j⟩ =
        (.error e, executor, session)) : Effect tables p (.failed (.semantic e) p')
  | reduce {q n : Nat} {below : List Nat} {r : Rule} {states : Stack Nat} {j : Journal}
      {executor : Executor} {session : Session}
      (items : p.states.items = q :: below)
      (cell : tables.action q p.terminal = some (.reduce n)) (rule : tables.rule n = .ok r)
      (reduced : reducedStates p.states tables r = .ok states)
      (run : p.executor.reduce r p.lookahead.span.start ⟨p.scanner.registry, j⟩ =
        (.ok (), executor, session)) :
      Effect tables p (.next
        { p with
          scanner := { p.scanner with session }, states, executor
          metrics := { p.metrics with reductions := p.metrics.reductions + 1 } })
  | resumed {q : Nat} {below : List Nat} {slot : Option Nat} {p' : ParseState}
      (items : p.states.items = q :: below) (cell : tables.hasAction q p.terminal = false)
      (recovered : (p.alarmed tables q slot).recover tables p.repeated = .resumed p') :
      Effect tables p (.next p')
  | abandoned {q : Nat} {below : List Nat} {slot : Option Nat} {p' : ParseState}
      (items : p.states.items = q :: below) (cell : tables.hasAction q p.terminal = false)
      (recovered : (p.alarmed tables q slot).recover tables p.repeated = .exhausted p') :
      Effect tables p (.abandoned (p'.reportFailure p.lookahead.span.start))
  | lost {q : Nat} {below : List Nat} {slot : Option Nat} {e : SyntaxError} {p' : ParseState}
      (items : p.states.items = q :: below) (cell : tables.hasAction q p.terminal = false)
      (recovered : (p.alarmed tables q slot).recover tables p.repeated = .failed e p') :
      Effect tables p (.failed e p')

/-- Noting a move changes notes alone. -/
theorem trace_eq (p : ParseState) (o : SyntaxOptions) (move : String) (state : Nat) :
    ∃ j, p.trace o move state = { p with scanner := p.scanner.withJournal j } := by
  unfold trace
  split
  · exact ⟨_, rfl⟩
  · exact ⟨p.scanner.session.journal, rfl⟩

/-- What a shift does. -/
theorem shift_effect {tables : DecisionTables} {p : ParseState} {q target : Nat}
    {below : List Nat} (items : p.states.items = q :: below)
    (cell : tables.action q p.terminal = some (.shift target)) (j : Journal) :
    Effect tables p
      (ParseState.shift { p with scanner := p.scanner.withJournal j } target) := by
  unfold shift
  cases hpush : p.states.push target with
  | error e => exact .full items cell hpush
  | ok states =>
    simp only [fetch]
    rcases hfound : (p.scanner.withJournal j).nextVisible with ⟨⟨e⟩ | ⟨t⟩, s⟩
    · exact .unread items cell hpush ⟨j, e, s, hfound, rfl⟩
    · simp only [finishShift, Executor.shift]
      cases hkept : p.executor.values.push p.lookahead with
      | error e => exact .unkept items cell hpush hkept
      | ok values => exact .shift items cell hpush hfound hkept

/-- What a reduction does. -/
theorem reduce_effect {tables : DecisionTables} {p : ParseState} {q n : Nat}
    {below : List Nat} (items : p.states.items = q :: below)
    (cell : tables.action q p.terminal = some (.reduce n)) (j : Journal) :
    Effect tables p
      (ParseState.reduce { p with scanner := p.scanner.withJournal j } tables n) := by
  unfold reduce
  cases hrule : tables.rule n with
  | error e => exact .unknown items cell hrule
  | ok r =>
    simp only
    cases hstates : reducedStates p.states tables r with
    | error e => exact .unreduced items cell hrule hstates
    | ok states =>
      simp only [reduceValues, Scanner.lend, Scanner.withJournal]
      rcases hrun : p.executor.reduce r p.lookahead.span.start
        ⟨p.scanner.session.registry, j⟩ with ⟨⟨e⟩ | ⟨⟨⟩⟩, executor, session⟩
      · exact .refused items cell hrule hstates hrun
      · exact .reduce items cell hrule hstates hrun

/-- An error on the lookahead is reported, and then recovered from. -/
theorem handleError_eq (p : ParseState) (tables : DecisionTables) (q : Nat) (slot : Option Nat) :
    p.handleError tables q slot =
      match (p.alarmed tables q slot).recover tables p.repeated with
      | .resumed p' => .next p'
      | .exhausted p' => .abandoned (p'.reportFailure p.lookahead.span.start)
      | .failed e p' => .failed e p' := by
  cases h : (p.alarmed tables q slot).recover tables p.repeated <;>
    simp only [alarmed, repeated, decide_eq_true_eq] at h <;>
    simp only [handleError, h]

/-- What an error on the lookahead does. -/
theorem handleError_effect {tables : DecisionTables} {p : ParseState} {q : Nat}
    {below : List Nat} (items : p.states.items = q :: below)
    (cell : tables.hasAction q p.terminal = false) (slot : Option Nat) :
    Effect tables p (p.handleError tables q slot) := by
  rw [handleError_eq]
  cases hrecover : (p.alarmed tables q slot).recover tables p.repeated with
  | resumed p' => exact .resumed items cell hrecover
  | exhausted p' => exact .abandoned items cell hrecover
  | failed e p' => exact .lost items cell hrecover

/-- **A move does one of these things.** -/
theorem step_effect (tables : DecisionTables) (o : SyntaxOptions) (p : ParseState) :
    Effect tables p (p.step tables o) := by
  unfold step Stack.top?
  cases hitems : p.states.items with
  | nil => exact .empty hitems
  | cons q below =>
    have hterminal : p.lookahead.value.terminalName = p.terminal := rfl
    simp only [List.head?_cons, hterminal]
    cases hcell : tables.action q p.terminal with
    | none =>
      refine handleError_effect hitems ?_ none
      have : tables.actions.action q p.terminal = none := hcell
      simp [DecisionTables.hasAction, ActionTable.hasAction, this]
    | some a =>
      cases a with
      | shift target =>
        obtain ⟨j, hj⟩ := p.trace_eq o "Shift" q
        simp only [hj]
        exact shift_effect hitems hcell j
      | reduce n =>
        obtain ⟨j, hj⟩ := p.trace_eq o "Reduce" q
        simp only [hj]
        exact reduce_effect hitems hcell j
      | accept => exact .accept hitems hcell
      | error slot =>
        refine handleError_effect hitems ?_ (some slot)
        have : tables.actions.action q p.terminal = some (.error slot) := hcell
        simp [DecisionTables.hasAction, ActionTable.hasAction, this, Action.isViable]

/-- A parse is accepted as it stands. -/
theorem eq_of_accepted {tables : DecisionTables} {o : SyntaxOptions} {p p' : ParseState}
    (h : p.step tables o = .accepted p') : p' = p := by
  have heffect := step_effect tables o p
  rw [h] at heffect
  cases heffect
  rfl

/-! ## Runs -/

/-- How a run ends: by its last move, in a state that was reached by moves, or for want of moves. -/
inductive Ended (tables : DecisionTables) (o : SyntaxOptions) (p : ParseState) : ParseEnd → Prop
  | unfinished : Ended tables o p (.failed .unfinished p)
  | accepted {p' : ParseState} (last : p.step tables o = .accepted p') :
      Ended tables o p (.accepted p')
  | abandoned {p' : ParseState} (last : p.step tables o = .abandoned p') :
      Ended tables o p (.abandoned p')
  | failed {e : SyntaxError} {p' : ParseState} (last : p.step tables o = .failed e p') :
      Ended tables o p (.failed e p')

/-- **What every move keeps holds when a run ends.** -/
theorem run_induction (tables : DecisionTables) (o : SyntaxOptions) (Inv : ParseState → Prop)
    (hstep : ∀ p p', Inv p → p.step tables o = .next p' → Inv p') (n : Nat) {p : ParseState}
    (hp : Inv p) : ∃ q, Inv q ∧ Ended tables o q (p.run tables o n) := by
  induction n generalizing p with
  | zero => exact ⟨p, hp, .unfinished⟩
  | succ n ih =>
    rw [run]
    cases hnext : p.step tables o with
    | next p' => exact ih (hstep p p' hp hnext)
    | accepted p' => exact ⟨p, hp, .accepted hnext⟩
    | abandoned p' => exact ⟨p, hp, .abandoned hnext⟩
    | failed e p' => exact ⟨p, hp, .failed hnext⟩

/-- The state that a parse is in after `n` moves, if none of them ends it. -/
def after? (tables : DecisionTables) (o : SyntaxOptions) : Nat → ParseState → Option ParseState
  | 0, p => some p
  | n + 1, p =>
    match p.step tables o with
    | .next p => after? tables o n p
    | _ => none

/-- That state is reached by moves. -/
theorem reaches_of_after? {tables : DecisionTables} {o : SyntaxOptions} {n : Nat}
    {p q : ParseState} (h : p.after? tables o n = some q) :
    Relation.ReflTransGen (fun p p' => p.step tables o = .next p') p q := by
  induction n generalizing p with
  | zero =>
    obtain rfl := Option.some.inj h
    exact .refl
  | succ n ih =>
    rw [after?] at h
    split at h
    · next p' hstep => exact .head hstep (ih h)
    · cases h

/-- **A run that ended does not change** when more moves are allowed. -/
theorem run_eq_of_le {tables : DecisionTables} {o : SyntaxOptions} {n m : Nat} {p : ParseState}
    (h : ∀ q, p.run tables o n ≠ .failed .unfinished q) (hm : n ≤ m) :
    p.run tables o m = p.run tables o n := by
  induction n generalizing p m with
  | zero => exact absurd rfl (h p)
  | succ n ih =>
    obtain ⟨m, rfl⟩ : ∃ k, m = k + 1 := ⟨m - 1, by omega⟩
    rw [run] at h ⊢
    rw [run]
    cases hstep : p.step tables o with
    | next p' =>
      rw [hstep] at h
      exact ih h (by omega)
    | accepted p' => rfl
    | abandoned p' => rfl
    | failed e p' => rfl

end ParseState

end Mgol
