import Mgol.Proofs.Parser.Checked
import Mgol.Proofs.Semantics.Values

/-! # Stacks with more room

The capacity bounds two stacks, and nothing but a stack that is full ever looks at it. So a parser
whose stacks are given more room makes the same moves, until the moves it is compared with need
more room than there was. The stack of values is never the first to be full: it holds one item fewer
than the stack of states.

* **`Stack.withCapacity`, `ParseState.widen`** — more room for a stack, and for the stacks of a
  parse.
* **`ParseState.Level`, `ParseState.Level.step`** — one value fewer than states, with any tables and
  any actions.
* **`ParseState.Level.step_widen`, `ParseState.Level.run_widen`** — a move, and a run, with more
  room.
* **`parse_ignores_spare_capacity`** — a parse that does not overflow has the same result with any
  larger capacity. -/

namespace Mgol

/-! ## Stacks -/

namespace Stack

variable {α : Type}

/-- The stack with another capacity. -/
def withCapacity (s : Stack α) (n : Nat) : Stack α := { s with capacity := n }

/-- The items do not change. -/
@[simp] theorem items_withCapacity (s : Stack α) (n : Nat) : (s.withCapacity n).items = s.items :=
  rfl

/-- **A push that succeeds does so with more room.** -/
theorem push_withCapacity {s t : Stack α} {a : α} {n : Nat} (h : s.push a = .ok t)
    (hn : s.capacity ≤ n) : (s.withCapacity n).push a = .ok (t.withCapacity n) := by
  obtain ⟨hroom, hitems, _⟩ := (push_eq_ok_iff s t a).mp h
  exact (push_eq_ok_iff _ _ _).mpr ⟨Nat.lt_of_lt_of_le hroom hn, hitems, rfl⟩

/-- Items are taken off in the same way. -/
theorem popMany_withCapacity (s : Stack α) (n k : Nat) :
    (s.withCapacity n).popMany k = (s.popMany k).map (Prod.map id (withCapacity · n)) := by
  unfold popMany
  split
  · next hle => rw [if_pos (show k ≤ s.depth from hle)]; rfl
  · next hlt => rw [if_neg (show ¬k ≤ s.depth from hlt)]; rfl

end Stack

/-! ## The executor -/

namespace Executor

variable {e e' : Executor} {n : Nat}

/-- The executor with another capacity. -/
def widen (e : Executor) (n : Nat) : Executor := { e with values := e.values.withCapacity n }

/-- A token that is kept is kept with more room. -/
theorem shift_widen {t : Spanned Token} (h : e.shift t = .ok e') (hn : e.values.capacity ≤ n) :
    (e.widen n).shift t = .ok (e'.widen n) := by
  unfold shift at h ⊢
  split at h
  · next values hpush =>
    obtain rfl := Except.ok.inj h
    rw [widen, Stack.push_withCapacity hpush hn]
    rfl
  · cases h

/-- **A reduction does the same with more room**, if there is room for its value. -/
theorem reduce_widen (rule : Rule) (p : Position) (session : Session)
    (hroom : e.values.items.length < e.values.capacity) (hn : e.values.capacity ≤ n) :
    (e.widen n).reduce rule p session =
      (e.reduce rule p session).map id (Prod.map (widen · n) id) := by
  obtain ⟨actions, values, work⟩ := e
  simp only [widen, reduce, Stack.popMany_withCapacity]
  cases hpop : values.popMany rule.arity with
  | error e => rfl
  | ok popped =>
    obtain ⟨taken, left⟩ := popped
    -- what is left is no more than there was
    have hleft : left.items.length < left.capacity ∧ left.capacity ≤ n := by
      unfold Stack.popMany at hpop
      split at hpop
      · obtain ⟨-, rfl⟩ := Prod.mk.inj (Except.ok.inj hpop)
        refine ⟨Nat.lt_of_le_of_lt ?_ hroom, hn⟩
        rw [Stack.items_dropTop, List.length_drop]
        exact Nat.sub_le _ _
      · cases hpop
    simp only [Except.map, Prod.map, id]
    rcases perform actions ⟨rule, taken, p⟩ ⟨work, session⟩ with ⟨⟨err⟩ | ⟨v⟩, c⟩
    · rfl
    · obtain ⟨pushed, hpush, -⟩ :=
        left.exists_push ⟨v, Reduction.span ⟨rule, taken, p⟩⟩ hleft.1
      simp only [complete, hpush, Stack.push_withCapacity hpush hleft.2]

end Executor

/-! ## States of a parse -/

/-- What a recovery ends in, with a change to its state. -/
def Recovery.map (f : ParseState → ParseState) : Recovery → Recovery
  | .resumed p => .resumed (f p)
  | .exhausted p => .exhausted (f p)
  | .failed e p => .failed e (f p)

/-- What a move leads to, with a change to its state. -/
def StepResult.map (f : ParseState → ParseState) : StepResult → StepResult
  | .next p => .next (f p)
  | .accepted p => .accepted (f p)
  | .abandoned p => .abandoned (f p)
  | .failed e p => .failed e (f p)

/-- What a run ends in, with a change to its state. -/
def ParseEnd.map (f : ParseState → ParseState) : ParseEnd → ParseEnd
  | .accepted p => .accepted (f p)
  | .abandoned p => .abandoned (f p)
  | .failed e p => .failed e (f p)

/-- **An error that says that the stack of states is full.** -/
def SyntaxError.IsOverflow (e : SyntaxError) : Prop := ∃ capacity, e = .stack (.overflow capacity)

namespace ParseState

/-- **The state with another capacity of its stacks.** -/
def widen (n : Nat) (p : ParseState) : ParseState :=
  { p with states := p.states.withCapacity n, executor := p.executor.widen n }

/-! ### Recoveries with more room -/

/-- Moves are noted in the same way. -/
theorem trace_widen (p : ParseState) (n : Nat) (o : SyntaxOptions) (move : String) (state : Nat) :
    (p.widen n).trace o move state = (p.trace o move state).widen n := by
  unfold trace
  split
  · rfl
  · rfl

/-- The same lookahead is fetched. -/
theorem fetch_widen (p : ParseState) (n : Nat) :
    (p.widen n).fetch = p.fetch.map id (widen n) := by
  obtain ⟨scanner, states, executor, lookahead, trigger, metrics, diagnostics, history⟩ := p
  simp only [fetch, widen]
  rcases scanner.nextVisible with ⟨⟨e⟩ | ⟨t⟩, s⟩
  · rfl
  · rfl

/-- The stacks are cut at the same place. -/
theorem resynchronize?_widen (p : ParseState) (n : Nat) (tables : DecisionTables) (dropped : Nat) :
    (p.widen n).resynchronize? tables dropped =
      (p.resynchronize? tables dropped).map (widen n) := by
  have hstates : viableStates tables (p.widen n).lookahead.value.terminalName
      (p.widen n).states.items =
      viableStates tables p.lookahead.value.terminalName p.states.items := rfl
  unfold resynchronize?
  rw [hstates]
  cases viableStates tables p.lookahead.value.terminalName p.states.items with
  | nil => rfl
  | cons state below => rfl

/-- A recovery goes on behind the lookahead. -/
theorem next_widen (p : ParseState) (n : Nat) {goOn : ParseState → Recovery}
    (h : ∀ q : ParseState, goOn (q.widen n) = (goOn q).map (widen n)) :
    (match (p.widen n).dropLookahead.fetch with
      | (.error e, q) => Recovery.failed e q
      | (.ok _, q) => goOn q) =
      (match p.dropLookahead.fetch with
        | (.error e, q) => Recovery.failed e q
        | (.ok _, q) => goOn q).map (widen n) := by
  have hdrop : (p.widen n).dropLookahead = p.dropLookahead.widen n := rfl
  rw [hdrop, fetch_widen]
  rcases p.dropLookahead.fetch with ⟨⟨e⟩ | ⟨t⟩, q⟩
  · rfl
  · exact h q

/-- A search for a lookahead to go on with ends in the same way. -/
theorem search_widen (tables : DecisionTables) (budget : Nat) (p : ParseState) (n : Nat) :
    search tables budget (p.widen n) = (search tables budget p).map (widen n) := by
  induction budget generalizing p with
  | zero =>
    rw [search, search, resynchronize?_widen]
    cases p.resynchronize? tables Limits.recoveryScans with
    | none => rfl
    | some q => rfl
  | succ budget ih =>
    rw [search, search, resynchronize?_widen]
    cases p.resynchronize? tables (Limits.recoveryScans - (budget + 1)) with
    | some q => rfl
    | none =>
      have hlookahead : (p.widen n).lookahead = p.lookahead := rfl
      simp only [Option.map_none, hlookahead]
      split
      · rfl
      · exact p.next_widen n ih

/-- **A recovery ends in the same way** with more room. -/
theorem recover_widen (p : ParseState) (n : Nat) (tables : DecisionTables) (discard : Bool) :
    (p.widen n).recover tables discard = (p.recover tables discard).map (widen n) := by
  have hlookahead : (p.widen n).lookahead = p.lookahead := rfl
  unfold recover
  rw [hlookahead]
  split
  · split
    · rfl
    · exact p.next_widen n (search_widen tables _ · n)
  · exact search_widen tables _ p n

/-- A syntax error is reported in the same way. -/
theorem report_widen (p : ParseState) (n : Nat) (tables : DecisionTables) (state : Nat)
    (slot : Option Nat) :
    (p.widen n).report tables state slot = (p.report tables state slot).widen n := by
  simp only [report, note, diagnose, widen]

/-- **An error on the lookahead** leads to the same. -/
theorem handleError_widen (p : ParseState) (n : Nat) (tables : DecisionTables) (state : Nat)
    (slot : Option Nat) :
    (p.widen n).handleError tables state slot =
      (p.handleError tables state slot).map (widen n) := by
  have halarmed : (p.widen n).alarmed tables state slot =
      (p.alarmed tables state slot).widen n := by
    unfold alarmed
    have hrepeated : (p.widen n).repeated = p.repeated := rfl
    rw [hrepeated, report_widen]
    split
    · rfl
    · rfl
  have hrepeated : (p.widen n).repeated = p.repeated := rfl
  rw [handleError_eq, handleError_eq, halarmed, hrepeated, recover_widen]
  cases (p.alarmed tables state slot).recover tables p.repeated with
  | resumed q => rfl
  | exhausted q => rfl
  | failed e q => rfl

/-! ### Stacks side by side -/

/-- **Level stacks** of a capacity: one value fewer than states. -/
structure Level (capacity : Nat) (p : ParseState) : Prop where
  states_length : p.states.items.length = p.executor.values.items.length + 1
  capacity_eq : p.states.capacity = capacity
  room_eq : p.executor.values.capacity = capacity
  within : p.states.items.length ≤ capacity

namespace Level

variable {capacity n : Nat} {p p' : ParseState} {tables : DecisionTables} {o : SyntaxOptions}

/-- Where a recovery goes on, the stacks are level. -/
theorem resynchronized (h : p.Level capacity) {dropped : Nat}
    (hsync : p.resynchronize? tables dropped = some p') : p'.Level capacity := by
  obtain ⟨k, hlt, hstates, hcapacity, hroom, hcut⟩ := cut_of_resynchronize? hsync
  have hlength := h.states_length
  have hwithin := h.within
  refine ⟨?_, hcapacity.trans h.capacity_eq, hroom.trans h.room_eq, ?_⟩
  · rw [hstates, hcut hlength, List.length_drop, List.length_drop]
    omega
  · rw [hstates, List.length_drop]
    omega

/-- There is room for the value of a reduction. -/
theorem room (h : p.Level capacity) :
    p.executor.values.items.length < p.executor.values.capacity := by
  have hlength := h.states_length
  have hwithin := h.within
  have hroom := h.room_eq
  omega

/-- The values of a right side are there if its states are. -/
theorem arity_le (h : p.Level capacity) {r : Rule} {top : Nat} {under : List Nat}
    (left : p.states.items.drop r.arity = top :: under) :
    r.arity ≤ p.executor.values.items.length ∧
      under.length + r.arity = p.executor.values.items.length := by
  have hlength := h.states_length
  have hleft := congrArg List.length left
  rw [List.length_drop, List.length_cons] at hleft
  omega

/-- **Every move keeps the stacks level**, whatever the tables and the actions are. -/
theorem step (h : p.Level capacity) (hstep : p.step tables o = .next p') : p'.Level capacity := by
  have heffect := step_effect tables o p
  rw [hstep] at heffect
  cases heffect with
  | shift items cell pushed found kept =>
    obtain ⟨hlt, hstates, hcapacity⟩ := (Stack.push_eq_ok_iff _ _ _).mp pushed
    obtain ⟨_, hvalues, hroom⟩ := (Stack.push_eq_ok_iff _ _ _).mp kept
    refine ⟨?_, hcapacity.trans h.capacity_eq, hroom.trans h.room_eq, ?_⟩
    · simp only [hstates, hvalues, List.length_cons, h.states_length]
    · simp only [hstates, List.length_cons]
      rw [h.capacity_eq] at hlt
      exact hlt
  | @reduce q n below r states j executor session items cell rule reduced run =>
    have hreduces := reducedStates_effect tables p.states r
    rw [reduced] at hreduces
    cases hreduces with
    | pushed left target_eq items_eq capacity_eq within =>
      obtain ⟨harity, hunder⟩ := h.arity_le left
      rcases p.executor.reduce_cases r p.lookahead.span.start ⟨p.scanner.registry, j⟩ harity with
        ⟨err, c, -, hrun⟩ | ⟨_, _, _, hrun⟩ | ⟨v, c, values, -, hvalues, hsame, hrun⟩
      · cases hrun.symm.trans run
      · cases hrun.symm.trans run
      · cases hrun.symm.trans run
        refine ⟨?_, capacity_eq.trans h.capacity_eq, hsame.trans h.room_eq, ?_⟩
        · simp only [items_eq, hvalues, List.length_cons, List.length_drop]
          omega
        · rw [← h.capacity_eq]
          exact within
  | @resumed q below slot _ items cell recovered =>
    have hrecover := (recover_effect tables (p.alarmed tables q slot) p.repeated).1
    rw [recovered] at hrecover
    cases hrecover with
    | resumed dropped synchronized =>
      obtain ⟨hstates, hexecutor⟩ := stacks_of_dropped dropped
      refine resynchronized ⟨?_, ?_, ?_, ?_⟩ synchronized
      · rw [hstates, hexecutor]
        exact h.states_length
      · rw [hstates]
        exact h.capacity_eq
      · rw [hexecutor]
        exact h.room_eq
      · rw [hstates]
        exact h.within

/-- **The stack of values is never full** where that of states is not: no move fails for want of
room for a value. -/
theorem failed (h : p.Level capacity) (hactions : p.executor.actions = mgolActions)
    {e : SyntaxError} (hstep : p.step tables o = .failed e p') (s : StackError) :
    e ≠ .semantic (.stack s) := by
  rintro rfl
  have heffect := step_effect tables o p
  rw [hstep] at heffect
  cases heffect with
  | unread items cell pushed stuck =>
    obtain ⟨_, _, _, _, he⟩ := stuck
    cases he
  | unkept items cell pushed kept =>
    exact absurd h.room (Nat.not_lt.mpr (Stack.push_eq_error kept).2)
  | @unreduced q n below r _ _ items cell rule reduced =>
    have hreduces := reducedStates_effect tables p.states r
    rw [reduced] at hreduces
    cases hreduces
  | @refused q n below r states j _ executor session _ items cell rule reduced run =>
    have hreduces := reducedStates_effect tables p.states r
    rw [reduced] at hreduces
    cases hreduces with
    | pushed left target_eq items_eq capacity_eq within =>
      rcases p.executor.reduce_cases r p.lookahead.span.start ⟨p.scanner.registry, j⟩
        (h.arity_le left).1 with ⟨err, c, hperform, hrun⟩ | ⟨_, _, hfull, -⟩ |
        ⟨v, c, values, -, -, -, hrun⟩
      · cases hrun.symm.trans run
        -- the action itself knows of no stack
        rw [hactions] at hperform
        have hgives := gives_perform ⟨r, p.executor.taken r, p.lookahead.span.start⟩
          ⟨p.executor.work, ⟨p.scanner.registry, j⟩⟩
        rw [hperform] at hgives
        cases hgives with
        | refused cause => exact cause s rfl
      · exact absurd h.room (Nat.not_lt.mpr hfull)
      · cases hrun.symm.trans run
  | @lost q below slot _ _ items cell recovered =>
    have hrecover := (recover_effect tables (p.alarmed tables q slot) p.repeated).1
    rw [recovered] at hrecover
    cases hrecover with
    | failed dropped stuck =>
      obtain ⟨_, _, _, _, he⟩ := stuck
      cases he

/-- The actions of MGol stay those of MGol. -/
theorem actions_step (hactions : p.executor.actions = mgolActions)
    (hstep : p.step tables o = .next p') : p'.executor.actions = mgolActions := by
  have heffect := step_effect tables o p
  rw [hstep] at heffect
  cases heffect with
  | shift items cell pushed found kept => exact hactions
  | @reduce q n below r states j executor session items cell rule reduced run =>
    have hkept := (Executor.routine_reduce ActionContext.routine_adds hactions r
      p.lookahead.span.start ⟨p.scanner.registry, j⟩).1
    rw [run] at hkept
    exact hkept
  | @resumed q below slot _ items cell recovered =>
    have hrecover := (recover_effect tables (p.alarmed tables q slot) p.repeated).1
    rw [recovered] at hrecover
    cases hrecover with
    | resumed dropped synchronized =>
      obtain ⟨_, _, _, _, rfl⟩ := resynchronize?_eq synchronized
      simp only [(stacks_of_dropped dropped).2]
      exact hactions

/-- **No run fails for want of room for a value.** -/
theorem run_failed (h : p.Level capacity) (hactions : p.executor.actions = mgolActions)
    {moves : Nat} {e : SyntaxError} (hrun : p.run tables o moves = .failed e p') (s : StackError) :
    e ≠ .semantic (.stack s) := by
  obtain ⟨q, ⟨hlevel, hmgol⟩, hended⟩ := run_induction tables o
    (fun p => p.Level capacity ∧ p.executor.actions = mgolActions)
    (fun _ _ ⟨hlevel, hmgol⟩ hstep => ⟨hlevel.step hstep, actions_step hmgol hstep⟩) moves
    ⟨h, hactions⟩
  rw [hrun] at hended
  cases hended with
  | unfinished => exact nofun
  | failed last => exact hlevel.failed hmgol last s

/-! ### Moves with more room -/

/-- **A shift** does the same with more room. -/
theorem shift_widen (h : p.Level capacity) (hn : capacity ≤ n) {target : Nat}
    (hroom : ∀ e q, p.shift target = .failed e q → ¬e.IsOverflow) :
    (p.widen n).shift target = (p.shift target).map (ParseState.widen n) := by
  unfold shift at hroom ⊢
  cases hpush : p.states.push target with
  | error e =>
    obtain ⟨rfl, _⟩ := Stack.push_eq_error hpush
    rw [hpush] at hroom
    exact absurd ⟨_, rfl⟩ (hroom _ _ rfl)
  | ok states =>
    have hstates : (p.widen n).states.push target = .ok (states.withCapacity n) :=
      Stack.push_withCapacity hpush (by rw [h.capacity_eq]; exact hn)
    have hwiden : { p.widen n with states := states.withCapacity n } =
        ParseState.widen n { p with states } := rfl
    simp only [hstates, hwiden, fetch_widen]
    have hexecutor : ∀ t q, ParseState.fetch { p with states } = (t, q) →
        q.executor = p.executor := by
      intro t q hfetch
      unfold fetch at hfetch
      simp only at hfetch
      split at hfetch <;> cases hfetch <;> rfl
    rcases hfetch : ParseState.fetch { p with states } with ⟨⟨e⟩ | ⟨t⟩, q⟩
    · rfl
    · -- there is room for the value, since there was room for the state
      obtain ⟨values, hkept, -⟩ := p.executor.values.exists_push p.lookahead h.room
      have hshift : q.executor.shift p.lookahead = .ok { q.executor with values } := by
        rw [hexecutor _ _ hfetch, Executor.shift, hkept]
      have hvalues : q.executor.values.capacity ≤ n := by
        rw [hexecutor _ _ hfetch, h.room_eq]
        exact hn
      have hlookahead : (p.widen n).lookahead = p.lookahead := rfl
      have hwidened : (q.widen n).executor.shift p.lookahead =
          .ok ({ q.executor with values }.widen n) := Executor.shift_widen hshift hvalues
      simp only [Prod.map, id, finishShift, hlookahead, hshift, hwidened]
      rfl

/-- The states of a reduction are the same with more room. -/
theorem reducedStates_widen {states : Stack Nat} {r : Rule} (hn : states.capacity ≤ n)
    (hroom : ∀ e, reducedStates states tables r = .error e → ¬e.IsOverflow) :
    reducedStates (states.withCapacity n) tables r =
      (reducedStates states tables r).map (Stack.withCapacity · n) := by
  unfold reducedStates at hroom ⊢
  rw [Stack.popMany_withCapacity]
  cases hpop : states.popMany r.arity with
  | error e => rfl
  | ok popped =>
    obtain ⟨taken, left⟩ := popped
    have hleft : left.capacity ≤ n := by
      unfold Stack.popMany at hpop
      split at hpop
      · obtain ⟨-, rfl⟩ := Prod.mk.inj (Except.ok.inj hpop)
        exact hn
      · cases hpop
    have htop : (left.withCapacity n).top? = left.top? := rfl
    simp only [hpop] at hroom
    simp only [Except.map, Prod.map, htop]
    cases htop : left.top? with
    | none => rfl
    | some top =>
      simp only [htop] at hroom
      simp only
      cases hgoto : tables.goto top r.left with
      | none => rfl
      | some target =>
        simp only [hgoto] at hroom
        simp only
        cases hpush : left.push target with
        | error e =>
          obtain ⟨rfl, _⟩ := Stack.push_eq_error hpush
          rw [hpush] at hroom
          exact absurd ⟨_, rfl⟩ (hroom _ rfl)
        | ok pushed => rw [Stack.push_withCapacity hpush hleft]

/-- **A reduction** does the same with more room. -/
theorem reduce_widen (h : p.Level capacity) (hn : capacity ≤ n) {number : Nat}
    (hroom : ∀ e q, p.reduce tables number = .failed e q → ¬e.IsOverflow) :
    (p.widen n).reduce tables number = (p.reduce tables number).map (ParseState.widen n) := by
  unfold reduce at hroom ⊢
  cases hrule : tables.rule number with
  | error e => rfl
  | ok rule =>
    simp only [hrule] at hroom
    have hcapacity : p.states.capacity ≤ n := by
      rw [h.capacity_eq]
      exact hn
    have hstates : (p.widen n).states = p.states.withCapacity n := rfl
    simp only [hstates]
    rw [reducedStates_widen hcapacity fun e he => by
      rw [he] at hroom
      exact hroom _ _ rfl]
    cases hreduced : reducedStates p.states tables rule with
    | error e => cases e <;> rfl
    | ok states =>
      simp only [Except.map]
      have hvalues :
          (p.executor.widen n).reduce rule p.lookahead.span.start p.scanner.session = _ :=
        Executor.reduce_widen rule _ _ h.room (by rw [h.room_eq]; exact hn)
      obtain ⟨scanner, _, executor, lookahead, trigger, metrics, diagnostics, history⟩ := p
      simp only [reduceValues, ParseState.widen, Scanner.lend] at hvalues ⊢
      rw [hvalues]
      rcases executor.reduce rule lookahead.span.start scanner.session with
        ⟨⟨e⟩ | ⟨⟨⟩⟩, executor', session⟩
      · rfl
      · rfl

/-- **A move does the same with more room**, unless it fails for want of room. -/
theorem step_widen (h : p.Level capacity) (hn : capacity ≤ n)
    (hroom : ∀ e q, p.step tables o = .failed e q → ¬e.IsOverflow) :
    (p.widen n).step tables o = (p.step tables o).map (ParseState.widen n) := by
  have htop : (p.widen n).states.top? = p.states.top? := rfl
  have hlookahead : (p.widen n).lookahead = p.lookahead := rfl
  have htraced : ∀ move state, (p.trace o move state).Level capacity := by
    intro move state
    obtain ⟨j, hj⟩ := p.trace_eq o move state
    rw [hj]
    exact ⟨h.states_length, h.capacity_eq, h.room_eq, h.within⟩
  unfold ParseState.step at hroom ⊢
  rw [htop, hlookahead]
  cases hstate : p.states.top? with
  | none => rfl
  | some state =>
    simp only [hstate] at hroom
    simp only
    cases hcell : tables.action state p.lookahead.value.terminalName with
    | none => exact p.handleError_widen n tables state none
    | some a =>
      simp only [hcell] at hroom
      cases a with
      | shift target =>
        simp only [trace_widen]
        exact (htraced "Shift" state).shift_widen hn hroom
      | reduce number =>
        simp only [trace_widen]
        exact (htraced "Reduce" state).reduce_widen hn hroom
      | accept => rfl
      | error slot => exact p.handleError_widen n tables state (some slot)

/-- **A run does the same with more room**, unless it ends for want of room. -/
theorem run_widen (h : p.Level capacity) (hn : capacity ≤ n) {moves : Nat}
    (hroom : ∀ e q, p.run tables o moves = .failed e q → ¬e.IsOverflow) :
    (p.widen n).run tables o moves = (p.run tables o moves).map (ParseState.widen n) := by
  induction moves generalizing p with
  | zero => rfl
  | succ moves ih =>
    rw [run] at hroom ⊢
    rw [run]
    have hwidened : (p.widen n).step tables o = (p.step tables o).map (ParseState.widen n) :=
      h.step_widen hn fun e q hfailed => by
        rw [hfailed] at hroom
        exact hroom e q rfl
    rw [hwidened]
    cases hstep : p.step tables o with
    | next q =>
      rw [hstep] at hroom
      exact ih (h.step hstep) hroom
    | accepted q => rfl
    | abandoned q => rfl
    | failed e q => rfl

end Level

/-- Of the options a run looks at nothing but whether moves are noted. -/
theorem run_options (tables : DecisionTables) {o o' : SyntaxOptions}
    (h : o'.traceActions = o.traceActions) (moves : Nat) (p : ParseState) :
    p.run tables o' moves = p.run tables o moves := by
  have hstep : ∀ p : ParseState, p.step tables o' = p.step tables o := by
    intro p
    simp only [step, trace, h]
  induction moves generalizing p with
  | zero => rfl
  | succ moves ih =>
    rw [run, run, hstep]
    cases p.step tables o with
    | next q => exact ih q
    | accepted q => rfl
    | abandoned q => rfl
    | failed e q => rfl

end ParseState

/-! ## Whole parses -/

/-- The stacks play no part in the result of a parse. -/
theorem ParseEnd.result_map_widen (e : ParseEnd) (n : Nat) :
    (e.map (ParseState.widen n)).result = e.result := by
  cases e with
  | accepted p => rfl
  | abandoned p => rfl
  | failed e p => rfl

/-- A larger capacity stays so within what is allowed. -/
theorem SyntaxOptions.effectiveCapacity_mono (o : SyntaxOptions) {n : Nat}
    (hn : o.stackCapacity ≤ n) :
    o.effectiveCapacity ≤ SyntaxOptions.effectiveCapacity { o with stackCapacity := n } := by
  simp only [effectiveCapacity]
  omega

/-- The stacks of a parse are level when it begins. -/
theorem level_of_start {s : Scanner} {states : Stack Nat} {executor : Executor}
    {t : Spanned Token} {o : SyntaxOptions} (hitems : states.items = [0])
    (hcapacity : states.capacity = o.effectiveCapacity)
    (hexecutor : executor = .mgol o.effectiveCapacity) :
    ParseState.Level o.effectiveCapacity { scanner := s, states, executor, lookahead := t } := by
  subst hexecutor
  refine ⟨?_, hcapacity, rfl, ?_⟩
  · simp only [hitems]
    rfl
  · simp only [hitems]
    exact o.effectiveCapacity_pos

/-- **A parse within a number of moves has the same result with more room**, unless it runs out of
room. -/
theorem parseWithin_widened (scanner : Scanner) (tables : DecisionTables) (o : SyntaxOptions)
    {n moves : Nat} (hn : o.stackCapacity ≤ n)
    (hroom : ∀ e, (parseWithin moves (.mgol o.effectiveCapacity) scanner tables o).1 = .error e →
      ¬e.IsOverflow) :
    parseWithin moves (.mgol (SyntaxOptions.effectiveCapacity { o with stackCapacity := n }))
        scanner tables { o with stackCapacity := n } =
      parseWithin moves (.mgol o.effectiveCapacity) scanner tables o := by
  let wide : SyntaxOptions := { o with stackCapacity := n }
  change parseWithin moves (.mgol wide.effectiveCapacity) scanner tables wide = _
  have hwide : o.effectiveCapacity ≤ wide.effectiveCapacity := o.effectiveCapacity_mono hn
  unfold parseWithin at hroom ⊢
  rcases startState_cases scanner (.mgol o.effectiveCapacity) o with
    ⟨t, s, states, hfound, hpush, hitems, hcapacity, hstart⟩ | ⟨e, s, hfound, hstart⟩
  · rcases startState_cases scanner (.mgol wide.effectiveCapacity) wide with
      ⟨t', s', states', hfound', -, hitems', hcapacity', hstart'⟩ | ⟨e, s', hfound', -⟩
    · cases hfound'.symm.trans hfound
      rw [hstart] at hroom ⊢
      rw [hstart']
      -- the wide parse begins in the same state, with more room
      let p : ParseState :=
        { scanner := s, states, executor := .mgol o.effectiveCapacity, lookahead := t }
      have hstates : states' = states.withCapacity wide.effectiveCapacity :=
        Stack.eq_of_items hcapacity' (hitems'.trans hitems.symm)
      rw [hstates]
      change ((p.widen wide.effectiveCapacity).run tables wide moves).result =
        (p.run tables o moves).result
      have hlevel : p.Level o.effectiveCapacity := level_of_start hitems hcapacity rfl
      have hrun := hlevel.run_widen hwide fun e q hfailed => hroom e (by
        change (p.run tables o moves).result.1 = _
        rw [hfailed]
        rfl)
      rw [ParseState.run_options tables (show wide.traceActions = o.traceActions from rfl), hrun,
        ParseEnd.result_map_widen]
    · cases hfound'.symm.trans hfound
  · rcases startState_cases scanner (.mgol wide.effectiveCapacity) wide with
      ⟨t', s', states', hfound', -⟩ | ⟨e', s', hfound', hstart'⟩
    · cases hfound'.symm.trans hfound
    · cases hfound'.symm.trans hfound
      rw [hstart, hstart']

/-- **The stack of values is never the one that is full.** -/
theorem parseWithin_ne_value_overflow (moves : Nat) (scanner : Scanner) (tables : DecisionTables)
    (o : SyntaxOptions) (s : StackError) :
    (parseWithin moves (.mgol o.effectiveCapacity) scanner tables o).1 ≠
      .error (.semantic (.stack s)) := by
  intro herror
  unfold parseWithin at herror
  rcases startState_cases scanner (.mgol o.effectiveCapacity) o with
    ⟨t, next, states, -, -, hitems, hcapacity, hstart⟩ | ⟨e, next, -, hstart⟩
  · rw [hstart] at herror
    simp only at herror
    cases hrun : ParseState.run tables o moves
        { scanner := next, states, executor := .mgol o.effectiveCapacity, lookahead := t } with
    | accepted p =>
      rw [hrun] at herror
      cases herror
    | abandoned p =>
      rw [hrun] at herror
      cases herror
    | failed e p =>
      rw [hrun] at herror
      exact (level_of_start hitems hcapacity rfl).run_failed rfl hrun s (Except.error.inj herror)
  · rw [hstart] at herror
    cases herror

/-- **The capacity of the stacks is transparent.** Whatever the source, the tables and the bound on
moves are, be it the limit or another: if a parse does not overflow its stack of states, then with
any larger capacity it has the same result, be it an outcome or an error, and takes the same notes.
The stack of values never overflows. -/
theorem parse_ignores_spare_capacity (moves : Nat) (scanner : Scanner) (tables : DecisionTables)
    (o : SyntaxOptions) {n : Nat} (hn : o.stackCapacity ≤ n)
    (hroom : ∀ capacity, (parseWithin moves (.mgol o.effectiveCapacity) scanner tables o).1 ≠
      .error (.stack (.overflow capacity))) :
    parseWithin moves (.mgol (SyntaxOptions.effectiveCapacity { o with stackCapacity := n }))
        scanner tables { o with stackCapacity := n } =
      parseWithin moves (.mgol o.effectiveCapacity) scanner tables o ∧
    ∀ s, (parseWithin moves (.mgol o.effectiveCapacity) scanner tables o).1 ≠
      .error (.semantic (.stack s)) := by
  refine ⟨?_, parseWithin_ne_value_overflow moves scanner tables o⟩
  exact parseWithin_widened scanner tables o hn fun e he => by
    rintro ⟨capacity, rfl⟩
    exact hroom capacity he

/-- A source whose parse needs room for nine states. -/
def nestedSource : String :=
  "inicio varinicio inteiro A, B; varfim; repita (A < 9) A <- A + 1; escreva A; fimrepita fim"

/-- A parse in a stack of nine states has the result that it has in the largest stack. -/
theorem parse_ignores_spare_capacity_tight :
    let scanner := Scanner.ofInput ⟨Text.encode nestedSource, none⟩
    (parse scanner .mgol { stackCapacity := 9 }).1.toOption.isSome = true ∧
      parse scanner .mgol { stackCapacity := Limits.stackDepth } =
        parse scanner .mgol { stackCapacity := 9 } := by
  intro scanner
  have hparsed : (parse scanner .mgol { stackCapacity := 9 }).1.toOption.isSome = true := by
    decide +kernel
  have hroom : ∀ capacity, (parse scanner .mgol { stackCapacity := 9 }).1 ≠
      .error (.stack (.overflow capacity)) := by
    intro capacity herror
    rw [herror] at hparsed
    cases hparsed
  exact ⟨hparsed, (parse_ignores_spare_capacity Limits.parseMoves scanner .mgol
    { stackCapacity := 9 } (n := Limits.stackDepth) (by decide) hroom).1⟩

end Mgol
