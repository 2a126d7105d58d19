import Mgol.Proofs.Grammar.Checked
import Mgol.Proofs.Parser.Alignment

/-! # Parsing with checked tables

Tables that pass the check need not come from a grammar, so nothing is known of the symbols on the
stack. Yet their moves and targets exist: no state on the stack is ever unknown, and as long as the
stacks move together no reduction misses a value.

* **`ParseState.Reduces`, `ParseState.reducedStates_effect`** — what a reduction makes of the
  states.
* **`ParseState.Grounded`, `ParseState.Grounded.step`** — known states within the capacity, whatever
  the executor.
* **`ParseState.Coupled`, `ParseState.Coupled.step`** — with one value fewer, without actions.
* **`ParseState.Blocked`, `ParseState.Coupled.failed`** — what a move can fail with.
* **`checked_tables_safe`** — both in every state that a parse comes to. -/

namespace Mgol

namespace ParseState

variable {t : DecisionTables} {bound capacity : Nat} {p p' : ParseState}

/-! ## Reductions -/

/-- **What a reduction makes of the states**: the state under the right side comes to the top, and
the state to go to is put on it. -/
inductive Reduces (t : DecisionTables) (states : Stack Nat) (r : Rule) :
    Except SyntaxError (Stack Nat) → Prop
  | short (length_le : states.items.length ≤ r.arity) : Reduces t states r (.error (.stack .empty))
  | missing {top : Nat} {under : List Nat} (left : states.items.drop r.arity = top :: under)
      (cell : t.goto top r.left = none) : Reduces t states r (.error (.missingGoto top r.left))
  | full {top target : Nat} {under : List Nat} (left : states.items.drop r.arity = top :: under)
      (cell : t.goto top r.left = some target)
      (le_length : states.capacity ≤ (top :: under).length) :
      Reduces t states r (.error (.stack (.overflow states.capacity)))
  | pushed {top target : Nat} {under : List Nat} {states' : Stack Nat}
      (left : states.items.drop r.arity = top :: under)
      (cell : t.goto top r.left = some target) (items_eq : states'.items = target :: top :: under)
      (capacity_eq : states'.capacity = states.capacity)
      (within : states'.items.length ≤ states.capacity) : Reduces t states r (.ok states')

/-- **A reduction does one of these things to the states.** -/
theorem reducedStates_effect (t : DecisionTables) (states : Stack Nat) (r : Rule) :
    Reduces t states r (reducedStates states t r) := by
  unfold reducedStates
  by_cases hpop : r.arity ≤ states.items.length
  · rw [Stack.popMany_eq hpop]
    simp only [Stack.top?, Stack.items_dropTop]
    cases hleft : states.items.drop r.arity with
    | nil => exact .short (List.drop_eq_nil_iff.mp hleft)
    | cons top under =>
      simp only [List.head?_cons]
      cases hcell : t.goto top r.left with
      | none => exact .missing hleft hcell
      | some target =>
        simp only
        cases hpush : (states.dropTop r.arity).push target with
        | error e =>
          obtain ⟨rfl, hfull⟩ := Stack.push_eq_error hpush
          rw [Stack.items_dropTop, hleft] at hfull
          exact .full hleft hcell hfull
        | ok states' =>
          obtain ⟨hroom, hitems, hcapacity⟩ := (Stack.push_eq_ok_iff _ _ _).mp hpush
          rw [Stack.items_dropTop, hleft] at hroom hitems
          refine .pushed hleft hcell hitems hcapacity ?_
          rw [hitems]
          exact hroom
  · rw [Stack.popMany, if_neg (by rwa [states.depth_eq])]
    exact .short (Nat.le_of_not_le hpop)

/-- An alarm and the lookaheads that are dropped after it do not touch the stacks. -/
theorem stacks_of_dropped {q : Nat} {slot : Option Nat}
    (hd : Relation.ReflTransGen Drops (p.alarmed t q slot) p') :
    p'.states = p.states ∧ p'.executor = p.executor := by
  induction hd with
  | refl =>
    obtain ⟨_, _, _, _, _, heq⟩ := p.alarmed_eq t q slot
    rw [heq]
    exact ⟨rfl, rfl⟩
  | tail _ hdrop ih =>
    cases hdrop
    exact ih

/-! ## Known states -/

/-- **A stack of known states**, those below a bound: some at least, within its capacity. -/
structure Grounded (bound capacity : Nat) (p : ParseState) : Prop where
  known : ∀ q ∈ p.states.items, q < bound
  items_ne_nil : p.states.items ≠ []
  capacity_eq : p.states.capacity = capacity
  within : p.states.items.length ≤ capacity

namespace Grounded

/-- Where a recovery goes on, the states were known before. -/
theorem resynchronized (h : p.Grounded bound capacity) {n : Nat}
    (hsync : p.resynchronize? t n = some p') : p'.Grounded bound capacity := by
  obtain ⟨k, hlt, hstates, hcapacity, -⟩ := cut_of_resynchronize? hsync
  refine ⟨?_, ?_, hcapacity.trans h.capacity_eq, ?_⟩
  · intro q hq
    rw [hstates] at hq
    exact h.known q (List.mem_of_mem_drop hq)
  · intro hnil
    rw [hstates, List.drop_eq_nil_iff] at hnil
    omega
  · have hwithin := h.within
    rw [hstates, List.length_drop]
    omega

/-- Only the stack of states matters. -/
theorem of_states (h : p.Grounded bound capacity) (heq : p'.states = p.states) :
    p'.Grounded bound capacity := by
  obtain ⟨hknown, hnil, hcapacity, hwithin⟩ := h
  rw [← heq] at hknown hnil hcapacity hwithin
  exact ⟨hknown, hnil, hcapacity, hwithin⟩

/-- A reduction goes to a known state. -/
theorem reduced (ht : t.Fits) (hbound : t.stateCount ≤ bound) (h : p.Grounded bound capacity)
    {r : Rule} {states : Stack Nat} (hreduced : reducedStates p.states t r = .ok states)
    (hstates : p'.states = states) : p'.Grounded bound capacity := by
  have heffect := reducedStates_effect t p.states r
  rw [hreduced] at heffect
  cases heffect with
  | @pushed top target under _ left cell items_eq capacity_eq within =>
    rw [← hstates] at items_eq capacity_eq within
    refine ⟨?_, ?_, capacity_eq.trans h.capacity_eq, ?_⟩
    · intro q hq
      rw [items_eq] at hq
      rcases List.mem_cons.mp hq with rfl | hq
      · exact Nat.lt_of_lt_of_le (ht.goto_lt _ _ _ cell) hbound
      · rw [← left] at hq
        exact h.known q (List.mem_of_mem_drop hq)
    · rw [items_eq]
      exact List.cons_ne_nil _ _
    · rw [← h.capacity_eq]
      exact within

/-- **Every move keeps the states known.** -/
theorem step (ht : t.Fits) (hbound : t.stateCount ≤ bound) (h : p.Grounded bound capacity)
    {o : SyntaxOptions} (hstep : p.step t o = .next p') : p'.Grounded bound capacity := by
  have heffect := step_effect t o p
  rw [hstep] at heffect
  cases heffect with
  | shift items cell pushed found kept =>
    obtain ⟨hroom, hitems, hcapacity⟩ := (Stack.push_eq_ok_iff _ _ _).mp pushed
    refine ⟨?_, ?_, hcapacity.trans h.capacity_eq, ?_⟩
    · intro q hq
      simp only [hitems] at hq
      rcases List.mem_cons.mp hq with rfl | hq
      · exact Nat.lt_of_lt_of_le (ht.shift_lt _ _ _ cell) hbound
      · exact h.known q hq
    · simp only [hitems]
      exact List.cons_ne_nil _ _
    · simp only [hitems]
      rw [← h.capacity_eq]
      exact hroom
  | reduce items cell rule reduced run => exact h.reduced ht hbound reduced rfl
  | @resumed q below slot _ items cell recovered =>
    have hrecover := (recover_effect t (p.alarmed t q slot) p.repeated).1
    rw [recovered] at hrecover
    cases hrecover with
    | resumed dropped synchronized =>
      exact (h.of_states (stacks_of_dropped dropped).1).resynchronized synchronized

end Grounded

/-! ## Stacks in balance -/

/-- **Two coupled stacks**: one value for every known state but the lowest, no actions, and room
for as many values as states. -/
structure Coupled (bound capacity : Nat) (p : ParseState) : Prop
    extends Grounded bound capacity p where
  states_length : p.states.items.length = p.executor.values.items.length + 1
  actions_eq : p.executor.actions = fun _ => none
  room : capacity ≤ p.executor.values.capacity

namespace Coupled

/-- Only the stacks matter. -/
theorem of_stacks (h : p.Coupled bound capacity)
    (heq : p'.states = p.states ∧ p'.executor = p.executor) : p'.Coupled bound capacity := by
  obtain ⟨hground, hlength, hactions, hroom⟩ := h
  refine ⟨hground.of_states heq.1, ?_, ?_, ?_⟩
  · rw [heq.1, heq.2]
    exact hlength
  · rw [heq.2]
    exact hactions
  · rw [heq.2]
    exact hroom

/-- Without actions a reduction whose states are there succeeds. -/
theorem reduce_eq (h : p.Coupled bound capacity) {r : Rule} (harity : r.arity < p.states.items.length)
    (position : Position) (session : Session) :
    ∃ values session', p.executor.reduce r position session =
        (.ok (), ⟨p.executor.actions, values, p.executor.work⟩, session') ∧
      values.items.length + r.arity = p.states.items.length ∧
      values.capacity = p.executor.values.capacity := by
  have hlength := h.states_length
  have hwithin := h.within
  have hroom := h.room
  rcases p.executor.reduce_cases r position session (by omega) with ⟨err, c, hperform, -⟩ |
    ⟨_, _, hfull, -⟩ | ⟨v, c, values, hperform, hvalues, hsame, hrun⟩
  · rw [h.actions_eq] at hperform
    cases hperform
  · omega
  · rw [h.actions_eq] at hperform
    cases hperform
    refine ⟨values, _, hrun, ?_, hsame⟩
    rw [hvalues, List.length_cons, List.length_drop]
    omega

/-- Where a recovery goes on, the stacks are in balance. -/
theorem resynchronized (h : p.Coupled bound capacity) {n : Nat}
    (hsync : p.resynchronize? t n = some p') : p'.Coupled bound capacity := by
  obtain ⟨k, hlt, hstates, -, hroom, hcut⟩ := cut_of_resynchronize? hsync
  have hlength := h.states_length
  refine ⟨h.toGrounded.resynchronized hsync, ?_, ?_, ?_⟩
  · rw [hstates, hcut hlength, List.length_drop, List.length_drop]
    omega
  · obtain ⟨_, _, _, _, rfl⟩ := resynchronize?_eq hsync
    exact h.actions_eq
  · rw [hroom]
    exact h.room

/-- **Every move keeps the coupled stacks.** -/
theorem step (ht : t.Fits) (hbound : t.stateCount ≤ bound) (h : p.Coupled bound capacity)
    {o : SyntaxOptions} (hstep : p.step t o = .next p') : p'.Coupled bound capacity := by
  have hground := h.toGrounded.step ht hbound hstep
  have heffect := step_effect t o p
  rw [hstep] at heffect
  cases heffect with
  | shift items cell pushed found kept =>
    obtain ⟨_, hstates, _⟩ := (Stack.push_eq_ok_iff _ _ _).mp pushed
    obtain ⟨_, hvalues, hroom⟩ := (Stack.push_eq_ok_iff _ _ _).mp kept
    refine ⟨hground, ?_, h.actions_eq, ?_⟩
    · simp only [hstates, hvalues, List.length_cons, h.states_length]
    · simp only [hroom]
      exact h.room
  | @reduce q n below r states j executor session items cell rule reduced run =>
    have hreduces := reducedStates_effect t p.states r
    rw [reduced] at hreduces
    cases hreduces with
    | pushed left target_eq items_eq capacity_eq within =>
      -- a state is left under the right side, so its values are there
      have hleft := congrArg List.length left
      rw [List.length_drop, List.length_cons] at hleft
      have harity : r.arity < p.states.items.length := by omega
      obtain ⟨values, session', hrun, hlength, hroom⟩ :=
        h.reduce_eq harity p.lookahead.span.start ⟨p.scanner.registry, j⟩
      cases hrun.symm.trans run
      refine ⟨hground, ?_, h.actions_eq, ?_⟩
      · simp only [items_eq, List.length_cons]
        omega
      · simp only [hroom]
        exact h.room
  | @resumed q below slot _ items cell recovered =>
    have hrecover := (recover_effect t (p.alarmed t q slot) p.repeated).1
    rw [recovered] at hrecover
    cases hrecover with
    | resumed dropped synchronized =>
      exact (h.of_stacks (stacks_of_dropped dropped)).resynchronized synchronized

/-- The stacks are in balance when a parse is abandoned. -/
theorem abandoned (h : p.Coupled bound capacity) {o : SyntaxOptions}
    (hstep : p.step t o = .abandoned p') : p'.Coupled bound capacity := by
  have heffect := step_effect t o p
  rw [hstep] at heffect
  cases heffect with
  | @abandoned q below slot last items cell recovered =>
    have hrecover := (recover_effect t (p.alarmed t q slot) p.repeated).1
    rw [recovered] at hrecover
    cases hrecover with
    | exhausted dropped =>
      obtain ⟨hstates, hexecutor⟩ := stacks_of_dropped dropped
      exact h.of_stacks ⟨hstates, hexecutor⟩

end Coupled

/-! ## What a move can fail with -/

/-- **The tables call for a reduction** by a rule. -/
def Calls (t : DecisionTables) (p : ParseState) (r : Rule) : Prop :=
  ∃ q below n, p.states.items = q :: below ∧ t.action q p.terminal = some (.reduce n) ∧
    t.rule n = .ok r

/-- **What stops a parse without actions** in a state: the scanner, a goto that is missing after a
reduction, a reduction for which there are too few states, or a full stack. -/
inductive Blocked (t : DecisionTables) (p : ParseState) : SyntaxError → Prop
  | scanner {e : LexicalError} : Blocked t p (.lexical e)
  | missing {r : Rule} {q : Nat} {under : List Nat} (calls : p.Calls t r)
      (left : p.states.items.drop r.arity = q :: under) (cell : t.goto q r.left = none) :
      Blocked t p (.missingGoto q r.left)
  | short {r : Rule} (calls : p.Calls t r) (length_le : p.states.items.length ≤ r.arity) :
      Blocked t p (.stack .empty)
  | full (length_eq : p.states.items.length = p.states.capacity) :
      Blocked t p (.stack (.overflow p.states.capacity))

/-- What cannot be read is the scanner's affair. -/
theorem Stuck.blocked {p₁ : ParseState} {e : SyntaxError} (h : p₁.Stuck e) : Blocked t p e := by
  obtain ⟨_, _, _, _, rfl⟩ := h
  exact .scanner

/-- **What a move can fail with**: no rule is unknown, no value is missing, and there is room for
every value. -/
theorem Coupled.failed (ht : t.Fits) (h : p.Coupled bound capacity) {o : SyntaxOptions}
    {e : SyntaxError} (hstep : p.step t o = .failed e p') : Blocked t p e := by
  have hlength := h.states_length
  have hwithin := h.within
  have hcapacity := h.capacity_eq
  have hroom := h.room
  have heffect := step_effect t o p
  rw [hstep] at heffect
  cases heffect with
  | empty items => exact absurd items h.items_ne_nil
  | full items cell pushed =>
    obtain ⟨rfl, hfull⟩ := Stack.push_eq_error pushed
    exact .full (by omega)
  | unread items cell pushed stuck => exact stuck.blocked
  | unkept items cell pushed kept =>
    -- the state found room, and there are fewer values than states
    obtain ⟨_, hfull⟩ := Stack.push_eq_error kept
    obtain ⟨hpushed, _⟩ := (Stack.push_eq_ok_iff _ _ _).mp pushed
    omega
  | unknown items cell missing =>
    obtain ⟨r, hr⟩ := ht.exists_rule _ _ _ cell
    cases hr.symm.trans missing
  | @unreduced q n below r _ _ items cell rule reduced =>
    have hreduces := reducedStates_effect t p.states r
    rw [reduced] at hreduces
    cases hreduces with
    | short length_le => exact .short ⟨q, below, n, items, cell, rule⟩ length_le
    | missing left goto_eq => exact .missing ⟨q, below, n, items, cell, rule⟩ left goto_eq
    | full left goto_eq le_length =>
      have hleft := congrArg List.length left
      rw [List.length_drop] at hleft
      exact .full (by omega)
  | @refused q n below r states j _ executor session _ items cell rule reduced run =>
    have hreduces := reducedStates_effect t p.states r
    rw [reduced] at hreduces
    cases hreduces with
    | pushed left target_eq items_eq capacity_eq within =>
      have hleft := congrArg List.length left
      rw [List.length_drop, List.length_cons] at hleft
      have harity : r.arity < p.states.items.length := by omega
      obtain ⟨values, session', hrun, -⟩ :=
        h.reduce_eq harity p.lookahead.span.start ⟨p.scanner.registry, j⟩
      cases hrun.symm.trans run
  | @lost q below slot _ _ items cell recovered =>
    have hrecover := (recover_effect t (p.alarmed t q slot) p.repeated).1
    rw [recovered] at hrecover
    cases hrecover with
    | failed dropped stuck => exact stuck.blocked

/-! ## Whole parses -/

/-- The stacks of a parse stay coupled. -/
theorem Coupled.configuration (ht : t.Fits) (hbound : t.stateCount ≤ bound) {o : SyntaxOptions}
    {p₀ : ParseState} (h : p₀.Coupled bound capacity) (hp : Configuration t o p₀ p) :
    p.Coupled bound capacity :=
  hp.keeps _ h (fun h hmove => h.step ht hbound hmove) fun h hlast => h.abandoned hlast

end ParseState

/-- The states are known when a parse begins, if the first one is. -/
theorem grounded_of_startState {bound : Nat} (hbound : 0 < bound) {scanner : Scanner}
    {executor : Executor} {o : SyntaxOptions} {p₀ : ParseState} {j : Journal}
    (hstart : startState scanner executor o.effectiveCapacity = (.ok p₀, j)) :
    p₀.Grounded bound o.effectiveCapacity ∧ p₀.executor = executor ∧ p₀.states.items = [0] := by
  obtain ⟨u, s, states, -, hitems, hcapacity, rfl⟩ := eq_of_startState hstart
  refine ⟨⟨?_, ?_, hcapacity, ?_⟩, rfl, hitems⟩
  · intro q hq
    rw [hitems, List.mem_singleton] at hq
    rw [hq]
    exact hbound
  · rw [hitems]
    exact List.cons_ne_nil _ _
  · rw [hitems]
    exact o.effectiveCapacity_pos

/-- **Checked tables are safe to parse with.** If there is a state at all, then in every state that
a parse without actions comes to, whatever the scanner, all states on the stack exist, there is one
at least, and one value fewer. A move fails neither for an unknown rule nor on the side of the
values: what stops it is the scanner, a goto that is missing, a reduction longer than the stack, or
a full stack. So it is for whole parses, apart from the bound on moves, be it the limit or another.
-/
theorem checked_tables_safe {t : DecisionTables} (hcheck : t.check = .ok t)
    (hstates : 0 < t.stateCount) (scanner : Scanner) (o : SyntaxOptions) {capacity : Nat}
    (hroom : o.effectiveCapacity ≤ capacity) :
    (∀ p₀ j, startState scanner (.bare capacity) o.effectiveCapacity = (.ok p₀, j) →
      ∀ p, ParseState.Configuration t o p₀ p →
        (∀ q ∈ p.states.items, q < t.stateCount) ∧ p.states.items ≠ [] ∧
        p.states.items.length = p.executor.values.items.length + 1 ∧
        ∀ e p', p.step t o = .failed e p' →
          (∀ n, e ≠ .grammar (.unknownRule n)) ∧ (∀ e', e ≠ .semantic e') ∧
          ParseState.Blocked t p e) ∧
    ∀ moves e, (parseWithin moves (.bare capacity) scanner t o).1 = .error e →
      (∃ e', e = .lexical e') ∨ (∃ q a, q < t.stateCount ∧ t.goto q a = none ∧
        e = .missingGoto q a) ∨ e = .stack .empty ∨ e = .stack (.overflow o.effectiveCapacity) ∨
      e = .unfinished := by
  have ht := DecisionTables.fits_of_check hcheck
  have hcoupled : ∀ p₀ j, startState scanner (.bare capacity) o.effectiveCapacity = (.ok p₀, j) →
      p₀.Coupled t.stateCount o.effectiveCapacity := by
    intro p₀ j hstart
    obtain ⟨hground, hexecutor, hitems⟩ := grounded_of_startState hstates hstart
    refine ⟨hground, ?_, ?_, ?_⟩
    · rw [hexecutor, hitems]
      rfl
    · rw [hexecutor]
      rfl
    · rw [hexecutor]
      exact hroom
  refine ⟨?_, ?_⟩
  · intro p₀ j hstart p hp
    have h := (hcoupled p₀ j hstart).configuration ht (Nat.le_refl _) hp
    refine ⟨h.known, h.items_ne_nil, h.states_length, fun e p' hstep => ?_⟩
    have hblocked := h.failed ht hstep
    refine ⟨?_, ?_, hblocked⟩
    · rintro n rfl
      cases hblocked
    · rintro e' rfl
      cases hblocked
  · intro moves e herror
    rcases hstart : startState scanner (.bare capacity) o.effectiveCapacity with ⟨⟨e'⟩ | ⟨p₀⟩, j⟩
    · rcases startState_cases scanner (.bare capacity) o with
        ⟨_, _, _, _, _, _, _, heq⟩ | ⟨e₁, s, _, heq⟩
      · cases heq.symm.trans hstart
      · rw [parseWithin, heq] at herror
        exact .inl ⟨e₁, (Except.error.inj herror).symm⟩
    · rw [parseWithin, hstart] at herror
      simp only at herror
      obtain ⟨p, hp, hended⟩ := ParseState.run_induction t o
        (·.Coupled t.stateCount o.effectiveCapacity)
        (fun _ _ h hstep => h.step ht (Nat.le_refl _) hstep) moves (hcoupled p₀ j hstart)
      generalize p₀.run t o moves = result at herror hended
      cases hended with
      | unfinished => exact .inr (.inr (.inr (.inr (Except.error.inj herror).symm)))
      | accepted last => cases herror
      | abandoned last => cases herror
      | failed last =>
        obtain rfl := Except.error.inj herror
        have hblocked := hp.failed ht last
        cases hblocked with
        | scanner => exact .inl ⟨_, rfl⟩
        | @missing r q under calls left cell =>
          have hq : q ∈ p.states.items.drop r.arity := by
            rw [left]
            exact List.mem_cons_self
          exact .inr (.inl ⟨q, _, hp.known q (List.mem_of_mem_drop hq), cell, rfl⟩)
        | short calls length_le => exact .inr (.inr (.inl rfl))
        | full length_eq => exact .inr (.inr (.inr (.inl (by rw [hp.capacity_eq]))))

/-- Tables that reduce one name by a rule for two. -/
def overlongTables : DecisionTables where
  rules := ⟨⟨1, "S", ["A"]⟩, [⟨2, "A", ["id", "id"]⟩]⟩
  actions := ⟨["id", "$"], #[#[some (.shift 1), none], #[none, some (.reduce 2)]]⟩
  gotos := ⟨["A"], #[#[none], #[none]]⟩

/-- A reduction that is too long finds the stack empty, and nothing else goes wrong. -/
theorem checked_tables_safe_overlong :
    overlongTables.check = .ok overlongTables ∧ 0 < overlongTables.stateCount ∧
      ∃ p₀ j, startState (.ofInput ⟨[97], none⟩) (.bare Limits.stackDepth)
          (SyntaxOptions.effectiveCapacity {}) = (.ok p₀, j) ∧
        (∀ p, ParseState.Configuration overlongTables {} p₀ p →
          (∀ q ∈ p.states.items, q < 2) ∧
          p.states.items.length = p.executor.values.items.length + 1) ∧
        ∃ p, p₀.run overlongTables {} 2 = .failed (.stack .empty) p := by
  have hcheck : overlongTables.check = .ok overlongTables := by rfl
  refine ⟨hcheck, by decide, ?_⟩
  obtain ⟨hsafe, -⟩ := checked_tables_safe hcheck (by decide) (.ofInput ⟨[97], none⟩) {}
    (Nat.le_refl _)
  refine ⟨_, _, rfl, ?_, ?_⟩
  · intro p hp
    obtain ⟨hknown, _, hlength, _⟩ := hsafe _ _ rfl p hp
    exact ⟨hknown, hlength⟩
  · exact ⟨_, rfl⟩

end Mgol
