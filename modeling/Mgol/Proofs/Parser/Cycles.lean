import Mathlib.Data.Set.Finite.List
import Mathlib.Order.Preorder.Finite
import Mathlib.Data.Fin.Basic
import Mgol.Proofs.Parser.Checked

/-! # Parses that never end

The check of tables looks at cells one by one, so it cannot see where reductions lead. A shift and a
recovery use up tokens, of which there are only so many; a reduction uses up none. So a parse that
never ends reduces for ever from some state on, and as there are only so many stacks, it comes back
to one that it had before.

* **`ParseState.remaining`, `ParseState.remaining_of_step`** — what every move but a reduction makes
  smaller.
* **`ParseState.Endless`** — a run that is never over.
* **`ParseState.Cycle`, `ParseState.Endless.exists_cycle`** — it comes to a cycle of reductions.
* **`cyclicTables`, `ParseState.Looping`** — checked tables for which that happens.
* **`checked_parse_ends_or_cycles`** — a parse with checked tables ends, or comes to a cycle. -/

namespace Mgol

/-! ## Tokens are used up -/

/-- A search for a visible token uses up tokens, of which there are only so many. -/
theorem Scanner.Finds.counted {s s' : Scanner} {t : Spanned Token} (h : s.Finds t s') :
    s.metrics.tokens < s'.metrics.tokens ∧ s'.metrics.tokens ≤ Limits.tokenCount := by
  induction h with
  | here scanned visible =>
    have hwithin := scanned.within
    rw [scanned.counted]
    omega
  | later scanned hidden found ih =>
    rw [scanned.counted] at ih
    omega

namespace ParseState

variable {t : DecisionTables} {o : SyntaxOptions} {p p' : ParseState}

/-- How many tokens may still be handed out. -/
def tokensLeft (p : ParseState) : Nat := Limits.tokenCount - p.scanner.metrics.tokens

/-- **What every move but a reduction makes smaller**: the tokens left, and whether the lookahead
was not recovered from yet. -/
def remaining (p : ParseState) : Nat := 2 * p.tokensLeft + if p.repeated then 0 else 1

/-- One token less leaves less, whatever was recovered from. -/
theorem remaining_lt_of_tokensLeft (h : p'.tokensLeft < p.tokensLeft) :
    p'.remaining < p.remaining := by
  unfold remaining
  split <;> split <;> omega

/-- The next lookahead uses up a token. -/
theorem tokensLeft_lt {j : Journal} {u : Spanned Token}
    (found : (p.scanner.withJournal j).nextVisible = (.ok u, p'.scanner)) :
    p'.tokensLeft < p.tokensLeft := by
  obtain ⟨hlt, hle⟩ := (Scanner.finds_of_nextVisible found).counted
  have hbefore : (p.scanner.withJournal j).metrics.tokens = p.scanner.metrics.tokens := rfl
  unfold tokensLeft
  omega

/-- Dropping a lookahead uses up a token and keeps the trigger. -/
theorem Drops.tokensLeft_lt (h : p.Drops p') :
    p'.tokensLeft < p.tokensLeft ∧ p'.trigger = p.trigger := by
  cases h with
  | drop more found => exact ⟨ParseState.tokensLeft_lt found, rfl⟩

/-- Dropping lookaheads uses up tokens, unless none is dropped. -/
theorem tokensLeft_of_dropped (h : Relation.ReflTransGen Drops p p') :
    p' = p ∨ p'.tokensLeft < p.tokensLeft := by
  induction h with
  | refl => exact .inl rfl
  | tail _ hdrop ih =>
    have hlt := hdrop.tokensLeft_lt.1
    rcases ih with rfl | hless
    · exact .inr hlt
    · exact .inr (Nat.lt_trans hlt hless)

/-- Where a recovery goes on, the tokens, the lookahead and the trigger stay. -/
theorem of_resynchronize? {n : Nat} (h : p.resynchronize? t n = some p') :
    p'.tokensLeft = p.tokensLeft ∧ p'.repeated = p.repeated := by
  obtain ⟨_, _, _, _, rfl⟩ := resynchronize?_eq h
  exact ⟨rfl, rfl⟩

/-- An alarm uses up no token, and remembers the lookahead. -/
theorem of_alarmed (p : ParseState) (t : DecisionTables) (q : Nat) (slot : Option Nat) :
    (p.alarmed t q slot).tokensLeft = p.tokensLeft ∧
      (p.alarmed t q slot).repeated = true := by
  obtain ⟨_, _, _, _, _, heq⟩ := p.alarmed_eq t q slot
  rw [heq]
  exact ⟨rfl, decide_eq_true rfl⟩

/-- **A recovery leaves less**: it drops a token, or remembers a lookahead that was not recovered
from before. -/
theorem remaining_of_recover {q : Nat} {slot : Option Nat}
    (recovered : (p.alarmed t q slot).recover t p.repeated = .resumed p') :
    p'.remaining < p.remaining := by
  obtain ⟨hleft, hrepeated⟩ := p.of_alarmed t q slot
  obtain ⟨hrecovered, hdiscard⟩ := recover_effect t (p.alarmed t q slot) p.repeated
  rw [recovered] at hrecovered hdiscard
  by_cases hagain : p.repeated = true
  · -- the lookahead is dropped first
    rcases hdiscard hagain with hex | ⟨p₁, hdrop, hrest⟩ | ⟨e, p₁, hfail⟩
    · cases hex
    · have hlt := hdrop.tokensLeft_lt.1
      cases hrest with
      | resumed dropped synchronized =>
        obtain ⟨hsame, _⟩ := of_resynchronize? synchronized
        refine remaining_lt_of_tokensLeft ?_
        rcases tokensLeft_of_dropped dropped with rfl | hless <;> omega
    · cases hfail
  · cases hrecovered with
    | @resumed p₁ _ n dropped synchronized =>
      obtain ⟨hsame, hkept⟩ := of_resynchronize? synchronized
      rcases tokensLeft_of_dropped dropped with rfl | hless
      · -- nothing was dropped, but the trigger is set now
        unfold remaining
        rw [if_neg hagain, hkept, if_pos hrepeated, hsame, hleft]
        omega
      · exact remaining_lt_of_tokensLeft (by omega)

/-- **A reduction**: a move that the tables call for on a rule. -/
def Contracts (t : DecisionTables) (o : SyntaxOptions) (p p' : ParseState) : Prop :=
  (∃ r, p.Calls t r) ∧ p.step t o = .next p' ∧ p'.lookahead = p.lookahead

/-- **Every move but a reduction leaves less**, and a reduction leaves as much. -/
theorem remaining_of_step (hstep : p.step t o = .next p') :
    p'.remaining < p.remaining ∨ p'.remaining = p.remaining ∧ Contracts t o p p' := by
  have heffect := step_effect t o p
  rw [hstep] at heffect
  cases heffect with
  | shift items cell pushed found kept =>
    exact .inl (remaining_lt_of_tokensLeft (tokensLeft_lt found))
  | @reduce q n below r states j executor session items cell rule reduced run =>
    exact .inr ⟨rfl, ⟨r, q, below, n, items, cell, rule⟩, hstep, rfl⟩
  | resumed items cell recovered => exact .inl (remaining_of_recover recovered)

/-! ## Runs that are never over -/

/-- **A run that is never over**, however many moves it is allowed. -/
def Endless (t : DecisionTables) (o : SyntaxOptions) (p : ParseState) : Prop :=
  ∀ n, ∃ q, p.run t o n = .failed .unfinished q

/-- No move fails for want of moves. -/
theorem step_ne_unfinished (t : DecisionTables) (o : SyntaxOptions) (p p' : ParseState) :
    p.step t o ≠ .failed .unfinished p' := by
  intro hstep
  have heffect := step_effect t o p
  rw [hstep] at heffect
  cases heffect with
  | unread items cell pushed stuck =>
    obtain ⟨_, _, _, _, he⟩ := stuck
    cases he
  | @unreduced q n below r _ _ items cell rule reduced =>
    have hreduces := reducedStates_effect t p.states r
    rw [reduced] at hreduces
    cases hreduces
  | @lost q below slot _ _ items cell recovered =>
    have hrecover := (recover_effect t (p.alarmed t q slot) p.repeated).1
    rw [recovered] at hrecover
    cases hrecover with
    | failed dropped stuck =>
      obtain ⟨_, _, _, _, he⟩ := stuck
      cases he

/-- A run that is never over moves on, and is not over then. -/
theorem Endless.next (h : p.Endless t o) : ∃ p', p.step t o = .next p' ∧ p'.Endless t o := by
  cases hstep : p.step t o with
  | next p' =>
    refine ⟨p', rfl, fun n => ?_⟩
    obtain ⟨q, hq⟩ := h (n + 1)
    rw [run, hstep] at hq
    exact ⟨q, hq⟩
  | accepted p' =>
    obtain ⟨q, hq⟩ := h 1
    rw [run, hstep] at hq
    cases hq
  | abandoned p' =>
    obtain ⟨q, hq⟩ := h 1
    rw [run, hstep] at hq
    cases hq
  | failed e p' =>
    obtain ⟨q, hq⟩ := h 1
    rw [run, hstep] at hq
    cases hq
    exact absurd hstep (step_ne_unfinished t o p p')

/-- A run that is over some time is over from then on, in the same way. -/
theorem exists_end_of_not_endless (h : ¬p.Endless t o) :
    ∃ n, ∀ m, n ≤ m →
      p.run t o m = p.run t o n ∧ ∀ q, p.run t o m ≠ .failed .unfinished q := by
  obtain ⟨n, hn⟩ := not_forall.mp h
  have hover : ∀ q, p.run t o n ≠ .failed .unfinished q := fun q hq => hn ⟨q, hq⟩
  refine ⟨n, fun m hm => ?_⟩
  rw [run_eq_of_le hover hm]
  exact ⟨rfl, hover⟩

/-! ## Cycles -/

/-- **A cycle of reductions**: one at least, and then the stack is what it was before them. -/
structure Cycle (t : DecisionTables) (o : SyntaxOptions) (p p' : ParseState) : Prop where
  contracts : Relation.TransGen (Contracts t o) p p'
  states_eq : p'.states = p.states

/-- There are only so many stacks. -/
theorem finite_stacks (bound capacity : Nat) :
    {items : List Nat | items.length ≤ capacity ∧ ∀ q ∈ items, q < bound}.Finite := by
  refine ((List.finite_length_le (Fin bound) capacity).image (List.map Fin.val)).subset ?_
  rintro items ⟨hlength, hknown⟩
  lift items to List (Fin bound) using hknown
  exact ⟨items, by simpa using hlength, rfl⟩

/-- The state after a move, or the same one where there is none. -/
def onward (t : DecisionTables) (o : SyntaxOptions) (p : ParseState) : ParseState :=
  match p.step t o with
  | .next p' => p'
  | _ => p

/-- A move leads to the state after it. -/
theorem onward_eq (hstep : p.step t o = .next p') : onward t o p = p' := by
  rw [onward, hstep]

/-- **What reduces for ever comes back to a stack** that it had before. -/
theorem exists_cycle_of_contracts {bound capacity : Nat} (ht : t.Fits)
    (hbound : t.stateCount ≤ bound) (hp : p.Grounded bound capacity)
    (h : ∀ n, Contracts t o ((onward t o)^[n] p) ((onward t o)^[n + 1] p)) :
    ∃ n p', Cycle t o ((onward t o)^[n] p) p' := by
  have hground : ∀ n, ((onward t o)^[n] p).Grounded bound capacity := by
    intro n
    induction n with
    | zero => exact hp
    | succ n ih => exact ih.step ht hbound (h n).2.1
  have hmem : ∀ n, ((onward t o)^[n] p).states.items ∈
      {items : List Nat | items.length ≤ capacity ∧ ∀ q ∈ items, q < bound} :=
    fun n => ⟨(hground n).within, (hground n).known⟩
  -- of infinitely many stacks two are the same
  obtain ⟨n, m, hlt, heq⟩ :=
    Set.Finite.exists_lt_map_eq_of_forall_mem hmem (finite_stacks bound capacity)
  have hchain : ∀ k, Relation.TransGen (Contracts t o) ((onward t o)^[n] p)
      ((onward t o)^[n + (k + 1)] p) := by
    intro k
    induction k with
    | zero => exact .single (h n)
    | succ k ih => exact ih.tail (h (n + (k + 1)))
  refine ⟨n, (onward t o)^[m] p, ?_, ?_⟩
  · have := hchain (m - n - 1)
    rwa [show n + (m - n - 1 + 1) = m by omega] at this
  · refine Stack.eq_of_items ?_ heq.symm
    rw [(hground m).capacity_eq, (hground n).capacity_eq]

/-- The states that a run comes to. -/
abbrev Comes (t : DecisionTables) (o : SyntaxOptions) : ParseState → ParseState → Prop :=
  Relation.ReflTransGen fun p p' => p.step t o = .next p'

/-- What moves keep holds wherever a run comes to. -/
theorem comes_induction {P : ParseState → Prop}
    (hstep : ∀ p p', P p → p.step t o = .next p' → P p') (h : Comes t o p p') (hp : P p) : P p' := by
  induction h with
  | refl => exact hp
  | tail _ hlast ih => exact hstep _ _ ih hlast

/-- **A run that is never over comes to a cycle of reductions.** -/
theorem Endless.exists_cycle {bound capacity : Nat} (ht : t.Fits) (hbound : t.stateCount ≤ bound)
    (hp : p.Grounded bound capacity) (h : p.Endless t o) :
    ∃ p₁ p₂, Comes t o p p₁ ∧ Cycle t o p₁ p₂ := by
  induction hn : p.remaining using Nat.strong_induction_on generalizing p with
  | _ n ih =>
    subst hn
    by_cases hless : ∃ p', Comes t o p p' ∧ p'.remaining < p.remaining
    · -- the run goes on from where less remains
      obtain ⟨p', hcomes, hlt⟩ := hless
      have hkept := comes_induction (P := fun p => p.Grounded bound capacity ∧ p.Endless t o)
        (fun p p' ⟨hg, he⟩ hstep => by
          obtain ⟨p'', hnext, hendless⟩ := he.next
          cases hnext.symm.trans hstep
          exact ⟨hg.step ht hbound hstep, hendless⟩) hcomes ⟨hp, h⟩
      obtain ⟨p₁, p₂, hmore, hcycle⟩ := ih _ hlt hkept.1 hkept.2 rfl
      exact ⟨p₁, p₂, hcomes.trans hmore, hcycle⟩
    · -- less never remains, so every move is a reduction
      have hcontracts : ∀ q, Comes t o p q → q.Endless t o → q.remaining = p.remaining →
          Contracts t o q (onward t o q) ∧ (onward t o q).Endless t o ∧
            (onward t o q).remaining = p.remaining := by
        intro q hcomes hendless hsame
        obtain ⟨q', hstep, hnext⟩ := hendless.next
        rw [onward_eq hstep]
        rcases remaining_of_step hstep with hlt | ⟨heq, hcontracts⟩
        · exact absurd ⟨q', hcomes.tail hstep, hsame ▸ hlt⟩ hless
        · exact ⟨hcontracts, hnext, heq.trans hsame⟩
      have hall : ∀ n, Comes t o p ((onward t o)^[n] p) ∧ ((onward t o)^[n] p).Endless t o ∧
          ((onward t o)^[n] p).remaining = p.remaining := by
        intro n
        induction n with
        | zero => exact ⟨.refl, h, rfl⟩
        | succ n ih =>
          obtain ⟨hcomes, hendless, hsame⟩ := ih
          obtain ⟨hmove, hnext, heq⟩ := hcontracts _ hcomes hendless hsame
          rw [Function.iterate_succ_apply']
          exact ⟨hcomes.tail hmove.2.1, hnext, heq⟩
      obtain ⟨n, p₂, hcycle⟩ := exists_cycle_of_contracts ht hbound hp fun n => by
        obtain ⟨hcomes, hendless, hsame⟩ := hall n
        rw [Function.iterate_succ_apply']
        exact (hcontracts _ hcomes hendless hsame).1
      exact ⟨_, p₂, (hall n).1, hcycle⟩

end ParseState

/-! ## Tables with a cycle -/

/-- Tables that take a name for an `A`, and then the `A` for the name that it was made of. -/
def cyclicTables : DecisionTables where
  rules := ⟨⟨1, "S", ["A"]⟩, [⟨2, "A", ["id"]⟩]⟩
  actions := ⟨["id", "$"], #[#[some (.shift 1), none], #[none, some (.reduce 2)]]⟩
  gotos := ⟨["A"], #[#[some 1], #[none]]⟩

namespace ParseState

/-- **In the cycle**: state 1 on state 0 with one value, at the end of the input. -/
structure Looping (p : ParseState) : Prop where
  items_eq : p.states.items = [1, 0]
  terminal_eq : p.terminal = "$"
  room : 2 ≤ p.states.capacity
  values_length : p.executor.values.items.length = 1
  values_room : 2 ≤ p.executor.values.capacity
  actions_eq : p.executor.actions = mgolActions

/-- The states go back to what they were. -/
theorem Looping.reducedStates_eq {p : ParseState} (h : p.Looping) :
    ∃ states, reducedStates p.states cyclicTables ⟨2, "A", ["id"]⟩ = .ok states ∧
      states.items = [1, 0] ∧ states.capacity = p.states.capacity := by
  have hitems := h.items_eq
  have hroom := h.room
  have hreduces := reducedStates_effect cyclicTables p.states ⟨2, "A", ["id"]⟩
  have hdrop : p.states.items.drop (Rule.arity ⟨2, "A", ["id"]⟩) = [0] := by
    rw [hitems]
    rfl
  have hgoto : cyclicTables.goto 0 "A" = some 1 := rfl
  generalize reducedStates p.states cyclicTables ⟨2, "A", ["id"]⟩ = result at hreduces
  cases hreduces with
  | short length_le =>
    rw [hitems] at length_le
    exact absurd length_le (by decide)
  | missing left cell =>
    obtain ⟨rfl, -⟩ := List.cons.inj (left.symm.trans hdrop)
    cases cell
  | full left cell le_length =>
    rw [← left, hdrop, List.length_singleton] at le_length
    omega
  | @pushed top target under states' left cell items_eq capacity_eq within =>
    obtain ⟨rfl, rfl⟩ := List.cons.inj (left.symm.trans hdrop)
    obtain rfl := Option.some.inj (hgoto.symm.trans cell)
    exact ⟨states', rfl, items_eq, capacity_eq⟩

/-- Where the executor does its part, a reduction goes on. -/
theorem reduceValues_eq {p : ParseState} {rule : Rule} {executor : Executor} {session : Session}
    (hrun : p.executor.reduce rule p.lookahead.span.start p.scanner.session =
      (.ok (), executor, session)) (states : Stack Nat) :
    p.reduceValues states rule = .next
      { p with
        scanner := { p.scanner with session }, states, executor
        metrics := { p.metrics with reductions := p.metrics.reductions + 1 } } := by
  simp only [reduceValues, Scanner.lend, hrun]

/-- Every move in the cycle stays in it. -/
theorem Looping.step {p : ParseState} (h : p.Looping) :
    ∃ p', p.step cyclicTables {} = .next p' ∧ p'.Looping := by
  have hcell : cyclicTables.action 1 p.lookahead.value.terminalName = some (.reduce 2) := by
    rw [show p.lookahead.value.terminalName = "$" from h.terminal_eq]
    rfl
  obtain ⟨states, hreduced, hitems, hcapacity⟩ := h.reducedStates_eq
  have hrule : cyclicTables.rule 2 = .ok ⟨2, "A", ["id"]⟩ := rfl
  have hreduce : p.step cyclicTables {} = p.reduceValues states ⟨2, "A", ["id"]⟩ := by
    simp only [ParseState.step, Stack.top?, h.items_eq, List.head?_cons, hcell]
    rw [show p.trace {} "Reduce" 1 = p from rfl, reduce, hrule]
    simp only [hreduced]
  -- the second rule has no action, and there is room for its value
  have hlength := h.values_length
  have hroom := h.values_room
  rcases p.executor.reduce_cases ⟨2, "A", ["id"]⟩ p.lookahead.span.start p.scanner.session
    (Nat.le_of_eq hlength.symm) with ⟨_, _, hperform, -⟩ | ⟨_, _, hfull, -⟩ |
    ⟨v, c, values, -, hvalues, hsame, hrun⟩
  · rw [h.actions_eq] at hperform
    cases hperform
  · omega
  · refine ⟨_, hreduce.trans (reduceValues_eq hrun states), ?_⟩
    exact
      { items_eq := hitems
        terminal_eq := h.terminal_eq
        room := by rw [hcapacity]; exact h.room
        values_length := by rw [hvalues, List.length_cons, List.length_drop, hlength]; rfl
        values_room := by rw [hsame]; exact hroom
        actions_eq := h.actions_eq }

/-- **The cycle is never left.** -/
theorem Looping.endless {p : ParseState} (h : p.Looping) : p.Endless cyclicTables {} := by
  intro n
  induction n generalizing p with
  | zero => exact ⟨p, rfl⟩
  | succ n ih =>
    obtain ⟨p', hstep, hloop⟩ := h.step
    rw [run, hstep]
    exact ih hloop

/-- A run is never over if it is not over after a move. -/
theorem endless_of_next {t : DecisionTables} {o : SyntaxOptions} {p p' : ParseState}
    (hstep : p.step t o = .next p') (h : p'.Endless t o) : p.Endless t o := by
  intro n
  cases n with
  | zero => exact ⟨p, rfl⟩
  | succ n =>
    rw [run, hstep]
    exact h n

end ParseState

/-- A single name is in the cycle after one move. -/
theorem exists_endless_cyclicTables :
    ∃ p₀ j, startState (.ofInput ⟨[120], none⟩) (.mgol Limits.stackDepth) Limits.stackDepth =
      (.ok p₀, j) ∧ p₀.Endless cyclicTables {} := by
  refine ⟨_, _, rfl, ParseState.endless_of_next rfl ?_⟩
  exact ParseState.Looping.endless ⟨rfl, rfl, by decide, rfl, by decide, rfl⟩

/-! ## Whole parses -/

/-- **A parse with checked tables ends, or comes to a cycle of reductions.** Whatever the scanner and
the executor, either the run is over after some number of moves, and more of them change nothing, or
it comes to a state from which reductions alone lead back to the same stack. -/
theorem checked_parse_ends_or_cycles {t : DecisionTables} (hcheck : t.check = .ok t)
    (scanner : Scanner) (executor : Executor) (o : SyntaxOptions) :
    match (startState scanner executor o.effectiveCapacity).1 with
    | .error _ => True
    | .ok p₀ =>
      (∃ n, ∀ m, n ≤ m →
        p₀.run t o m = p₀.run t o n ∧ ∀ q, p₀.run t o m ≠ .failed .unfinished q) ∨
      ∃ p₁ p₂, ParseState.Comes t o p₀ p₁ ∧ ParseState.Cycle t o p₁ p₂ := by
  rcases hstart : startState scanner executor o.effectiveCapacity with ⟨⟨e⟩ | ⟨p₀⟩, j⟩
  · trivial
  · by_cases hendless : p₀.Endless t o
    · -- there may be no state at all, so the first one is allowed for
      obtain ⟨hground, -⟩ := grounded_of_startState (Nat.succ_pos t.stateCount) hstart
      exact .inr (hendless.exists_cycle (DecisionTables.fits_of_check hcheck) (Nat.le_succ _)
        hground)
    · exact .inl (ParseState.exists_end_of_not_endless hendless)

/-- The cycle that a single name comes to. -/
theorem checked_parse_ends_or_cycles_name :
    cyclicTables.check = .ok cyclicTables ∧
      ∃ p₀ p₁ p₂ j, startState (.ofInput ⟨[120], none⟩) (.mgol Limits.stackDepth)
          Limits.stackDepth = (.ok p₀, j) ∧
        ParseState.Comes cyclicTables {} p₀ p₁ ∧ ParseState.Cycle cyclicTables {} p₁ p₂ := by
  have hcheck : cyclicTables.check = .ok cyclicTables := rfl
  obtain ⟨p₀, j, hstart, hendless⟩ := exists_endless_cyclicTables
  have hcases := checked_parse_ends_or_cycles hcheck (.ofInput ⟨[120], none⟩)
    (.mgol Limits.stackDepth) {}
  rw [show SyntaxOptions.effectiveCapacity {} = Limits.stackDepth from rfl, hstart] at hcases
  rcases hcases with ⟨n, hover⟩ | ⟨p₁, p₂, hcomes, hcycle⟩
  · obtain ⟨q, hq⟩ := hendless n
    exact absurd hq ((hover n (Nat.le_refl n)).2 q)
  · exact ⟨hcheck, p₀, p₁, p₂, j, hstart, hcomes, hcycle⟩

/-- **Checked tables can keep a parse from ever ending**: that of a single name is not over after any
number of moves. -/
theorem cyclic_parse_never_ends :
    cyclicTables.check = .ok cyclicTables ∧
      (∃ p₀ j, startState (.ofInput ⟨[120], none⟩) (.mgol Limits.stackDepth) Limits.stackDepth =
        (.ok p₀, j) ∧ ∀ n, ∃ q, p₀.run cyclicTables {} n = .failed .unfinished q) ∧
      (parse (.ofInput ⟨[120], none⟩) cyclicTables {}).1 = .error .unfinished := by
  obtain ⟨p₀, j, hstart, hendless⟩ := exists_endless_cyclicTables
  refine ⟨rfl, ⟨p₀, j, hstart, hendless⟩, ?_⟩
  obtain ⟨q, hq⟩ := hendless Limits.parseMoves
  rw [parse, parseWith, parseWithin,
    show SyntaxOptions.effectiveCapacity {} = Limits.stackDepth from rfl, hstart]
  simp only [hq]
  rfl

end Mgol
