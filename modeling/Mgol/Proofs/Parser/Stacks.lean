import Mgol.Proofs.Parser.Driver
import Mgol.Proofs.Parser.Moves
import Mathlib.Data.List.Forall2

/-! # The stacks of the parser

With tables that were constructed without a conflict, the stack of states follows the edges of the
collection, and there is one value for every symbol on the way. Recoveries cut both stacks at the
same place, so this survives them, and nothing but a full stack or a refusing action can make a move
fail.

* **`ParseState.Follows`** — the invariant of the two stacks.
* **`ParseState.Follows.reduced`, `ParseState.Follows.resumed`** — a reduction and a recovery keep
  it.
* **`Executor.reduce_cases`** — what the executor makes of a reduction. -/

namespace Mgol

/-! ## Bounded stacks -/

namespace Stack

variable {α : Type}

/-- A push fails on a full stack only. -/
theorem push_eq_error {s : Stack α} {a : α} {e : StackError} (h : s.push a = .error e) :
    e = .overflow s.capacity ∧ s.capacity ≤ s.items.length := by
  unfold push at h
  split at h
  · cases h
  · next hfull =>
    rw [s.depth_eq] at hfull
    exact ⟨(Except.error.inj h).symm, Nat.not_lt.mp hfull⟩

/-- Below the capacity a push succeeds. -/
theorem exists_push {s : Stack α} (a : α) (h : s.items.length < s.capacity) :
    ∃ t, s.push a = .ok t ∧ t.items = a :: s.items ∧ t.capacity = s.capacity := by
  cases hpush : s.push a with
  | ok t => exact ⟨t, rfl, ((push_eq_ok_iff s t a).mp hpush).2⟩
  | error e => exact absurd (push_eq_error hpush).2 (Nat.not_le.mpr h)

/-- As many items as there are can be taken off. -/
theorem popMany_eq {s : Stack α} {n : Nat} (h : n ≤ s.items.length) :
    s.popMany n = .ok ((s.items.take n).reverse, s.dropTop n) := by
  rw [popMany, if_pos (s.depth_eq ▸ h)]

end Stack

/-! ## The executor -/

namespace Executor

/-- The value that takes the place of the values of a right side. -/
def taken (e : Executor) (rule : Rule) : List (Spanned Token) :=
  (e.values.items.take rule.arity).reverse

/-- The values of a right side stand behind those below it, from left to right. -/
theorem reverse_items (e : Executor) (rule : Rule) :
    e.values.items.reverse = (e.values.items.drop rule.arity).reverse ++ e.taken rule := by
  rw [taken, ← List.reverse_append, List.take_append_drop]

/-- What relates the symbols on the stack to their values relates those of a right side to what a
reduction takes off, and the others to what it leaves. -/
theorem forall₂_taken {R : GrammarSymbol → Spanned Token → Prop} {e : Executor} {rule : Rule}
    {seen : List GrammarSymbol} (h : List.Forall₂ R (rule.right.reverse ++ seen) e.values.items) :
    List.Forall₂ R rule.right (e.taken rule) ∧
      List.Forall₂ R seen (e.values.items.drop rule.arity) := by
  have hlength : rule.right.reverse.length = rule.arity := List.length_reverse
  have htake := List.forall₂_take rule.arity h
  have hdrop := List.forall₂_drop rule.arity h
  rw [← hlength, List.take_left, hlength] at htake
  rw [← hlength, List.drop_left, hlength] at hdrop
  refine ⟨?_, hdrop⟩
  have hreverse := List.forall₂_reverse_iff.mpr htake
  rwa [List.reverse_reverse] at hreverse

/-- **What the executor makes of a reduction** by a rule whose values are there: the action refuses
it, or gives the value that replaces them, for which there may be no room. -/
theorem reduce_cases (e : Executor) (rule : Rule) (p : Position) (session : Session)
    (harity : rule.arity ≤ e.values.items.length) :
    (∃ err c, perform e.actions ⟨rule, e.taken rule, p⟩ ⟨e.work, session⟩ = (.error err, c) ∧
        e.reduce rule p session =
          (.error err, ⟨e.actions, e.values.dropTop rule.arity, c.work⟩, c.session)) ∨
      (∃ e' session', e.values.capacity ≤ e.values.items.length ∧ e.reduce rule p session =
        (.error (.stack (.overflow e.values.capacity)), e', session')) ∨
      ∃ v c values, perform e.actions ⟨rule, e.taken rule, p⟩ ⟨e.work, session⟩ = (.ok v, c) ∧
        values.items = ⟨v, Reduction.span ⟨rule, e.taken rule, p⟩⟩ ::
          e.values.items.drop rule.arity ∧
        values.capacity = e.values.capacity ∧
        e.reduce rule p session = (.ok (), ⟨e.actions, values, c.work⟩,
          c.session.note (.actionRun rule.number v.lexeme)) := by
  obtain ⟨actions, values, work⟩ := e
  let r : Reduction := ⟨rule, taken ⟨actions, values, work⟩ rule, p⟩
  have hreduce : reduce ⟨actions, values, work⟩ rule p session =
      complete actions (values.dropTop rule.arity) r (perform actions r ⟨work, session⟩) := by
    simp only [reduce, Stack.popMany_eq harity]
    rfl
  rw [hreduce]
  change (∃ err c, perform actions r ⟨work, session⟩ = (.error err, c) ∧ _) ∨ _ ∨
    ∃ v c pushed, perform actions r ⟨work, session⟩ = (.ok v, c) ∧ _
  rcases hperform : perform actions r ⟨work, session⟩ with ⟨⟨err⟩ | ⟨v⟩, c⟩
  · exact .inl ⟨err, c, rfl, rfl⟩
  · rw [complete]
    cases hpush : (values.dropTop rule.arity).push (⟨v, r.span⟩ : Spanned Token) with
    | error e =>
      obtain ⟨rfl, hfull⟩ := Stack.push_eq_error hpush
      rw [Stack.items_dropTop, List.length_drop] at hfull
      exact .inr (.inl ⟨_, _, Nat.le_trans hfull (Nat.sub_le _ _), rfl⟩)
    | ok pushed =>
      obtain ⟨_, hitems, hcapacity⟩ := (Stack.push_eq_ok_iff _ _ _).mp hpush
      exact .inr (.inr ⟨v, c, pushed, rfl, hitems, hcapacity, rfl⟩)

end Executor

/-! ## The invariant -/

namespace ParseState

variable {g : RuleSet} {t : DecisionTables}

/-- **A recovery cuts both stacks at one place**, if there is one state more than values, and leaves
a state. -/
theorem cut_of_resynchronize? {p p' : ParseState} {n : Nat}
    (h : p.resynchronize? t n = some p') :
    ∃ k, k < p.states.items.length ∧ p'.states.items = p.states.items.drop k ∧
      p'.states.capacity = p.states.capacity ∧
      p'.executor.values.capacity = p.executor.values.capacity ∧
      (p.states.items.length = p.executor.values.items.length + 1 →
        p'.executor.values.items = p.executor.values.items.drop k) := by
  unfold resynchronize? at h
  split at h
  · cases h
  · next state below hviable =>
    obtain rfl := Option.some.inj h
    -- states are taken off until one has a move
    obtain ⟨k, hk⟩ : ∃ k, p.states.items.drop k = state :: below := by
      obtain ⟨front, hfront⟩ := List.dropWhile_suffix (l := p.states.items)
        (fun q => !t.hasAction q p.lookahead.value.terminalName)
      refine ⟨front.length, ?_⟩
      have hsuffix : front ++ state :: below = p.states.items := by
        rw [← hviable]
        exact hfront
      rw [← hsuffix, List.drop_left]
    have hlt : k < p.states.items.length := by
      by_contra hge
      rw [List.drop_eq_nil_iff.mpr (Nat.not_lt.mp hge)] at hk
      cases hk
    refine ⟨k, hlt, hk.symm, rfl, rfl, fun hlength => ?_⟩
    have hcut : p.states.items.length - k = below.length + 1 := by
      rw [← List.length_drop, hk, List.length_cons]
    -- as many values are cut off as states
    change (p.executor.truncate below.length).values.items = p.executor.values.items.drop k
    rw [Executor.truncate, Stack.items_truncate]
    congr 1
    omega

/-- **The stacks of a parse**: the states follow the edges over some symbols, and there is one value
for every symbol. -/
structure Follows (g : RuleSet) (p : ParseState) (symbols : List GrammarSymbol) : Prop where
  path : g.Path p.states.items symbols
  values_length : p.executor.values.items.length = symbols.length
  within : p.states.items.length ≤ p.states.capacity

/-- **A reduction that was performed**: the action of its rule gave the value that stands in the
place of those of its right side, and the state to go to stands in the place of theirs. -/
structure Performed (g : RuleSet) (t : DecisionTables) (p : ParseState)
    (symbols : List GrammarSymbol) (r : Rule) (reduction : Reduction) (session : Session)
    (states : Stack Nat) (executor : Executor) (session' : Session) (seen : List GrammarSymbol)
    (v : Token) (c : ActionContext) : Prop where
  rule_mem : r ∈ g.rules
  symbols_eq : symbols = r.right.reverse ++ seen
  perform_eq : Executor.perform p.executor.actions reduction ⟨p.executor.work, session⟩ = (.ok v, c)
  actions_eq : executor.actions = p.executor.actions
  work_eq : executor.work = c.work
  stacked_eq : executor.values.items =
    ⟨v, reduction.span⟩ :: p.executor.values.items.drop r.arity
  room_eq : executor.values.capacity = p.executor.values.capacity
  session_eq : ∃ j, session' = ⟨c.session.registry, j⟩
  capacity_eq : states.capacity = p.states.capacity
  states_eq : ∃ target top under, states.items = target :: top :: under ∧
    p.states.items.drop r.arity = top :: under ∧ t.goto top r.left = some target
  follows : ∀ p' : ParseState, p'.states = states → p'.executor = executor →
    Follows g p' (r.left :: seen)

/-- The value of a reduction that was performed is on top. -/
theorem Performed.values_eq {p : ParseState} {symbols : List GrammarSymbol} {r : Rule}
    {reduction : Reduction} {session session' : Session} {states : Stack Nat} {executor : Executor}
    {seen : List GrammarSymbol} {v : Token} {c : ActionContext}
    (h : Performed g t p symbols r reduction session states executor session' seen v c) :
    ∃ span, executor.values.items = ⟨v, span⟩ :: p.executor.values.items.drop r.arity :=
  ⟨_, h.stacked_eq⟩

namespace Follows

variable {p : ParseState} {symbols : List GrammarSymbol}

/-- There is one state more than values. -/
theorem states_length (h : Follows g p symbols) :
    p.states.items.length = p.executor.values.items.length + 1 := by
  rw [h.values_length, h.path.length_eq]

/-- There is a value for every symbol below a right side. -/
theorem length_below (h : Follows g p symbols) {r : Rule} {seen : List GrammarSymbol}
    (hsymbols : symbols = r.right.reverse ++ seen) :
    seen.reverse.length = (p.executor.values.items.drop r.arity).reverse.length := by
  rw [List.length_reverse, List.length_reverse, List.length_drop, h.values_length, hsymbols,
    List.length_append, List.length_reverse, Rule.arity]
  omega

/-- There is always a state. -/
theorem items_ne_nil (h : Follows g p symbols) : p.states.items ≠ [] := by
  intro hnil
  have := h.path.length_eq
  rw [hnil] at this
  cases this

/-- A shift keeps the invariant. -/
theorem shifted (hb : g.Built t) (h : Follows g p symbols) {q target : Nat} {below : List Nat}
    (items : p.states.items = q :: below)
    (cell : t.action q p.terminal = some (.shift target)) {states : Stack Nat}
    (pushed : p.states.push target = .ok states) {values : Stack (Spanned Token)}
    (kept : p.executor.values.push p.lookahead = .ok values) {p' : ParseState}
    (hstates : p'.states = states) (hvalues : p'.executor.values = values) :
    Follows g p' (p.terminal :: symbols) := by
  obtain ⟨hroom, hitems, hcapacity⟩ := (Stack.push_eq_ok_iff _ _ _).mp pushed
  obtain ⟨_, hkept, _⟩ := (Stack.push_eq_ok_iff _ _ _).mp kept
  obtain ⟨hedge, _⟩ := hb.edge_of_shift cell
  have hpath := h.path
  rw [items] at hpath
  refine ⟨?_, ?_, ?_⟩
  · rw [hstates, hitems, items]
    exact hpath.step hedge
  · rw [hvalues, hkept, List.length_cons, List.length_cons, h.values_length]
  · rw [hstates, hitems, hcapacity, List.length_cons]
    exact hroom

/-- **A reduction on top of the stacks**: its rule exists, the values of its right side are there,
and there is a state to go to, unless the stack is full. -/
theorem reduced (hb : g.Built t) (h : Follows g p symbols) {q n : Nat} {below : List Nat}
    (items : p.states.items = q :: below) (cell : t.action q p.terminal = some (.reduce n)) :
    ∃ r ∈ g.rules, t.rule n = .ok r ∧ ∃ top under target seen,
      p.states.items.drop r.arity = top :: under ∧ symbols = r.right.reverse ++ seen ∧
      r.arity ≤ p.executor.values.items.length ∧
      t.goto top r.left = some target ∧ g.Path (target :: top :: under) (r.left :: seen) ∧
      ((∃ states, reducedStates p.states t r = .ok states ∧
          states.items = target :: top :: under ∧ states.capacity = p.states.capacity ∧
          states.items.length ≤ states.capacity) ∨
        reducedStates p.states t r = .error (.stack (.overflow p.states.capacity))) := by
  have hpath := h.path
  rw [items] at hpath
  obtain ⟨r, hr, hget, top, under, seen, target, hdrop, hsymbols, hunder, hgoto, hedge⟩ :=
    hb.reduce_path hpath cell
  have hrule : t.rule n = .ok r := by
    unfold DecisionTables.rule RuleSet.rule
    rw [hget]
  rw [← items] at hdrop
  -- there is a value for every symbol of the right side
  have hlength : r.arity ≤ p.executor.values.items.length := by
    rw [h.values_length, hsymbols, List.length_append, List.length_reverse]
    exact Nat.le_add_right _ _
  have hpop : r.arity ≤ p.states.items.length := by
    have := h.states_length
    omega
  refine ⟨r, hr, hrule, top, under, target, seen, hdrop, hsymbols, hlength, hgoto,
    hunder.step hedge, ?_⟩
  -- the state that the right side began in comes to the top
  have htop : (p.states.dropTop r.arity).top? = some top := by
    rw [Stack.top?, Stack.items_dropTop, hdrop]
    rfl
  cases hpush : (p.states.dropTop r.arity).push target with
  | error e =>
    right
    simp only [reducedStates, Stack.popMany_eq hpop, htop, hgoto, hpush]
    rw [(Stack.push_eq_error hpush).1]
    rfl
  | ok states =>
    left
    obtain ⟨hroom, hitems, hcapacity⟩ := (Stack.push_eq_ok_iff _ _ _).mp hpush
    rw [Stack.items_dropTop, hdrop] at hitems
    rw [Stack.items_dropTop, hdrop] at hroom
    refine ⟨states, ?_, hitems, hcapacity, ?_⟩
    · simp only [reducedStates, Stack.popMany_eq hpop, htop, hgoto, hpush]
    · rw [hitems, hcapacity]
      exact hroom

/-- Where the states cannot be reduced, the stack is full. -/
theorem unreduced (hb : g.Built t) (h : Follows g p symbols) {q n : Nat} {below : List Nat}
    (items : p.states.items = q :: below) (cell : t.action q p.terminal = some (.reduce n))
    {r : Rule} (rule : t.rule n = .ok r) {e : SyntaxError}
    (reduced : reducedStates p.states t r = .error e) :
    e = .stack (.overflow p.states.capacity) := by
  obtain ⟨r', _, hrule, _, _, _, _, _, _, _, _, _, hcases⟩ := h.reduced hb items cell
  obtain rfl : r' = r := Except.ok.inj (hrule.symm.trans rule)
  rcases hcases with ⟨states, hstates, _⟩ | hfull
  · cases hstates.symm.trans reduced
  · exact (Except.error.inj (hfull.symm.trans reduced)).symm

/-- **What a reduction does to the stacks**: the action of its rule gives the value that takes the
place of those of the right side. -/
theorem performed (hb : g.Built t) (h : Follows g p symbols) {q n : Nat} {below : List Nat}
    (items : p.states.items = q :: below) (cell : t.action q p.terminal = some (.reduce n))
    {r : Rule} (rule : t.rule n = .ok r) {states : Stack Nat}
    (reduced : reducedStates p.states t r = .ok states) {position : Position}
    {session session' : Session} {executor : Executor}
    (run : p.executor.reduce r position session = (.ok (), executor, session')) :
    ∃ seen v c, Performed g t p symbols r ⟨r, p.executor.taken r, position⟩ session states executor
      session' seen v c := by
  obtain ⟨r', hr', hrule, top, under, target, seen, hdrop, hsymbols, harity, hgoto, hpath, hcases⟩ :=
    h.reduced hb items cell
  obtain rfl : r' = r := Except.ok.inj (hrule.symm.trans rule)
  obtain ⟨states', hstates, hitems, hcapacity, hroom⟩ | herror := hcases
  · obtain rfl : states' = states := Except.ok.inj (hstates.symm.trans reduced)
    rcases p.executor.reduce_cases r' position session harity with ⟨err, c, _, hrun⟩ |
      ⟨_, _, _, hrun⟩ | ⟨v, c, values, hperform, hvalues, hsame, hrun⟩
    · cases hrun.symm.trans run
    · cases hrun.symm.trans run
    · cases hrun.symm.trans run
      exact ⟨seen, v, c,
        { rule_mem := hr'
          symbols_eq := hsymbols
          perform_eq := hperform
          actions_eq := rfl
          work_eq := rfl
          stacked_eq := hvalues
          room_eq := hsame
          session_eq := ⟨_, rfl⟩
          capacity_eq := hcapacity
          states_eq := ⟨target, top, under, hitems, hdrop, hgoto⟩
          follows := by
            intro p' hp'states hp'executor
            refine ⟨?_, ?_, ?_⟩
            · rw [hp'states, hitems]
              exact hpath
            · rw [hp'executor]
              simp only [hvalues, List.length_cons, List.length_drop, h.values_length, hsymbols,
                List.length_append, List.length_reverse, Rule.arity]
              omega
            · rw [hp'states]
              exact hroom }⟩
  · cases herror.symm.trans reduced

/-- A refused reduction was refused by the action of its rule, or for want of room. -/
theorem refused (hb : g.Built t) (h : Follows g p symbols) {q n : Nat} {below : List Nat}
    (items : p.states.items = q :: below) (cell : t.action q p.terminal = some (.reduce n))
    {r : Rule} (rule : t.rule n = .ok r) {position : Position} {session session' : Session}
    {executor : Executor} {e : SemanticError}
    (run : p.executor.reduce r position session = (.error e, executor, session')) :
    r ∈ g.rules ∧ (∃ seen, symbols = r.right.reverse ++ seen) ∧
      ((∃ c, Executor.perform p.executor.actions ⟨r, p.executor.taken r, position⟩
          ⟨p.executor.work, session⟩ = (.error e, c)) ∨
        e = .stack (.overflow p.executor.values.capacity) ∧
          p.executor.values.capacity ≤ p.executor.values.items.length) := by
  obtain ⟨r', hr', hrule, _, _, _, seen, _, hsymbols, harity, _⟩ := h.reduced hb items cell
  obtain rfl : r' = r := Except.ok.inj (hrule.symm.trans rule)
  refine ⟨hr', ⟨seen, hsymbols⟩, ?_⟩
  rcases p.executor.reduce_cases r' position session harity with ⟨err, c, hperform, hrun⟩ |
    ⟨_, _, hfull, hrun⟩ | ⟨_, _, _, _, _, _, hrun⟩
  · cases hrun.symm.trans run
    exact .inl ⟨c, hperform⟩
  · cases hrun.symm.trans run
    exact .inr ⟨rfl, hfull⟩
  · cases hrun.symm.trans run

/-- An alarm does not touch the stacks. -/
theorem alarmed (h : Follows g p symbols) (q : Nat) (slot : Option Nat) :
    Follows g (p.alarmed t q slot) symbols := by
  obtain ⟨j, metrics, history, diagnostics, _, heq⟩ := p.alarmed_eq t q slot
  rw [heq]
  exact ⟨h.path, h.values_length, h.within⟩

/-- Nothing that a recovery drops is on the stacks. -/
theorem dropped (h : Follows g p symbols) {p' : ParseState}
    (hd : Relation.ReflTransGen Drops p p') : Follows g p' symbols := by
  induction hd with
  | refl => exact h
  | tail _ hdrop ih =>
    cases hdrop
    exact ⟨ih.path, ih.values_length, ih.within⟩

/-- **Where a recovery goes on, both stacks were cut at one place.** -/
theorem resynchronized (h : Follows g p symbols) {n : Nat} {p' : ParseState}
    (hsync : p.resynchronize? t n = some p') :
    ∃ k, p'.states.items = p.states.items.drop k ∧
      p'.executor.values.items = p.executor.values.items.drop k ∧
      p'.states.capacity = p.states.capacity ∧
      p'.executor.values.capacity = p.executor.values.capacity ∧
      Follows g p' (symbols.drop k) := by
  obtain ⟨k, hlt, hstates, hcapacity, hroom, hcut⟩ := cut_of_resynchronize? hsync
  have hvalues := hcut h.states_length
  refine ⟨k, hstates, hvalues, hcapacity, hroom, ?_, ?_, ?_⟩
  · rw [hstates]
    exact h.path.drop hlt
  · rw [hvalues, List.length_drop, List.length_drop, h.values_length]
  · rw [hstates, hcapacity, List.length_drop]
    exact Nat.le_trans (Nat.sub_le _ _) h.within

/-- **Every move keeps the invariant.** -/
theorem step (hb : g.Built t) (h : Follows g p symbols) {o : SyntaxOptions} {p' : ParseState}
    (hstep : p.step t o = .next p') : ∃ symbols', Follows g p' symbols' := by
  have heffect := step_effect t o p
  rw [hstep] at heffect
  cases heffect with
  | shift items cell pushed found kept =>
    exact ⟨_, h.shifted hb items cell pushed kept rfl rfl⟩
  | reduce items cell rule reduced run =>
    obtain ⟨seen, v, c, hperformed⟩ := h.performed hb items cell rule reduced run
    exact ⟨_, hperformed.follows _ rfl rfl⟩
  | @resumed q below slot _ items cell recovered =>
    have hrecover := (recover_effect t (p.alarmed t q slot) p.repeated).1
    rw [recovered] at hrecover
    cases hrecover with
    | resumed dropped synchronized =>
      obtain ⟨_, _, _, _, _, hfollows⟩ := ((h.alarmed q slot).dropped dropped).resynchronized
        synchronized
      exact ⟨_, hfollows⟩

/-- **What a move can fail with**: a full stack of states or of values, a lookahead that cannot be
had, or an action that refuses its reduction. -/
theorem failed (hb : g.Built t) (h : Follows g p symbols) {o : SyntaxOptions} {e : SyntaxError}
    {p' : ParseState} (hstep : p.step t o = .failed e p') :
    e = .stack (.overflow p.states.capacity) ∨
      (∃ p₁, (p₁ = p ∨ ∃ q slot, Relation.ReflTransGen Drops (p.alarmed t q slot) p₁) ∧
        p₁.Stuck e) ∨
      (e = .semantic (.stack (.overflow p.executor.values.capacity)) ∧
        p.executor.values.capacity ≤ p.executor.values.items.length) ∨
      ∃ r ∈ g.rules, ∃ seen j err c, symbols = r.right.reverse ++ seen ∧
        Executor.perform p.executor.actions ⟨r, p.executor.taken r, p.lookahead.span.start⟩
          ⟨p.executor.work, ⟨p.scanner.registry, j⟩⟩ = (.error err, c) ∧ e = .semantic err := by
  have heffect := step_effect t o p
  rw [hstep] at heffect
  cases heffect with
  | empty items => exact absurd items h.items_ne_nil
  | full items cell pushed => exact .inl (by rw [(Stack.push_eq_error pushed).1])
  | unread items cell pushed stuck => exact .inr (.inl ⟨p, .inl rfl, stuck⟩)
  | unkept items cell pushed kept =>
    obtain ⟨rfl, hfull⟩ := Stack.push_eq_error kept
    exact .inr (.inr (.inl ⟨rfl, hfull⟩))
  | unknown items cell missing =>
    obtain ⟨r, _, hrule, _⟩ := h.reduced hb items cell
    cases hrule.symm.trans missing
  | unreduced items cell rule reduced =>
    exact .inl (h.unreduced hb items cell rule reduced)
  | @refused q n below r states j err executor session _ items cell rule reduced run =>
    obtain ⟨hr, ⟨seen, hsymbols⟩, ⟨c, hperform⟩ | ⟨rfl, hfull⟩⟩ := h.refused hb items cell rule run
    · exact .inr (.inr (.inr ⟨r, hr, seen, j, err, c, hsymbols, hperform, rfl⟩))
    · exact .inr (.inr (.inl ⟨rfl, hfull⟩))
  | @lost q below slot _ _ items cell recovered =>
    have hrecover := (recover_effect t (p.alarmed t q slot) p.repeated).1
    rw [recovered] at hrecover
    cases hrecover with
    | failed dropped stuck => exact .inr (.inl ⟨_, .inr ⟨q, slot, dropped⟩, stuck⟩)

/-- No move fails for want of moves. -/
theorem ne_unfinished (hb : g.Built t) (h : Follows g p symbols) {o : SyntaxOptions}
    {p' : ParseState} : p.step t o ≠ .failed .unfinished p' := by
  intro hstep
  rcases h.failed hb hstep with he | ⟨_, _, _, _, _, _, he⟩ | ⟨he, _⟩ | ⟨_, _, _, _, _, _, _, _, he⟩
  · cases he
  · cases he
  · cases he
  · cases he

end Follows

end ParseState

end Mgol
