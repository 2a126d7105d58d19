import Mgol.Proofs.Grammar.Check
import Mgol.Proofs.Parser.Language

/-! # The stacks stay aligned

With constructed tables the state stack is at any time a path of the tables, and each edge of it has
its value: the token that was shifted over it, or the nonterminal that it was reduced to. A recovery
cuts a path and its values at one place, so what is left is a path with its values again.

* **`ParseState.Aligned`** — a path of the tables with a value for every edge.
* **`ParseState.Paired.step`** — every move keeps the stacks aligned.
* **`ParseState.Configuration`** — the states that a parse comes to.
* **`stacks_aligned`** — the stacks of a parse without actions, and what it can fail with. -/

namespace Mgol

namespace ParseState

variable {g : RuleSet} {t : DecisionTables}

/-- **A path of the tables with its values**, top first: from state 0 on, every edge is a shift over
the terminal of a token that `Seen` holds of, or leads over a nonterminal. -/
inductive Aligned (t : DecisionTables) (Seen : Spanned Token → Prop) :
    List Nat → List (Spanned Token) → Prop
  | start : Aligned t Seen [0] []
  | shifted {q q' : Nat} {below : List Nat} {values : List (Spanned Token)} {v : Spanned Token}
      (under : Aligned t Seen (q :: below) values) (seen : Seen v)
      (edge : t.action q v.value.terminalName = some (.shift q')) :
      Aligned t Seen (q' :: q :: below) (v :: values)
  | reduced {q q' : Nat} {below : List Nat} {values : List (Spanned Token)} {a : GrammarSymbol}
      {span : Span} (under : Aligned t Seen (q :: below) values) (edge : t.goto q a = some q') :
      Aligned t Seen (q' :: q :: below) (⟨.ofNonterminal a, span⟩ :: values)

namespace Aligned

variable {Seen : Spanned Token → Prop} {states : List Nat} {values : List (Spanned Token)}

/-- There is one state more than values. -/
theorem length_eq (h : Aligned t Seen states values) : states.length = values.length + 1 := by
  induction h with
  | start => rfl
  | shifted _ _ _ ih => simpa using ih
  | reduced _ _ ih => simpa using ih

/-- **Cutting both stacks at one place leaves them aligned.** -/
theorem drop (h : Aligned t Seen states values) {k : Nat} (hk : k < states.length) :
    Aligned t Seen (states.drop k) (values.drop k) := by
  induction k generalizing states values with
  | zero => exact h
  | succ k ih =>
    cases h with
    | start => simp at hk
    | shifted under _ _ => exact ih under (by simpa using hk)
    | reduced under _ => exact ih under (by simpa using hk)

end Aligned

/-- **The invariant of a parse without actions**: its stacks follow the collection and are aligned,
and the value stack has room for as many items as the state stack. -/
structure Paired (g : RuleSet) (t : DecisionTables) (Seen : Spanned Token → Prop) (p : ParseState) :
    Prop where
  follows : ∃ symbols, Follows g p symbols
  aligned : Aligned t Seen p.states.items p.executor.values.items
  actions_eq : p.executor.actions = fun _ => none
  room : p.states.capacity ≤ p.executor.values.capacity

namespace Paired

variable {Seen : Spanned Token → Prop} {p p' : ParseState}

/-- An alarm and the lookaheads that are dropped after it do not touch the stacks. -/
theorem dropped (h : Paired g t Seen p) {q : Nat} {slot : Option Nat}
    (hd : Relation.ReflTransGen Drops (p.alarmed t q slot) p') : Paired g t Seen p' := by
  induction hd with
  | refl =>
    obtain ⟨symbols, hfollows⟩ := h.follows
    obtain ⟨_, _, _, _, _, heq⟩ := p.alarmed_eq t q slot
    refine ⟨⟨symbols, hfollows.alarmed q slot⟩, ?_, ?_, ?_⟩
    · rw [heq]
      exact h.aligned
    · rw [heq]
      exact h.actions_eq
    · rw [heq]
      exact h.room
  | tail _ hdrop ih =>
    cases hdrop
    obtain ⟨symbols, hfollows⟩ := ih.follows
    exact ⟨⟨symbols, hfollows.path, hfollows.values_length, hfollows.within⟩, ih.aligned,
      ih.actions_eq, ih.room⟩

/-- **Where a recovery goes on the stacks are aligned.** -/
theorem resynchronized (h : Paired g t Seen p) {n : Nat}
    (hsync : p.resynchronize? t n = some p') : Paired g t Seen p' := by
  obtain ⟨symbols, hfollows⟩ := h.follows
  obtain ⟨k, hstates, hvalues, hcapacity, hroom, hfollows'⟩ := hfollows.resynchronized hsync
  -- a state is left, so fewer were cut off than there were
  have hk : k < p.states.items.length := by
    by_contra hge
    rw [List.drop_eq_nil_iff.mpr (Nat.not_lt.mp hge)] at hstates
    exact hfollows'.items_ne_nil hstates
  refine ⟨⟨_, hfollows'⟩, ?_, ?_, ?_⟩
  · rw [hstates, hvalues]
    exact h.aligned.drop hk
  · obtain ⟨_, _, _, _, rfl⟩ := resynchronize?_eq hsync
    exact h.actions_eq
  · rw [hcapacity, hroom]
    exact h.room

/-- **Every move keeps the stacks aligned.** -/
theorem step (hb : g.Built t) (h : Paired g t Seen p) (hseen : Seen p.lookahead)
    {o : SyntaxOptions} (hstep : p.step t o = .next p') : Paired g t Seen p' := by
  obtain ⟨symbols, hfollows⟩ := h.follows
  have heffect := step_effect t o p
  rw [hstep] at heffect
  cases heffect with
  | shift items cell pushed found kept =>
    obtain ⟨_, hstates, hcapacity⟩ := (Stack.push_eq_ok_iff _ _ _).mp pushed
    obtain ⟨_, hvalues, hroom⟩ := (Stack.push_eq_ok_iff _ _ _).mp kept
    refine ⟨⟨_, hfollows.shifted hb items cell pushed kept rfl rfl⟩, ?_, h.actions_eq, ?_⟩
    · have haligned := h.aligned
      simp only [hstates, hvalues]
      rw [items] at haligned ⊢
      exact .shifted haligned hseen cell
    · simp only [hcapacity, hroom]
      exact h.room
  | @reduce q n below r states j executor session items cell rule reduced run =>
    obtain ⟨seen, v, c, hperformed⟩ := hfollows.performed hb items cell rule reduced run
    obtain ⟨target, top, under, hstates, hdrop, hgoto⟩ := hperformed.states_eq
    obtain ⟨span, hvalues⟩ := hperformed.values_eq
    -- without an action the value is the name of the left side
    have hv : v = .ofNonterminal r.left := by
      have hperform := hperformed.perform_eq
      rw [h.actions_eq] at hperform
      exact (Except.ok.inj (Prod.mk.inj hperform).1).symm
    refine ⟨⟨_, hperformed.follows _ rfl rfl⟩, ?_, hperformed.actions_eq.trans h.actions_eq, ?_⟩
    · have hk : r.arity < p.states.items.length := by
        by_contra hge
        rw [List.drop_eq_nil_iff.mpr (Nat.not_lt.mp hge)] at hdrop
        cases hdrop
      have haligned := h.aligned.drop hk
      simp only [hstates, hvalues, hv]
      rw [hdrop] at haligned
      exact .reduced haligned hgoto
    · simp only [hperformed.capacity_eq, hperformed.room_eq]
      exact h.room
  | @resumed q below slot _ items cell recovered =>
    have hrecover := (recover_effect t (p.alarmed t q slot) p.repeated).1
    rw [recovered] at hrecover
    cases hrecover with
    | resumed dropped synchronized => exact (h.dropped dropped).resynchronized synchronized

/-- The stacks are aligned when a parse is abandoned. -/
theorem abandoned (h : Paired g t Seen p) {o : SyntaxOptions}
    (hstep : p.step t o = .abandoned p') : Paired g t Seen p' := by
  have heffect := step_effect t o p
  rw [hstep] at heffect
  cases heffect with
  | @abandoned q below slot last items cell recovered =>
    have hrecover := (recover_effect t (p.alarmed t q slot) p.repeated).1
    rw [recovered] at hrecover
    cases hrecover with
    | exhausted dropped =>
      obtain ⟨⟨symbols, hfollows⟩, haligned, hactions, hroom⟩ := h.dropped dropped
      exact ⟨⟨symbols, hfollows.path, hfollows.values_length, hfollows.within⟩, haligned, hactions,
        hroom⟩

/-- **What a move without actions can fail with**: a full state stack or the scanner. -/
theorem failed (hb : g.Built t) (h : Paired g t Seen p) {o : SyntaxOptions} {e : SyntaxError}
    (hstep : p.step t o = .failed e p') :
    e = .stack (.overflow p.states.capacity) ∨ ∃ e', e = .lexical e' := by
  obtain ⟨symbols, hfollows⟩ := h.follows
  rcases hfollows.failed hb hstep with rfl | ⟨_, _, _, e', _, _, rfl⟩ | ⟨_, hfull⟩ |
    ⟨r, _, _, j, err, c, _, hperform, _⟩
  · exact .inl rfl
  · exact .inr ⟨e', rfl⟩
  · -- there is one state more than values, and no more room for states
    have hlength := hfollows.states_length
    have hwithin := hfollows.within
    have hroom := h.room
    omega
  · rw [h.actions_eq] at hperform
    cases hperform

end Paired

/-! ## Whole parses -/

/-- **A state that a parse comes to** from a state: by moves, or by giving up after them. -/
inductive Configuration (t : DecisionTables) (o : SyntaxOptions) (p₀ : ParseState) :
    ParseState → Prop
  | reached {p : ParseState}
      (moves : Relation.ReflTransGen (fun p p' => p.step t o = .next p') p₀ p) :
      Configuration t o p₀ p
  | abandoned {p p' : ParseState}
      (moves : Relation.ReflTransGen (fun p p' => p.step t o = .next p') p₀ p)
      (last : p.step t o = .abandoned p') : Configuration t o p₀ p'

/-- **What every move keeps holds in every state that a parse comes to.** -/
theorem Configuration.keeps {o : SyntaxOptions} {p₀ p : ParseState}
    (hp : Configuration t o p₀ p) (Inv : ParseState → Prop) (h : Inv p₀)
    (hstep : ∀ {p p'}, Inv p → p.step t o = .next p' → Inv p')
    (hlast : ∀ {p p'}, Inv p → p.step t o = .abandoned p' → Inv p') : Inv p := by
  have hreached : ∀ {p}, Relation.ReflTransGen (fun p p' => p.step t o = .next p') p₀ p →
      Inv p := by
    intro p moves
    induction moves with
    | refl => exact h
    | tail _ hmove ih => exact hstep ih hmove
  cases hp with
  | reached moves => exact hreached moves
  | abandoned moves last => exact hlast (hreached moves) last

/-- **A token that a parse has come to**: the lookahead of one of its states. -/
def Met (t : DecisionTables) (o : SyntaxOptions) (p₀ : ParseState) (v : Spanned Token) : Prop :=
  ∃ p, Configuration t o p₀ p ∧ p.lookahead = v

/-- The stacks of a parse stay aligned. -/
theorem Paired.reached (hb : g.Built t) {o : SyntaxOptions} {p₀ p : ParseState}
    (h : Paired g t (Met t o p₀) p₀)
    (moves : Relation.ReflTransGen (fun p p' => p.step t o = .next p') p₀ p) :
    Paired g t (Met t o p₀) p := by
  induction moves with
  | refl => exact h
  | tail before hstep ih => exact ih.step hb ⟨_, .reached before, rfl⟩ hstep

/-- The stacks are aligned in every state that a parse comes to. -/
theorem Paired.configuration (hb : g.Built t) {o : SyntaxOptions} {p₀ p : ParseState}
    (h : Paired g t (Met t o p₀) p₀) (hp : Configuration t o p₀ p) :
    Paired g t (Met t o p₀) p := by
  cases hp with
  | reached moves => exact h.reached hb moves
  | abandoned moves last => exact (h.reached hb moves).abandoned last

/-- What a run without actions can fail with. -/
theorem Paired.run (hb : g.Built t) {o : SyntaxOptions} {p₀ : ParseState}
    (h : Paired g t (Met t o p₀) p₀) {n : Nat} {e : SyntaxError} {q : ParseState}
    (hrun : p₀.run t o n = .failed e q) :
    (∃ capacity, e = .stack (.overflow capacity)) ∨ (∃ e', e = .lexical e') ∨ e = .unfinished := by
  obtain ⟨p, hmoves, hended⟩ := run_induction t o
    (Relation.ReflTransGen (fun p p' => p.step t o = .next p') p₀)
    (fun _ _ hmoves hstep => hmoves.tail hstep) n .refl
  rw [hrun] at hended
  cases hended with
  | unfinished => exact .inr (.inr rfl)
  | failed last =>
    rcases (h.reached hb hmoves).failed hb last with rfl | hlexical
    · exact .inl ⟨_, rfl⟩
    · exact .inr (.inl hlexical)

end ParseState

/-- The stacks are aligned when a parse without actions begins. -/
theorem paired_of_startState {g : RuleSet} {t : DecisionTables} {Seen : Spanned Token → Prop}
    {scanner : Scanner} {capacity : Nat} {o : SyntaxOptions} (hroom : o.effectiveCapacity ≤ capacity)
    {p₀ : ParseState} {j : Journal}
    (hstart : startState scanner (.bare capacity) o.effectiveCapacity = (.ok p₀, j)) :
    p₀.Paired g t Seen := by
  obtain ⟨u, s, states, -, hitems, hcapacity, rfl⟩ := eq_of_startState hstart
  refine ⟨⟨[], ?_, rfl, ?_⟩, ?_, rfl, ?_⟩
  · rw [hitems]
    exact .start
  · rw [hitems, hcapacity]
    exact o.effectiveCapacity_pos
  · rw [hitems]
    exact .start
  · rw [hcapacity]
    exact hroom

/-- **The stacks stay aligned through recovery.** Constructed tables pass the check. In every state
that a parse with them and without actions comes to, whatever the scanner, the state stack is a path
of the tables from state 0 on, there is one value fewer, and each value is the token that was
shifted, or the nonterminal that was reduced to, over its edge. So such a parse fails for the
scanner, a full stack or the bound on moves alone. -/
theorem stacks_aligned {rules : List Rule} {origin : String} {g : RuleSet}
    (hg : RuleSet.ofRules rules origin = .ok g) {policy : ErrorPolicy} {built : SlrTables}
    (hbuilt : g.slrTables policy = .ok built) :
    DecisionTables.check ⟨g, built.actions, built.gotos⟩ = .ok ⟨g, built.actions, built.gotos⟩ ∧
    ∀ scanner capacity o, o.effectiveCapacity ≤ capacity →
      (∀ p₀ j, startState scanner (.bare capacity) o.effectiveCapacity = (.ok p₀, j) →
        ∀ p, ParseState.Configuration ⟨g, built.actions, built.gotos⟩ o p₀ p →
          p.states.items.length = p.executor.values.items.length + 1 ∧
          ParseState.Aligned ⟨g, built.actions, built.gotos⟩
            (ParseState.Met ⟨g, built.actions, built.gotos⟩ o p₀) p.states.items
            p.executor.values.items) ∧
      ∀ moves e,
        (parseWithin moves (.bare capacity) scanner ⟨g, built.actions, built.gotos⟩ o).1 =
          .error e →
        (∃ depth, e = .stack (.overflow depth)) ∨ (∃ e', e = .lexical e') ∨ e = .unfinished := by
  have hnumbered := RuleSet.numbered_of_ofRules hg
  have hb : g.Built ⟨g, built.actions, built.gotos⟩ := ⟨hnumbered, rfl, policy, hbuilt⟩
  refine ⟨RuleSet.check_slrTables hnumbered hbuilt, fun scanner capacity o hroom => ⟨?_, ?_⟩⟩
  · intro p₀ j hstart p hp
    have haligned := ((paired_of_startState hroom hstart).configuration hb hp).aligned
    exact ⟨haligned.length_eq, haligned⟩
  · intro moves e herror
    rcases startState_cases scanner (.bare capacity) o with
      ⟨u, s, states, _, _, _, _, hstart⟩ | ⟨e', s, _, hstart⟩
    · rw [parseWithin, hstart] at herror
      cases hrun : ParseState.run ⟨g, built.actions, built.gotos⟩ o moves
          { scanner := s, states, executor := .bare capacity, lookahead := u } with
      | accepted q =>
        simp only [hrun] at herror
        cases herror
      | abandoned q =>
        simp only [hrun] at herror
        cases herror
      | failed e' q =>
        simp only [hrun] at herror
        obtain rfl := Except.error.inj herror
        exact (paired_of_startState hroom hstart).run hb hrun
    · rw [parseWithin, hstart] at herror
      exact .inr (.inl ⟨e', (Except.error.inj herror).symm⟩)

/-- The rules of lists of names with commas between them. -/
def nameRules : List Rule := [⟨1, "S", ["L"]⟩, ⟨2, "L", ["L", "vir", "id"]⟩, ⟨3, "L", ["id"]⟩]

/-- The tables of lists of names keep the stacks aligned on a list with a comma too many. -/
theorem stacks_aligned_names :
    ∃ g built, RuleSet.ofRules nameRules "names" = .ok g ∧ g.slrTables .uniform = .ok built ∧
      ∃ p₀ j,
        startState (.ofInput ⟨Text.encode "a,,b", none⟩) (.bare Limits.stackDepth)
          (SyntaxOptions.effectiveCapacity {}) = (.ok p₀, j) ∧
        ∀ p, ParseState.Configuration ⟨g, built.actions, built.gotos⟩ {} p₀ p →
          p.states.items.length = p.executor.values.items.length + 1 := by
  let g : RuleSet := ⟨⟨1, "S", ["L"]⟩, [⟨2, "L", ["L", "vir", "id"]⟩, ⟨3, "L", ["id"]⟩]⟩
  have hg : RuleSet.ofRules nameRules "names" = .ok g := by rfl
  obtain ⟨built, hbuilt⟩ : ∃ built, g.slrTables .uniform = .ok built := by
    have h : (g.slrTables .uniform).toBool = true := by decide +kernel
    cases hslr : g.slrTables .uniform with
    | error e =>
      rw [hslr] at h
      cases h
    | ok built => exact ⟨built, rfl⟩
  refine ⟨g, built, hg, hbuilt, ?_⟩
  have hok : (startState (.ofInput ⟨Text.encode "a,,b", none⟩) (.bare Limits.stackDepth)
      (SyntaxOptions.effectiveCapacity {})).1.toOption.isSome = true := by decide +kernel
  obtain ⟨p₀, hstarted⟩ := Option.isSome_iff_exists.mp hok
  obtain ⟨j, hstart⟩ := exists_start hstarted
  refine ⟨p₀, j, hstart, fun p hp => ?_⟩
  have haligned := (stacks_aligned hg hbuilt).2 (.ofInput ⟨Text.encode "a,,b", none⟩)
    Limits.stackDepth {} (by decide)
  exact (haligned.1 p₀ j hstart p hp).1

end Mgol
