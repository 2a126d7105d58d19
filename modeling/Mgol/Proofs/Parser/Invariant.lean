import Mgol.Proofs.Parser.MgolTables
import Mgol.Proofs.Parser.Stacks
import Mgol.Proofs.Scanner.Progress
import Mgol.Proofs.Semantics.Tame

/-! # The invariant of a parse of MGol

The stack of states is a path of the collection, every symbol on it has its value, and every value
of a name is a name of the registry. Recoveries cut the stacks and drop tokens, and keep all of it.

* **`ParseState.Safe`** — the invariant.
* **`ParseState.Safe.step`** — every move keeps it.
* **`ParseState.Safe.failed`** — what a move can fail with.
* **`eq_of_startState`, `safe_of_startState`** — what a parse begins with, and that the invariant
  holds then, whatever the lexicon. -/

namespace Mgol

/-- **What may stop the parse of a program**: a source that breaks off, too many tokens, a full
stack, or too many temporaries. -/
inductive SyntaxError.Permitted (failure : Option String) (capacity : Nat) : SyntaxError → Prop
  | read {message : String} {p : Position} (broken : failure = some message) :
      Permitted failure capacity (.lexical (.sourceRead message p))
  | tokens : Permitted failure capacity (.lexical (.tokenLimit Limits.tokenCount))
  | overflow : Permitted failure capacity (.stack (.overflow capacity))
  | temporaries : Permitted failure capacity (.semantic (.tooManyTemporaries Limits.temporaries))

namespace ParseState

/-- **The invariant of a parse of MGol** over the symbols on its stack, top first. -/
structure Safe (failure : Option String) (capacity : Nat) (symbols : List GrammarSymbol)
    (p : ParseState) : Prop where
  follows : Follows RuleSet.mgol p symbols
  named : List.Forall₂ (fun a v => a = "id" → p.scanner.registry.Knows v.value.lexeme) symbols
    p.executor.values.items
  sound : p.scanner.registry.Sound
  entered : p.lookahead.value.kind = .identifier →
    p.scanner.registry.Knows p.lookahead.value.lexeme
  actions_eq : p.executor.actions = mgolActions
  failure_eq : p.scanner.input.failure = failure
  capacity_eq : p.states.capacity = capacity
  room_eq : p.executor.values.capacity = capacity

namespace Safe

variable {failure : Option String} {capacity : Nat} {symbols : List GrammarSymbol}
  {p p' : ParseState}

/-- What a search for the next lookahead gives. -/
theorem advanced (h : p.Safe failure capacity symbols) {j : Journal} {t : Spanned Token}
    {s : Scanner} (found : (p.scanner.withJournal j).nextVisible = (.ok t, s)) :
    p.scanner.Advanced t s :=
  { (Scanner.finds_of_nextVisible found).advanced h.sound with }

/-- Names stay names while the registry keeps them. -/
theorem named_of_knows (h : p.Safe failure capacity symbols) {r : Registry}
    (hknows : ∀ lexeme, p.scanner.registry.Knows lexeme → r.Knows lexeme) :
    List.Forall₂ (fun a v => a = "id" → r.Knows v.value.lexeme) symbols
      p.executor.values.items :=
  h.named.imp fun _ _ hname ha => hknows _ (hname ha)

/-- What stops the search for a lookahead. -/
theorem stuck (h : p.Safe failure capacity symbols) {e : SyntaxError} (he : p.Stuck e) :
    e.Permitted failure capacity := by
  obtain ⟨j, e', s, hfound, rfl⟩ := he
  rcases Scanner.error_of_nextVisible hfound with rfl | ⟨message, position, rfl, hbroken⟩
  · exact .tokens
  · exact .read (h.failure_eq.symm.trans hbroken)

/-- Dropping the lookahead keeps the invariant. -/
theorem drops (h : p.Safe failure capacity symbols) (hd : p.Drops p') :
    p'.Safe failure capacity symbols := by
  cases hd with
  | drop more found =>
    have hadvanced := h.advanced found
    exact
      { follows := ⟨h.follows.path, h.follows.values_length, h.follows.within⟩
        named := h.named_of_knows fun _ hk => hk.of_extends hadvanced.grown
        sound := hadvanced.sound
        entered := hadvanced.entered
        actions_eq := h.actions_eq
        failure_eq := hadvanced.failure_eq.trans h.failure_eq
        capacity_eq := h.capacity_eq
        room_eq := h.room_eq }

/-- Dropping lookaheads keeps the invariant. -/
theorem dropped (h : p.Safe failure capacity symbols)
    (hd : Relation.ReflTransGen Drops p p') : p'.Safe failure capacity symbols := by
  induction hd with
  | refl => exact h
  | tail _ hdrop ih => exact ih.drops hdrop

/-- An alarm keeps the invariant. -/
theorem alarmed (h : p.Safe failure capacity symbols) (tables : DecisionTables) (q : Nat)
    (slot : Option Nat) : (p.alarmed tables q slot).Safe failure capacity symbols := by
  obtain ⟨j, metrics, history, diagnostics, _, heq⟩ := p.alarmed_eq tables q slot
  rw [heq]
  exact
    { follows := ⟨h.follows.path, h.follows.values_length, h.follows.within⟩
      named := h.named
      sound := h.sound
      entered := h.entered
      actions_eq := h.actions_eq
      failure_eq := h.failure_eq
      capacity_eq := h.capacity_eq
      room_eq := h.room_eq }

/-- **Cutting the stacks keeps the invariant.** -/
theorem resynchronized (h : p.Safe failure capacity symbols) {tables : DecisionTables} {n : Nat}
    (hsync : p.resynchronize? tables n = some p') :
    ∃ k, p'.Safe failure capacity (symbols.drop k) := by
  obtain ⟨k, _, hvalues, hcapacity, hroom, hfollows⟩ := h.follows.resynchronized hsync
  obtain ⟨j, states, values, metrics, rfl⟩ := resynchronize?_eq hsync
  refine ⟨k, ?_⟩
  exact
    { follows := hfollows
      named := by
        rw [hvalues]
        exact List.forall₂_drop k h.named
      sound := h.sound
      entered := h.entered
      actions_eq := h.actions_eq
      failure_eq := h.failure_eq
      capacity_eq := hcapacity.trans h.capacity_eq
      room_eq := hroom.trans h.room_eq }

/-- The actions of MGol do their part in every reduction. -/
theorem tame (h : p.Safe failure capacity symbols) {r : Rule} (hr : r ∈ RuleSet.mgol.rules)
    {seen : List GrammarSymbol} (hsymbols : symbols = r.right.reverse ++ seen) (j : Journal) :
    ActionResult.Tame ⟨p.executor.work, ⟨p.scanner.registry, j⟩⟩
      (Executor.perform p.executor.actions ⟨r, p.executor.taken r, p.lookahead.span.start⟩
        ⟨p.executor.work, ⟨p.scanner.registry, j⟩⟩) := by
  have hnamed := h.named
  rw [hsymbols] at hnamed
  obtain ⟨htaken, _⟩ := Executor.forall₂_taken hnamed
  rw [h.actions_eq]
  refine SemanticAction.perform_mgol_tame hr htaken.length_eq.symm _ _ ?_
  intro v hname hv
  generalize p.executor.taken r = taken, r.right = right at htaken hname hv
  cases htaken with
  | nil => cases hv
  | cons hfirst _ =>
    obtain rfl := Option.some.inj hv
    exact hfirst (Option.some.inj hname)

/-- No rule has a name on its left side. -/
theorem left_ne_id {r : Rule} (hr : r ∈ RuleSet.mgol.rules) : r.left ≠ "id" := by
  revert r
  decide

/-- A shift keeps the invariant. -/
theorem shifted (h : p.Safe failure capacity symbols) {q target : Nat} {below : List Nat}
    (items : p.states.items = q :: below)
    (cell : DecisionTables.mgol.action q p.terminal = some (.shift target)) {states : Stack Nat}
    (pushed : p.states.push target = .ok states) {j : Journal} {t : Spanned Token} {s : Scanner}
    (found : (p.scanner.withJournal j).nextVisible = (.ok t, s)) {values : Stack (Spanned Token)}
    (kept : p.executor.values.push p.lookahead = .ok values) (metrics : SyntaxMetrics) :
    Safe failure capacity (p.terminal :: symbols)
      { p with
        scanner := s, states, lookahead := t, trigger := none, metrics
        executor := { p.executor with values } } := by
  have hadvanced := h.advanced found
  obtain ⟨_, _, hcapacity⟩ := (Stack.push_eq_ok_iff _ _ _).mp pushed
  obtain ⟨_, hitems, hroom⟩ := (Stack.push_eq_ok_iff _ _ _).mp kept
  exact
    { follows := h.follows.shifted RuleSet.mgol_built items cell pushed kept rfl rfl
      named := by
        simp only [hitems]
        refine .cons (fun hid => ?_) (h.named_of_knows fun _ hk => hk.of_extends hadvanced.grown)
        exact (h.entered (Token.kind_of_terminalName_eq_id hid)).of_extends
          hadvanced.grown
      sound := hadvanced.sound
      entered := hadvanced.entered
      actions_eq := h.actions_eq
      failure_eq := hadvanced.failure_eq.trans h.failure_eq
      capacity_eq := hcapacity.trans h.capacity_eq
      room_eq := hroom.trans h.room_eq }

/-- A reduction keeps the invariant. -/
theorem reduced (h : p.Safe failure capacity symbols) {q n : Nat} {below : List Nat}
    (items : p.states.items = q :: below)
    (cell : DecisionTables.mgol.action q p.terminal = some (.reduce n)) {r : Rule}
    (rule : DecisionTables.mgol.rule n = .ok r) {states : Stack Nat}
    (reduced : reducedStates p.states .mgol r = .ok states) {j : Journal} {executor : Executor}
    {session : Session}
    (run : p.executor.reduce r p.lookahead.span.start ⟨p.scanner.registry, j⟩ =
      (.ok (), executor, session)) (metrics : SyntaxMetrics) :
    r ∈ RuleSet.mgol.rules ∧ ∃ seen, symbols = r.right.reverse ++ seen ∧
      Safe failure capacity (r.left :: seen)
        { p with scanner := { p.scanner with session }, states, executor, metrics } := by
  obtain ⟨seen, v, c, hperformed⟩ :=
    h.follows.performed RuleSet.mgol_built items cell rule reduced run
  obtain ⟨span, hvalues⟩ := hperformed.values_eq
  obtain ⟨j', rfl⟩ := hperformed.session_eq
  have htame := h.tame hperformed.rule_mem hperformed.symbols_eq j
  rw [hperformed.perform_eq] at htame
  -- actions change types only, so every name stays in the registry
  have hknows : ∀ lexeme, p.scanner.registry.Knows lexeme → c.session.registry.Knows lexeme :=
    fun _ hk => hk.of_sameWords htame.keeps.sameWords
  have hnamed := h.named_of_knows hknows
  rw [hperformed.symbols_eq] at hnamed
  refine ⟨hperformed.rule_mem, seen, hperformed.symbols_eq, ?_⟩
  exact
    { follows := hperformed.follows _ rfl rfl
      named := by
        simp only [hvalues]
        exact .cons (fun hid => absurd hid (left_ne_id hperformed.rule_mem))
          (Executor.forall₂_taken hnamed).2
      sound := h.sound.of_sameWords htame.keeps.sameWords
      entered := fun hkind => hknows _ (h.entered hkind)
      actions_eq := hperformed.actions_eq.trans h.actions_eq
      failure_eq := h.failure_eq
      capacity_eq := hperformed.capacity_eq.trans h.capacity_eq
      room_eq := hperformed.room_eq.trans h.room_eq }

/-- **Every move keeps the invariant.** -/
theorem step (h : p.Safe failure capacity symbols) {o : SyntaxOptions}
    (hstep : p.step .mgol o = .next p') : ∃ symbols', p'.Safe failure capacity symbols' := by
  have heffect := step_effect .mgol o p
  rw [hstep] at heffect
  cases heffect with
  | shift items cell pushed found kept =>
    exact ⟨_, h.shifted items cell pushed found kept _⟩
  | reduce items cell rule reduced run =>
    obtain ⟨_, seen, _, hsafe⟩ := h.reduced items cell rule reduced run _
    exact ⟨_, hsafe⟩
  | @resumed q below slot _ items cell recovered =>
    have hrecover := (recover_effect .mgol (p.alarmed .mgol q slot) p.repeated).1
    rw [recovered] at hrecover
    cases hrecover with
    | resumed dropped synchronized =>
      obtain ⟨k, hsafe⟩ := ((h.alarmed .mgol q slot).dropped dropped).resynchronized synchronized
      exact ⟨_, hsafe⟩

/-- **What a move can fail with.** -/
theorem failed (h : p.Safe failure capacity symbols) {o : SyntaxOptions} {e : SyntaxError}
    (hstep : p.step .mgol o = .failed e p') : e.Permitted failure capacity := by
  rcases h.follows.failed RuleSet.mgol_built hstep with rfl | ⟨p₁, hp₁, hstuck⟩ | ⟨_, hfull⟩ |
    ⟨r, hr, seen, j, err, c, hsymbols, hperform, rfl⟩
  · rw [h.capacity_eq]
    exact .overflow
  · rcases hp₁ with rfl | ⟨q, slot, hdropped⟩
    · exact h.stuck hstuck
    · exact ((h.alarmed .mgol q slot).dropped hdropped).stuck hstuck
  · -- there is one state more than values, and the capacities are the same
    have hlength := h.follows.states_length
    have hwithin := h.follows.within
    rw [h.room_eq] at hfull
    rw [h.capacity_eq] at hwithin
    omega
  · have htame := h.tame hr hsymbols j
    rw [hperform] at htame
    rw [htame.refused err rfl]
    exact .temporaries

end Safe

end ParseState

/-! ## The beginning of a parse -/

/-- There is room for the first state. -/
theorem SyntaxOptions.effectiveCapacity_pos (o : SyntaxOptions) : 0 < o.effectiveCapacity := by
  unfold effectiveCapacity Limits.stackDepth
  omega

/-- **A parse begins with the first lookahead**, unless that cannot be had. -/
theorem startState_cases (scanner : Scanner) (executor : Executor) (o : SyntaxOptions) :
    (∃ t s states, scanner.nextVisible = (.ok t, s) ∧
        (Stack.ofCapacity o.effectiveCapacity).push 0 = .ok states ∧
        states.items = [0] ∧ states.capacity = o.effectiveCapacity ∧
        startState scanner executor o.effectiveCapacity =
          (.ok { scanner := s, states, executor, lookahead := t }, {})) ∨
      ∃ e s, scanner.nextVisible = (.error e, s) ∧
        startState scanner executor o.effectiveCapacity =
          (.error (.lexical e), s.session.journal) := by
  obtain ⟨states, hpush, hitems, hcapacity⟩ :=
    (Stack.ofCapacity o.effectiveCapacity).exists_push 0 o.effectiveCapacity_pos
  unfold startState
  rw [hpush]
  rcases hfound : scanner.nextVisible with ⟨⟨e⟩ | ⟨t⟩, s⟩
  · exact .inr ⟨e, s, rfl, rfl⟩
  · exact .inl ⟨t, s, states, rfl, rfl, hitems, hcapacity, rfl⟩

/-- A parse that begins does so with a journal. -/
theorem exists_start {scanner : Scanner} {executor : Executor} {capacity : Nat} {p₀ : ParseState}
    (h : (startState scanner executor capacity).1.toOption = some p₀) :
    ∃ j, startState scanner executor capacity = (.ok p₀, j) := by
  rcases hstart : startState scanner executor capacity with ⟨⟨e⟩ | ⟨p⟩, j⟩
  · rw [hstart] at h
    cases h
  · rw [hstart] at h
    exact ⟨j, by rw [Option.some.inj h]⟩

/-- **A parse begins** in the first state with the first token ahead. -/
theorem eq_of_startState {scanner : Scanner} {executor : Executor} {o : SyntaxOptions}
    {p₀ : ParseState} {j : Journal}
    (hstart : startState scanner executor o.effectiveCapacity = (.ok p₀, j)) :
    ∃ t s states, scanner.nextVisible = (.ok t, s) ∧ states.items = [0] ∧
      states.capacity = o.effectiveCapacity ∧
      p₀ = { scanner := s, states, executor, lookahead := t } := by
  rcases startState_cases scanner executor o with
    ⟨t, s, states, hfound, -, hitems, hcapacity, heq⟩ | ⟨e, s, -, heq⟩
  · cases heq.symm.trans hstart
    exact ⟨t, s, states, hfound, hitems, hcapacity, rfl⟩
  · cases heq.symm.trans hstart

/-- The invariant holds when a parse of MGol begins. -/
theorem safe_of_startState {scanner s : Scanner} (hsound : scanner.registry.Sound)
    {o : SyntaxOptions} {t : Spanned Token} {states : Stack Nat}
    (hfound : scanner.nextVisible = (.ok t, s)) (hitems : states.items = [0])
    (hcapacity : states.capacity = o.effectiveCapacity) :
    ParseState.Safe scanner.input.failure o.effectiveCapacity []
      { scanner := s, states, executor := .mgol o.effectiveCapacity, lookahead := t } := by
  have hadvanced := (Scanner.finds_of_nextVisible hfound).advanced hsound
  exact
    { follows :=
        { path := by rw [hitems]; exact .start
          values_length := rfl
          within := by rw [hitems, hcapacity]; exact o.effectiveCapacity_pos }
      named := .nil
      sound := hadvanced.sound
      entered := hadvanced.entered
      actions_eq := rfl
      failure_eq := hadvanced.failure_eq
      capacity_eq := hcapacity
      room_eq := rfl }

end Mgol
