import Mathlib.Algebra.GroupWithZero.Nat
import Mgol.Proofs.Parser.Invariant

/-! # Every parse of MGol ends

Each move makes a potential smaller that counts the tokens ahead, the symbols on the stack, and
whether the lookahead was recovered from. A recovery may go on with the same lookahead once; the
second time the lookahead is dropped.

* **`ParseState.potential`** — what every move makes smaller.
* **`ParseState.Placed`, `ParseState.Sure.step`** — every move makes it smaller.
* **`ParseState.recoveryCalls`** — the recoveries of a run.
* **`parse_ends`** — a parse takes a number of moves that the length of its source bounds, and
  recovers at most twice from one lookahead. -/

namespace Mgol

namespace ParseState

/-! ## The potential -/

/-- What a symbol on the stack counts. A reduction leaves less than it takes off. -/
def weight (a : GrammarSymbol) : Nat :=
  if RuleSet.mgol.isNonterminal a then if a = "OPRD" then 2 else 1 else 3

/-- What the symbols on the stack count together. -/
def totalWeight (symbols : List GrammarSymbol) : Nat := (symbols.map weight).sum

/-- The left side of a rule counts less than its right side. -/
theorem weight_left_lt {r : Rule} (hr : r ∈ RuleSet.mgol.rules) (hstart : r ≠ RuleSet.mgol.start) :
    weight r.left < totalWeight r.right := by
  revert r
  decide

/-- What several symbols count is added up. -/
theorem totalWeight_append (l l' : List GrammarSymbol) :
    totalWeight (l ++ l') = totalWeight l + totalWeight l' := by
  simp [totalWeight]

/-- The order of symbols does not count. -/
theorem totalWeight_reverse (l : List GrammarSymbol) : totalWeight l.reverse = totalWeight l := by
  simp [totalWeight, List.sum_reverse]

/-- Fewer symbols count less. -/
theorem totalWeight_drop_le (l : List GrammarSymbol) (k : Nat) :
    totalWeight (l.drop k) ≤ totalWeight l := by
  have := totalWeight_append (l.take k) (l.drop k)
  rw [List.take_append_drop] at this
  omega

/-- One symbol counts at most as much as a terminal. -/
theorem weight_le (a : GrammarSymbol) : weight a ≤ 3 := by
  unfold weight
  split
  · split <;> omega
  · omega

/-- How many lookaheads can come: as many as tokens may be handed out, and as many as bytes are
left, with the end of the input after them. -/
def ahead (p : ParseState) : Nat :=
  min (Limits.tokenCount - p.scanner.metrics.tokens)
    (p.scanner.input.bytes.length + if p.lookahead.value.isEndOfFile then 0 else 1)

/-- **What every move makes smaller.** -/
def potential (symbols : List GrammarSymbol) (p : ParseState) : Nat :=
  5 * p.ahead + totalWeight symbols + if p.repeated then 0 else 1

/-! ## Recoveries of a run -/

/-- **The recovery that a move calls for**, if it does: the lookahead, and whether it has to be
dropped. -/
def recoveryCall? (tables : DecisionTables) (p : ParseState) : Option (Spanned Token × Bool) :=
  match p.states.top? with
  | none => none
  | some q => if tables.hasAction q p.terminal then none else some (p.lookahead, p.repeated)

/-- **The recoveries of a run** in their order. -/
def recoveryCalls (tables : DecisionTables) (o : SyntaxOptions) :
    Nat → ParseState → List (Spanned Token × Bool)
  | 0, _ => []
  | n + 1, p =>
    (p.recoveryCall? tables).toList ++
      match p.step tables o with
      | .next p' => recoveryCalls tables o n p'
      | _ => []

/-- Where the parser can go on, there is no recovery. -/
theorem recoveryCall?_eq_none {tables : DecisionTables} {p : ParseState} {q : Nat}
    {below : List Nat} (items : p.states.items = q :: below)
    (cell : tables.hasAction q p.terminal = true) : p.recoveryCall? tables = none := by
  simp only [recoveryCall?, Stack.top?, items, List.head?_cons, cell, if_true]

/-- Where the parser cannot go on, it recovers from the lookahead. -/
theorem recoveryCall?_eq_some {tables : DecisionTables} {p : ParseState} {q : Nat}
    {below : List Nat} (items : p.states.items = q :: below)
    (cell : tables.hasAction q p.terminal = false) :
    p.recoveryCall? tables = some (p.lookahead, p.repeated) := by
  simp only [recoveryCall?, Stack.top?, items, List.head?_cons, cell, Bool.false_eq_true, if_false]

/-- **A move that calls for a recovery is one**: the error on the lookahead is reported, and the
move is what `recover` makes of it. -/
theorem step_of_recoveryCall? {tables : DecisionTables} {p : ParseState} {t : Spanned Token}
    {discard : Bool} (h : p.recoveryCall? tables = some (t, discard)) (o : SyntaxOptions) :
    p.lookahead = t ∧ ∃ q slot, p.step tables o =
      match (p.alarmed tables q slot).recover tables discard with
      | .resumed p' => .next p'
      | .exhausted p' => .abandoned (p'.reportFailure p.lookahead.span.start)
      | .failed e p' => .failed e p' := by
  unfold recoveryCall? at h
  unfold step
  cases htop : p.states.top? with
  | none =>
    rw [htop] at h
    cases h
  | some q =>
    simp only [htop] at h
    split at h
    · cases h
    · next hcell =>
      obtain ⟨rfl, rfl⟩ := Prod.mk.inj (Option.some.inj h)
      refine ⟨rfl, q, ?_⟩
      simp only
      cases hact : tables.action q p.lookahead.value.terminalName with
      | none => exact ⟨none, p.handleError_eq tables q none⟩
      | some a =>
        cases a with
        | error slot => exact ⟨some slot, p.handleError_eq tables q (some slot)⟩
        | shift | reduce | accept =>
          exact absurd (RuleSet.Built.hasAction_of_action hact rfl) hcell

/-! ## The lookahead moves on -/

/-- Where the lookahead starts. -/
def lookaheadOffset (p : ParseState) : Nat := p.lookahead.span.start.offset

/-- **The invariant with the place of the lookahead**: the scanner stands behind it. -/
structure Sure (failure : Option String) (capacity : Nat) (symbols : List GrammarSymbol)
    (p : ParseState) : Prop extends p.Safe failure capacity symbols where
  behind : p.lookahead.value.isEndOfFile = false → p.lookaheadOffset < p.scanner.position.offset

namespace Sure

variable {failure : Option String} {capacity : Nat} {symbols : List GrammarSymbol}
  {p p' : ParseState}

/-- The next lookahead starts later, and fewer are ahead. -/
theorem fetched (h : p.Sure failure capacity symbols)
    (more : p.lookahead.value.isEndOfFile = false) {q : ParseState}
    (hadvanced : p.scanner.Advanced q.lookahead q.scanner) :
    p.lookaheadOffset < q.lookaheadOffset ∧ q.ahead < p.ahead ∧
      (q.lookahead.value.isEndOfFile = false →
        q.lookaheadOffset < q.scanner.position.offset) := by
  have hbehind := h.behind more
  have hge := hadvanced.start_ge
  refine ⟨Nat.lt_of_lt_of_le hbehind hge, ?_, hadvanced.start_lt⟩
  have hcounted := hadvanced.counted
  have hwithin := hadvanced.within
  have hlength := hadvanced.length_eq
  have hle := hadvanced.start_le
  unfold ahead
  rw [more]
  cases hend : q.lookahead.value.isEndOfFile with
  | true =>
    simp only [if_true, Bool.false_eq_true, if_false]
    omega
  | false =>
    have hlt := hadvanced.start_lt hend
    simp only [Bool.false_eq_true, if_false]
    omega

/-- Dropping the lookahead moves on. -/
theorem drops (h : p.Sure failure capacity symbols) (hd : p.Drops p') :
    p'.Sure failure capacity symbols ∧ p'.trigger = p.trigger ∧
      p.lookahead.value.isEndOfFile = false ∧ p.lookaheadOffset < p'.lookaheadOffset ∧
      p'.ahead < p.ahead := by
  have hsafe := h.toSafe.drops hd
  cases hd with
  | @drop j t s more found =>
    obtain ⟨hoffset, hahead, hbehind⟩ := h.fetched
      (q := { p with
        scanner := s, lookahead := t
        metrics := { p.metrics with discarded := p.metrics.discarded + 1 } })
      more (h.advanced found)
    exact ⟨⟨hsafe, hbehind⟩, rfl, more, hoffset, hahead⟩

/-- Dropping lookaheads moves on, unless none is dropped. -/
theorem dropped (h : p.Sure failure capacity symbols)
    (hd : Relation.ReflTransGen Drops p p') :
    p'.Sure failure capacity symbols ∧ p'.trigger = p.trigger ∧
      (p' = p ∨ p.lookahead.value.isEndOfFile = false ∧
        p.lookaheadOffset < p'.lookaheadOffset ∧ p'.ahead < p.ahead) := by
  induction hd with
  | refl => exact ⟨h, rfl, .inl rfl⟩
  | tail _ hdrop ih =>
    obtain ⟨hsure, htrigger, hmoved⟩ := ih
    obtain ⟨hsure', htrigger', hmore, hoffset, hahead⟩ := hsure.drops hdrop
    refine ⟨hsure', htrigger'.trans htrigger, .inr ?_⟩
    rcases hmoved with rfl | ⟨hmore', hoffset', hahead'⟩
    · exact ⟨hmore, hoffset, hahead⟩
    · exact ⟨hmore', Nat.lt_trans hoffset' hoffset, Nat.lt_trans hahead hahead'⟩

/-- An alarm sets the trigger to the lookahead. -/
theorem alarmed (h : p.Sure failure capacity symbols) (q : Nat) (slot : Option Nat) :
    (p.alarmed .mgol q slot).Sure failure capacity symbols ∧
      (p.alarmed .mgol q slot).trigger = some p.lookaheadOffset ∧
      (p.alarmed .mgol q slot).lookahead = p.lookahead ∧
      (p.alarmed .mgol q slot).ahead = p.ahead := by
  have hsafe := h.toSafe.alarmed .mgol q slot
  obtain ⟨j, metrics, history, diagnostics, _, heq⟩ := p.alarmed_eq .mgol q slot
  rw [heq] at hsafe ⊢
  exact ⟨⟨hsafe, h.behind⟩, rfl, rfl, rfl⟩

/-- Cutting the stacks keeps the lookahead. -/
theorem resynchronized (h : p.Sure failure capacity symbols) {n : Nat}
    (hsync : p.resynchronize? .mgol n = some p') :
    (∃ k, p'.Sure failure capacity (symbols.drop k)) ∧ p'.trigger = p.trigger ∧
      p'.lookahead = p.lookahead ∧ p'.ahead = p.ahead := by
  obtain ⟨k, hsafe⟩ := h.toSafe.resynchronized hsync
  obtain ⟨j, states, values, metrics, rfl⟩ := resynchronize?_eq hsync
  exact ⟨⟨k, hsafe, h.behind⟩, rfl, rfl, rfl⟩

/-- **Where a recovery goes on**: with the same lookahead, if that was not recovered from before, or
with a later one. -/
theorem resumed (h : p.Sure failure capacity symbols) {q : Nat} {slot : Option Nat}
    (recovered : (p.alarmed .mgol q slot).recover .mgol p.repeated = .resumed p') :
    (∃ k, p'.Sure failure capacity (symbols.drop k)) ∧ p'.trigger = some p.lookaheadOffset ∧
      (p.repeated = false ∧ p'.lookahead = p.lookahead ∧ p'.ahead = p.ahead ∨
        p.lookahead.value.isEndOfFile = false ∧ p.lookaheadOffset < p'.lookaheadOffset ∧
          p'.ahead < p.ahead) := by
  obtain ⟨hsure, htrigger, hlookahead, hahead⟩ := h.alarmed q slot
  obtain ⟨hrecovered, hdiscard⟩ := recover_effect .mgol (p.alarmed .mgol q slot) p.repeated
  rw [recovered] at hrecovered hdiscard
  -- whatever was dropped, the stacks are cut afterwards
  have hcut : ∀ {p₁ : ParseState}, p₁.Sure failure capacity symbols →
      p₁.trigger = some p.lookaheadOffset → Recovered .mgol p₁ (.resumed p') →
      (∃ k, p'.Sure failure capacity (symbols.drop k)) ∧ p'.trigger = some p.lookaheadOffset ∧
        (p'.lookahead = p₁.lookahead ∧ p'.ahead = p₁.ahead ∨
          p₁.lookahead.value.isEndOfFile = false ∧ p₁.lookaheadOffset < p'.lookaheadOffset ∧
            p'.ahead < p₁.ahead) := by
    rintro p₁ hsure₁ htrigger₁ ⟨hdropped, hsync⟩
    obtain ⟨hsure₂, htrigger₂, hmoved⟩ := hsure₁.dropped hdropped
    obtain ⟨hsure', htrigger', hlookahead', hahead'⟩ := hsure₂.resynchronized hsync
    refine ⟨hsure', htrigger'.trans (htrigger₂.trans htrigger₁), ?_⟩
    unfold lookaheadOffset
    rw [hlookahead', hahead']
    rcases hmoved with rfl | hmoved
    · exact .inl ⟨rfl, rfl⟩
    · exact .inr hmoved
  have hoffset : (p.alarmed .mgol q slot).lookaheadOffset = p.lookaheadOffset := by
    unfold lookaheadOffset
    rw [hlookahead]
  -- a second recovery from the same lookahead drops it first
  by_cases hrepeated : p.repeated = true
  · rcases hdiscard hrepeated with hex | ⟨p₁, hdrop, hrecovered₁⟩ | ⟨e, p₁, hfail⟩
    · cases hex
    · obtain ⟨hsure₁, htrigger₁, hmore, hoffset₁, hahead₁⟩ := hsure.drops hdrop
      obtain ⟨hsure', htrigger', hmoved⟩ :=
        hcut hsure₁ (htrigger₁.trans htrigger) hrecovered₁
      refine ⟨hsure', htrigger', .inr ?_⟩
      rw [hoffset] at hoffset₁
      rw [hahead] at hahead₁
      rw [hlookahead] at hmore
      rcases hmoved with ⟨hsame, haheadSame⟩ | ⟨_, hlater, hfewer⟩
      · unfold lookaheadOffset at hoffset₁ ⊢
        rw [hsame, haheadSame]
        exact ⟨hmore, hoffset₁, hahead₁⟩
      · exact ⟨hmore, Nat.lt_trans hoffset₁ hlater, Nat.lt_trans hfewer hahead₁⟩
    · cases hfail
  · obtain ⟨hsure', htrigger', hmoved⟩ := hcut hsure htrigger hrecovered
    refine ⟨hsure', htrigger', ?_⟩
    rw [hlookahead, hahead, hoffset] at hmoved
    exact hmoved.imp (fun hsame => ⟨Bool.eq_false_iff.mpr hrepeated, hsame⟩) id

/-- **Where a move leads**: after a shift to a later lookahead, after a reduction to the same one,
and after a recovery as the recovery says. -/
inductive Leads (p p' : ParseState) : Prop
  | shift (call : p.recoveryCall? .mgol = none) (later : p.lookaheadOffset < p'.lookaheadOffset)
      (cleared : p'.trigger = none)
  | reduce (call : p.recoveryCall? .mgol = none) (same : p'.lookahead = p.lookahead)
      (kept : p'.trigger = p.trigger)
  | again (call : p.recoveryCall? .mgol = some (p.lookahead, p.repeated))
      (first : p.repeated = false) (same : p'.lookahead = p.lookahead)
      (set : p'.trigger = some p.lookaheadOffset)
  | onward (call : p.recoveryCall? .mgol = some (p.lookahead, p.repeated))
      (more : p.lookahead.value.isEndOfFile = false)
      (later : p.lookaheadOffset < p'.lookaheadOffset) (set : p'.trigger = some p.lookaheadOffset)

/-- **Every move makes the potential smaller.** -/
theorem step (h : p.Sure failure capacity symbols) {o : SyntaxOptions}
    (hstep : p.step .mgol o = .next p') :
    ∃ symbols', p'.Sure failure capacity symbols' ∧
      potential symbols' p' < potential symbols p ∧ Leads p p' := by
  have heffect := step_effect .mgol o p
  rw [hstep] at heffect
  cases heffect with
  | @shift q target below states values j t s items cell pushed found kept =>
    have hsafe := h.toSafe.shifted items cell pushed found kept
      { p.metrics with shifts := p.metrics.shifts + 1 }
    have hterminal : p.terminal ≠ "$" :=
      RuleSet.mgol_built.shift_ne_endMarker (by decide) cell
    have hmore : p.lookahead.value.isEndOfFile = false := by
      refine Bool.eq_false_iff.mpr fun hend => hterminal ?_
      rw [terminal, show p.lookahead.value = .endOfFile from of_decide_eq_true hend]
      rfl
    obtain ⟨hoffset, hahead, hbehind⟩ := h.fetched
      (q := { p with
        scanner := s, states, lookahead := t, trigger := none
        executor := { p.executor with values }
        metrics := { p.metrics with shifts := p.metrics.shifts + 1 } })
      hmore (h.advanced found)
    refine ⟨_, ⟨hsafe, hbehind⟩, ?_, .shift ?_ hoffset rfl⟩
    -- the token that was read pays for the symbol that is pushed
    · have hweight : totalWeight (p.terminal :: symbols) = weight p.terminal + totalWeight symbols :=
        rfl
      have hle := weight_le p.terminal
      unfold potential
      split <;> split <;> omega
    · exact recoveryCall?_eq_none items (RuleSet.Built.hasAction_of_action cell rfl)
  | @reduce q n below r states j executor session items cell rule reduced run =>
    obtain ⟨hr, seen, hsymbols, hsafe⟩ := h.toSafe.reduced items cell rule reduced run
      { p.metrics with reductions := p.metrics.reductions + 1 }
    refine ⟨_, ⟨hsafe, h.behind⟩, ?_, .reduce ?_ rfl rfl⟩
    -- the left side of a rule is lighter than its right side
    · have hweight := weight_left_lt hr (RuleSet.mgol_built.reduce_ne_start cell rule)
      rw [hsymbols]
      unfold potential
      rw [totalWeight_append, totalWeight_reverse]
      have hleft : totalWeight (r.left :: seen) = weight r.left + totalWeight seen := rfl
      change 5 * p.ahead + totalWeight (r.left :: seen) + (if p.repeated then 0 else 1) < _
      omega
    · exact recoveryCall?_eq_none items (RuleSet.Built.hasAction_of_action cell rfl)
  | @resumed q below slot _ items cell recovered =>
    have hcall := recoveryCall?_eq_some items cell
    obtain ⟨⟨k, hsure⟩, htrigger, hcases⟩ := h.resumed recovered
    have hweight := totalWeight_drop_le symbols k
    refine ⟨_, hsure, ?_, ?_⟩
    · unfold potential
      rcases hcases with ⟨hfirst, hsame, hahead⟩ | ⟨_, _, hahead⟩
      -- the lookahead is the same, so the next recovery will drop it
      · have hrepeated : p'.repeated = true := by
          unfold repeated
          rw [htrigger, hsame]
          exact decide_eq_true rfl
        rw [hfirst, hrepeated, hahead]
        simp only [Bool.false_eq_true, if_false, if_true]
        omega
      · split <;> split <;> omega
    · rcases hcases with ⟨hfirst, hsame, _⟩ | ⟨hmore, hlater, _⟩
      · exact .again hcall hfirst hsame htrigger
      · exact .onward hcall hmore hlater htrigger

/-- **A run ends within as many moves as the potential counts.** -/
theorem run_ends (h : p.Sure failure capacity symbols) (o : SyntaxOptions) {n : Nat}
    (hn : potential symbols p < n) : ∀ q, p.run .mgol o n ≠ .failed .unfinished q := by
  induction n generalizing p symbols with
  | zero => exact absurd hn (Nat.not_lt_zero _)
  | succ n ih =>
    intro q
    rw [run]
    cases hstep : p.step .mgol o with
    | next p' =>
      obtain ⟨symbols', hsure, hless, _⟩ := h.step hstep
      exact ih hsure (by omega) q
    | accepted p' => exact fun heq => by cases heq
    | abandoned p' => exact fun heq => by cases heq
    | failed e p' =>
      intro heq
      obtain ⟨rfl, _⟩ := ParseEnd.failed.inj heq
      cases h.toSafe.failed hstep

end Sure

/-! ## At most two recoveries from one lookahead -/

/-- One recovery comes before another: its lookahead starts earlier, or it is the first of two from
one lookahead. -/
def CallBefore (a b : Spanned Token × Bool) : Prop :=
  a.1.span.start.offset < b.1.span.start.offset ∨
    a.1.span.start.offset = b.1.span.start.offset ∧ a.2 = false ∧ b.2 = true

/-- **Recoveries in order**: each comes before the later ones, and a lookahead is dropped only after
a recovery from it. -/
structure CallsOrdered (calls : List (Spanned Token × Bool)) : Prop where
  before : calls.Pairwise CallBefore
  first : ∀ c ∈ calls, c.2 = true →
    ∃ d ∈ calls, d.2 = false ∧ d.1.span.start.offset = c.1.span.start.offset

/-- Among recoveries in order, those from one lookahead are at most two, and the second drops it. -/
theorem CallsOrdered.atOffset {calls : List (Spanned Token × Bool)} (h : CallsOrdered calls)
    (k : Nat) :
    (calls.filter fun c => c.1.span.start.offset = k).map Prod.snd <+: [false, true] := by
  have hpairs := h.before.filter fun c => c.1.span.start.offset = k
  have hfirst : ∀ c ∈ calls.filter fun c => c.1.span.start.offset = k, c.2 = true →
      ∃ d ∈ calls.filter fun c => c.1.span.start.offset = k, d.2 = false := by
    intro c hc htrue
    obtain ⟨hmem, hk⟩ := List.mem_filter.mp hc
    obtain ⟨d, hd, hfalse, hsame⟩ := h.first c hmem htrue
    exact ⟨d, List.mem_filter.mpr ⟨hd, by rw [hsame]; exact hk⟩, hfalse⟩
  have hoffset : ∀ c ∈ calls.filter fun c => c.1.span.start.offset = k,
      c.1.span.start.offset = k := by
    intro c hc
    simpa using (List.mem_filter.mp hc).2
  generalize calls.filter (fun c => c.1.span.start.offset = k) = l at hpairs hfirst hoffset
  -- two recoveries from one lookahead: the earlier keeps it, the later drops it
  have hpair : ∀ c d, c ∈ l → d ∈ l → CallBefore c d → c.2 = false ∧ d.2 = true := by
    intro c d hc hd hbefore
    rcases hbefore with hlt | ⟨_, hkept, hdropped⟩
    · rw [hoffset c hc, hoffset d hd] at hlt
      exact absurd hlt (Nat.lt_irrefl k)
    · exact ⟨hkept, hdropped⟩
  -- so there are at most two of them
  match l, hpairs, hfirst, hpair with
  | [], _, _, _ => exact List.nil_prefix
  | [c], _, hfirst, _ =>
    have hkept : c.2 = false := by
      by_contra hdropped
      obtain ⟨d, hd, hkept⟩ := hfirst c List.mem_cons_self (by simpa using hdropped)
      rw [List.mem_singleton.mp hd] at hkept
      exact hdropped hkept
    simp [hkept]
  | [c, d], hpairs, _, hpair =>
    obtain ⟨hkept, hdropped⟩ := hpair c d (by simp) (by simp) (by simpa using hpairs)
    simp [hkept, hdropped]
  | c :: d :: e :: rest, hpairs, _, hpair =>
    have hcd := (List.pairwise_cons.mp hpairs).1 d (by simp)
    have hde := (List.pairwise_cons.mp (List.pairwise_cons.mp hpairs).2).1 e (by simp)
    -- the second of three would both keep and drop the lookahead
    have hdropped := (hpair c d (by simp) (by simp) hcd).2
    have hkept := (hpair d e (by simp) (by simp) hde).1
    rw [hkept] at hdropped
    cases hdropped

/-- **The recoveries so far**: all are from lookaheads before the present one, or the trigger
remembers the first recovery from it. -/
structure Called (past : List (Spanned Token × Bool)) (p : ParseState) : Prop where
  ordered : CallsOrdered past
  earlier : ∀ c ∈ past, c.1.span.start.offset < p.lookaheadOffset ∨
    c.1.span.start.offset = p.lookaheadOffset ∧ c.2 = false ∧
      p.trigger = some p.lookaheadOffset
  remembered : p.trigger = some p.lookaheadOffset →
    ∃ c ∈ past, c.1.span.start.offset = p.lookaheadOffset

namespace Called

variable {past : List (Spanned Token × Bool)} {p p' : ParseState}

/-- A recovery from the lookahead is in order. -/
theorem call (h : Called past p) : CallsOrdered (past ++ [(p.lookahead, p.repeated)]) := by
  refine ⟨?_, ?_⟩
  · refine List.pairwise_append.mpr ⟨h.ordered.before, List.pairwise_singleton _ _, ?_⟩
    intro c hc d hd
    rw [List.mem_singleton.mp hd]
    rcases h.earlier c hc with hlt | ⟨hsame, hkept, htrigger⟩
    · exact .inl hlt
    · exact .inr ⟨hsame, hkept, decide_eq_true htrigger⟩
  · intro c hc hdropped
    rcases List.mem_append.mp hc with hpast | hnow
    · obtain ⟨d, hd, hrest⟩ := h.ordered.first c hpast hdropped
      exact ⟨d, List.mem_append_left _ hd, hrest⟩
    · rw [List.mem_singleton.mp hnow] at hdropped ⊢
      obtain ⟨d, hd, hsame⟩ := h.remembered (of_decide_eq_true hdropped)
      refine ⟨d, List.mem_append_left _ hd, ?_, hsame⟩
      rcases h.earlier d hd with hlt | ⟨_, hkept, _⟩
      · omega
      · exact hkept

/-- A move keeps the recoveries in order. -/
theorem leads (h : Called past p) (hl : Sure.Leads p p') :
    Called (past ++ (p.recoveryCall? .mgol).toList) p' := by
  cases hl with
  | shift call later cleared =>
    rw [call, Option.toList_none, List.append_nil]
    refine ⟨h.ordered, fun c hc => .inl ?_, fun hset => by rw [cleared] at hset; cases hset⟩
    rcases h.earlier c hc with hlt | ⟨hsame, _⟩
    · exact Nat.lt_trans hlt later
    · rw [hsame]
      exact later
  | reduce call same kept =>
    rw [call, Option.toList_none, List.append_nil]
    have hoffset : p'.lookaheadOffset = p.lookaheadOffset := by
      unfold lookaheadOffset
      rw [same]
    refine ⟨h.ordered, ?_, ?_⟩
    · rw [hoffset, kept]
      exact h.earlier
    · rw [hoffset, kept]
      exact h.remembered
  | again call first same set =>
    rw [call, Option.toList_some]
    have hoffset : p'.lookaheadOffset = p.lookaheadOffset := by
      unfold lookaheadOffset
      rw [same]
    refine ⟨h.call, ?_, fun _ => ⟨_, List.mem_append_right _ List.mem_cons_self, hoffset.symm⟩⟩
    intro c hc
    rw [hoffset, set]
    rcases List.mem_append.mp hc with hpast | hnow
    · exact (h.earlier c hpast).imp id fun hc => ⟨hc.1, hc.2.1, rfl⟩
    · rw [List.mem_singleton.mp hnow]
      exact .inr ⟨rfl, first, rfl⟩
  | onward call more later set =>
    rw [call, Option.toList_some]
    refine ⟨h.call, fun c hc => .inl ?_, fun hset => ?_⟩
    · rcases List.mem_append.mp hc with hpast | hnow
      · rcases h.earlier c hpast with hlt | ⟨hsame, _⟩
        · exact Nat.lt_trans hlt later
        · rw [hsame]
          exact later
      · rw [List.mem_singleton.mp hnow]
        exact later
    · rw [set] at hset
      have := Option.some.inj hset
      omega

/-- **The recoveries of a run are in order.** -/
theorem recoveryCalls {failure : Option String} {capacity : Nat} {symbols : List GrammarSymbol}
    (h : Called past p) (hs : p.Sure failure capacity symbols) (o : SyntaxOptions) (n : Nat) :
    CallsOrdered (past ++ p.recoveryCalls .mgol o n) := by
  induction n generalizing p past symbols with
  | zero =>
    rw [ParseState.recoveryCalls, List.append_nil]
    exact h.ordered
  | succ n ih =>
    rw [ParseState.recoveryCalls]
    -- the call that this state makes itself
    have hnow : CallsOrdered (past ++ (p.recoveryCall? .mgol).toList) := by
      unfold recoveryCall?
      split
      · simpa using h.ordered
      · split
        · simpa using h.ordered
        · exact h.call
    cases hstep : p.step .mgol o with
    | next p' =>
      obtain ⟨symbols', hsure, _, hleads⟩ := hs.step hstep
      rw [← List.append_assoc]
      exact ih (h.leads hleads) hsure
    | accepted p' => simpa using hnow
    | abandoned p' => simpa using hnow
    | failed e p' => simpa using hnow

end Called

/-- **What a run comes to** by moves that lead on. -/
def Reaches (o : SyntaxOptions) : ParseState → ParseState → Prop :=
  Relation.ReflTransGen fun p q => p.step .mgol o = .next q

/-- The invariant holds wherever a run comes to. -/
theorem Sure.reaches {failure : Option String} {capacity : Nat} {symbols : List GrammarSymbol}
    {p q : ParseState} {o : SyntaxOptions} (h : p.Sure failure capacity symbols)
    (hr : Reaches o p q) : ∃ symbols', q.Sure failure capacity symbols' := by
  induction hr with
  | refl => exact ⟨_, h⟩
  | tail _ hstep ih =>
    obtain ⟨_, hsure⟩ := ih
    obtain ⟨symbols', hsure', _⟩ := hsure.step hstep
    exact ⟨symbols', hsure'⟩

/-- **After a recovery that drops the lookahead** the parser goes on with a later one, and at the
end of the input it does not go on. -/
theorem Sure.dropped_of_call {failure : Option String} {capacity : Nat}
    {symbols : List GrammarSymbol} {p p' : ParseState} {o : SyntaxOptions}
    (h : p.Sure failure capacity symbols) {t : Spanned Token}
    (hcall : p.recoveryCall? .mgol = some (t, true)) (hstep : p.step .mgol o = .next p') :
    t.value.isEndOfFile = false ∧ t.span.start.offset < p'.lookahead.span.start.offset := by
  obtain ⟨_, _, _, hleads⟩ := h.step hstep
  cases hleads with
  | shift call => cases call.symm.trans hcall
  | reduce call => cases call.symm.trans hcall
  | again call first =>
    have := (Prod.mk.inj (Option.some.inj (call.symm.trans hcall))).2
    rw [first] at this
    cases this
  | onward call more later =>
    obtain ⟨rfl, _⟩ := Prod.mk.inj (Option.some.inj (call.symm.trans hcall))
    exact ⟨more, later⟩

end ParseState

/-- What holds when a parse of MGol begins. -/
theorem sure_of_startState {input : Input} {lexicon : Lexicon} {session : Session}
    {options : ScanOptions} {o : SyntaxOptions} {t : Spanned Token} {s : Scanner}
    {states : Stack Nat} (hsound : session.registry.Sound)
    (hfound : (Scanner.ofInput input lexicon session options).nextVisible = (.ok t, s))
    (hitems : states.items = [0]) (hcapacity : states.capacity = o.effectiveCapacity)
    {p : ParseState}
    (hp : p = { scanner := s, states, executor := .mgol o.effectiveCapacity, lookahead := t }) :
    p.Sure input.failure o.effectiveCapacity [] ∧
      p.potential [] ≤ 5 * min Limits.tokenCount input.bytes.length + 1 ∧ p.Called [] := by
  have hregistry : (Scanner.ofInput input lexicon session options).registry.Sound := hsound
  have hsafe := safe_of_startState hregistry hfound hitems hcapacity
  have hadvanced := (Scanner.finds_of_nextVisible hfound).advanced hregistry
  subst hp
  refine ⟨⟨hsafe, hadvanced.start_lt⟩, ?_, ⟨⟨.nil, by simp⟩, by simp, fun h => by cases h⟩⟩
  have hlength : s.position.offset + s.input.bytes.length = input.bytes.length := by
    simpa [Scanner.ofInput, Position.start] using hadvanced.length_eq
  have hlt := hadvanced.start_lt
  simp only [ParseState.potential, ParseState.ahead, ParseState.totalWeight, List.map_nil,
    List.sum_nil, ParseState.repeated, reduceCtorEq, decide_false, Bool.false_eq_true, if_false]
  cases hend : t.value.isEndOfFile with
  | true =>
    simp only [if_true]
    omega
  | false =>
    have := hlt hend
    simp only [Bool.false_eq_true, if_false]
    omega

/-- A parse of MGol that begins is not given up as endless. -/
theorem ParseState.Sure.run_parseMoves {input : Input} {capacity : Nat} {p : ParseState}
    (h : p.Sure input.failure capacity [])
    (hpotential : p.potential [] ≤ 5 * min Limits.tokenCount input.bytes.length + 1)
    (o : SyntaxOptions) : ∀ q, p.run .mgol o Limits.parseMoves ≠ .failed .unfinished q := by
  refine h.run_ends o ?_
  have : 5 * min Limits.tokenCount input.bytes.length + 1 < Limits.parseMoves := by
    unfold Limits.tokenCount Limits.parseMoves
    omega
  omega

/-- **A parse that ends** within a number of moves: allowing more changes nothing. What is called a
recovery is one. From one lookahead the parse recovers at most twice, the second time by dropping
it; the parser then goes on with a later one, or the parse is over. -/
structure ParseState.Ends (o : SyntaxOptions) (moves : Nat) (p : ParseState) : Prop where
  finished : ∀ n, moves ≤ n →
    (∀ q, p.run .mgol o n ≠ .failed .unfinished q) ∧ p.run .mgol o n = p.run .mgol o moves
  recovers : ∀ q t discard, ParseState.Reaches o p q →
    q.recoveryCall? .mgol = some (t, discard) →
    q.lookahead = t ∧ ∃ state slot, q.step .mgol o =
      match (q.alarmed .mgol state slot).recover .mgol discard with
      | .resumed p' => .next p'
      | .exhausted p' => .abandoned (p'.reportFailure q.lookahead.span.start)
      | .failed e p' => .failed e p'
  twice : ∀ n k, ((p.recoveryCalls .mgol o n).filter fun c => c.1.span.start.offset = k).map
    Prod.snd <+: [false, true]
  dropped : ∀ q t, ParseState.Reaches o p q → q.recoveryCall? .mgol = some (t, true) →
    ∀ q', q.step .mgol o = .next q' →
      t.value.isEndOfFile = false ∧ t.span.start.offset < q'.lookahead.span.start.offset

/-- **Every parse of MGol ends**, whatever the source. It is never given up as endless, and the
number of its moves is bounded by the length of the source. -/
theorem parse_ends (input : Input) (lexicon : Lexicon) (session : Session) (options : ScanOptions)
    (o : SyntaxOptions) (hsound : session.registry.Sound) :
    (parse (.ofInput input lexicon session options) .mgol o).1 ≠ .error .unfinished ∧
      match (startState (.ofInput input lexicon session options) (.mgol o.effectiveCapacity)
        o.effectiveCapacity).1 with
      | .error _ => True
      | .ok p => p.Ends o (5 * input.bytes.length + 2) := by
  rcases startState_cases (.ofInput input lexicon session options) (.mgol o.effectiveCapacity) o
    with ⟨t, s, states, hfound, _, hitems, hcapacity, hstart⟩ | ⟨e, s, hfound, hstart⟩
  · obtain ⟨hsure, hpotential, hcalled⟩ := sure_of_startState hsound hfound hitems hcapacity rfl
    refine ⟨?_, ?_⟩
    · unfold parse parseWith parseWithin
      rw [hstart]
      simp only
      have hends := hsure.run_parseMoves hpotential o
      intro herror
      generalize ParseState.run .mgol o Limits.parseMoves _ = ended at hends herror
      cases ended with
      | accepted p => cases herror
      | abandoned p => cases herror
      | failed e p => exact hends p (by rw [Except.error.inj herror])
    · rw [hstart]
      have hends := hsure.run_ends o (n := 5 * input.bytes.length + 2) (by omega)
      refine ⟨fun n hn => ?_, fun q t discard _ hcall => ParseState.step_of_recoveryCall? hcall o,
        fun n k => ?_, fun q t hreach hcall q' hstep => ?_⟩
      · rw [ParseState.run_eq_of_le hends hn]
        exact ⟨hends, rfl⟩
      · exact (hcalled.recoveryCalls hsure o n).atOffset k
      · obtain ⟨symbols, hq⟩ := hsure.reaches hreach
        exact hq.dropped_of_call hcall hstep
  · unfold parse parseWith parseWithin
    rw [hstart]
    exact ⟨by rintro ⟨⟩, trivial⟩

/-- A parse of bytes that are no program ends as well. -/
theorem parse_ends_garbage :
    Registry.reserved.Sound ∧
      (parse (.ofInput ⟨[40, 59, 255, 41], none⟩ .mgol {} {}) .mgol {}).1 ≠ .error .unfinished ∧
      match (startState (.ofInput ⟨[40, 59, 255, 41], none⟩ .mgol {} {})
        (.mgol ({} : SyntaxOptions).effectiveCapacity)
        ({} : SyntaxOptions).effectiveCapacity).1 with
      | .error _ => True
      | .ok p => p.Ends {} 22 :=
  ⟨Registry.sound_reserved,
    parse_ends ⟨[40, 59, 255, 41], none⟩ .mgol {} {} {} Registry.sound_reserved⟩

/-! ## Nothing but the permitted errors stops a parse -/

/-- **A parse of MGol comes to an outcome, or one of the permitted errors stops it**, whatever the
source, the capacity of the stacks and the recoveries on the way. -/
theorem parse_ok_or_permitted (input : Input) (journal : Journal) (options : ScanOptions)
    (o : SyntaxOptions) :
    (∃ outcome,
        (parse (.ofInput input .mgol ⟨.reserved, journal⟩ options) .mgol o).1 = .ok outcome) ∨
      ∃ e, (parse (.ofInput input .mgol ⟨.reserved, journal⟩ options) .mgol o).1 = .error e ∧
        e.Permitted input.failure o.effectiveCapacity := by
  unfold parse parseWith parseWithin
  rcases startState_cases (.ofInput input .mgol ⟨.reserved, journal⟩ options)
    (.mgol o.effectiveCapacity) o with ⟨t, s, states, hfound, _, hitems, hcapacity, hstart⟩ |
    ⟨e, s, hfound, hstart⟩
  · obtain ⟨hsure, hpotential, _⟩ :=
      sure_of_startState Registry.sound_reserved hfound hitems hcapacity rfl
    have hends := hsure.run_parseMoves hpotential o
    rw [hstart]
    simp only
    obtain ⟨q, ⟨symbols, hq⟩, hended⟩ := ParseState.run_induction .mgol o
      (fun p => ∃ symbols, p.Safe input.failure o.effectiveCapacity symbols)
      (fun p p' ⟨_, hp⟩ hstep => hp.step hstep) Limits.parseMoves ⟨[], hsure.toSafe⟩
    generalize ParseState.run .mgol o Limits.parseMoves _ = ended at hends hended
    cases hended with
    | unfinished => exact absurd rfl (hends q)
    | accepted last => exact .inl ⟨_, rfl⟩
    | abandoned last => exact .inl ⟨_, rfl⟩
    | failed last => exact .inr ⟨_, rfl, hq.failed last⟩
  · rw [hstart]
    refine .inr ⟨.lexical e, rfl, ?_⟩
    rcases Scanner.error_of_nextVisible hfound with rfl | ⟨message, position, rfl, hbroken⟩
    · exact .tokens
    · exact .read hbroken

end Mgol
