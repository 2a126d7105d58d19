import Mgol.Proofs.Parser.Termination
import Mgol.Proofs.Scanner.Ahead

/-! # The language of a parser

Without an error on the way the parser does what the driver does, on the terminals that its scanner
has ahead. So it accepts without a syntax error exactly the sentences of its grammar, as long as no
limit is hit.

* **`RuleSet.Sentence`** — the words of a grammar.
* **`ParseState.Tracks`** — a parser that stands where the driver stands.
* **`ParseState.Steady`** — an executor that stays out of the way.
* **`ParseState.Steady.accepts_of_sentence`, `ParseState.Steady.sentence_of_accepts`** — the
  language of the parser.
* **`built_tables_recognize`** — constructed tables, with the driver and with the parser. -/

namespace Mgol

/-- **The sentences of a grammar**: the words of terminals that derive from the right side of the
start rule. -/
def RuleSet.Sentence (g : RuleSet) (word : List GrammarSymbol) : Prop :=
  (∀ a ∈ word, g.isNonterminal a = false) ∧ g.Derives g.start.right word

/-- A sentence is the word of a derivation forest. -/
theorem RuleSet.sentence_iff_forest {g : RuleSet} {word : List GrammarSymbol} :
    g.Sentence word ↔ g.Forest g.start.right word := by
  constructor
  · rintro ⟨hterminal, hderives⟩
    exact (forest_iff_derives hterminal).mpr hderives
  · intro hforest
    exact ⟨hforest.word_terminal, (forest_iff_derives hforest.word_terminal).mp hforest⟩

/-- **The errors that say that a limit was hit**: of the stacks, of tokens, of temporaries, and of
moves. -/
def SyntaxError.isLimit : SyntaxError → Bool
  | .stack (.overflow _) => true
  | .lexical (.tokenLimit _) => true
  | .semantic (.stack (.overflow _)) => true
  | .semantic (.tooManyTemporaries _) => true
  | .unfinished => true
  | _ => false

namespace ParseState

variable {g : RuleSet} {t : DecisionTables}

/-! ## The parser beside the driver -/

/-- The words that a parser has ahead, its lookahead first. -/
def Upcoming (p : ParseState) (words : List (TokenClass × String)) : Prop :=
  p.lookahead.value.kind = .endOfFile ∧ words = [] ∨
    p.lookahead.value.kind ≠ .endOfFile ∧
      ∃ rest, words = p.lookahead.value.word :: rest ∧ p.scanner.Ahead rest

/-- The lookahead is the first terminal ahead, or the end marker behind them. -/
theorem Upcoming.input_eq {p : ParseState} {words : List (TokenClass × String)}
    (h : p.Upcoming words) : ∃ rest, words.map terminalOf ++ [endMarker] = p.terminal :: rest := by
  rcases h with ⟨hend, rfl⟩ | ⟨_, rest, rfl, _⟩
  · exact ⟨[], by rw [terminal, Token.terminalName_eq_endMarker_iff.mpr hend]; rfl⟩
  · exact ⟨rest.map terminalOf ++ [endMarker], rfl⟩

/-- What is ahead depends on what scanners agree on. -/
theorem Upcoming.of_agrees {p p' : ParseState} {words : List (TokenClass × String)}
    (h : p.Upcoming words) (hlookahead : p'.lookahead = p.lookahead)
    (hagrees : p.scanner.Agrees p'.scanner) : p'.Upcoming words := by
  unfold Upcoming
  rw [hlookahead]
  exact h.imp id fun ⟨hmore, rest, hword, hahead⟩ =>
    ⟨hmore, rest, hword, hahead.of_agrees hagrees⟩

/-- **A parser that stands where the driver stands**, without an error so far. -/
structure Tracks (p : ParseState) (d : Driver) : Prop where
  states_eq : d.states = p.states.items
  upcoming : ∃ words, p.Upcoming words ∧ d.input = words.map terminalOf ++ [endMarker]
  untriggered : p.trigger = none
  silent : p.diagnostics = #[]
  lexical : ∀ x ∈ p.scanner.diagnostics, x.kind = .lexical
  semantic : ∀ x ∈ p.executor.work.diagnostics, x.kind = .semantic

/-- **A parser that has reported a syntax error.** -/
def Alarmed (p : ParseState) : Prop := ∃ x ∈ p.diagnostics, x.kind = .syntactic

/-- **An executor that stays out of the way**: an invariant of the parse under which the stacks
follow the collection, actions keep what they have to keep, and refuse nothing but for a limit. -/
structure Steady (g : RuleSet) (t : DecisionTables) (o : SyntaxOptions)
    (Inv : List GrammarSymbol → ParseState → Prop) : Prop where
  follows : ∀ {symbols p}, Inv symbols p → Follows g p symbols
  keeps : ∀ {symbols p}, Inv symbols p → ∀ {r}, r ∈ g.rules →
    ∀ {seen}, symbols = r.right.reverse ++ seen → ∀ j,
      ActionContext.Keeps ⟨p.executor.work, ⟨p.scanner.registry, j⟩⟩
        (Executor.perform p.executor.actions ⟨r, p.executor.taken r, p.lookahead.span.start⟩
          ⟨p.executor.work, ⟨p.scanner.registry, j⟩⟩).2
  step : ∀ {symbols p p'}, Inv symbols p → p.step t o = .next p' → ∃ symbols', Inv symbols' p'
  failed : ∀ {symbols p e p'}, Inv symbols p → p.step t o = .failed e p' →
    e.isLimit = true ∨ ∃ e', e = .lexical e'

/-- Notes do not change what a scanner has ahead. -/
theorem agrees_withJournal (s : Scanner) (j : Journal) : s.Agrees (s.withJournal j) :=
  ⟨rfl, rfl, rfl, rfl, .refl _⟩

/-- What the search for a visible token reports are lexical errors. -/
theorem lexical_of_finds {s s' : Scanner} {u : Spanned Token} (h : s.Finds u s')
    (hs : ∀ x ∈ s.diagnostics, x.kind = .lexical) : ∀ x ∈ s'.diagnostics, x.kind = .lexical := by
  have hscanned : ∀ {s s' : Scanner} {u : Spanned Token}, s.Scanned u s' →
      (∀ x ∈ s.diagnostics, x.kind = .lexical) → ∀ x ∈ s'.diagnostics, x.kind = .lexical := by
    intro s s' u h hs x hx
    obtain ⟨found, hkind, heq⟩ := h.reported
    rw [heq] at hx
    exact (Array.mem_append.mp hx).elim (hs x) (hkind x)
  induction h with
  | here scanned _ => exact hscanned scanned hs
  | later scanned _ _ ih => exact ih (hscanned scanned hs)

/-- The lookahead that comes next is the next word ahead. -/
theorem Upcoming.next {p : ParseState} {a : GrammarSymbol} {rest : List GrammarSymbol}
    {words : List (TokenClass × String)} (h : p.Upcoming words) (hend : a ≠ endMarker)
    (hword : words.map terminalOf ++ [endMarker] = a :: rest) (j : Journal) :
    ∃ words' u s, rest = words'.map terminalOf ++ [endMarker] ∧
      (p.scanner.withJournal j).nextVisible = (.ok u, s) ∧
      ∀ p' : ParseState, p'.scanner = s → p'.lookahead = u → p'.Upcoming words' := by
  rcases h with ⟨_, rfl⟩ | ⟨_, rest', rfl, hahead⟩
  · exact absurd (List.cons.inj hword).1.symm hend
  · obtain ⟨_, hrest⟩ := List.cons.inj hword
    obtain ⟨u, s, hfound, hcases⟩ := (hahead.of_agrees (agrees_withJournal _ j)).nextVisible
    refine ⟨rest', u, s, hrest.symm, hfound, ?_⟩
    intro p' hscanner hlookahead
    unfold Upcoming
    rw [hscanner, hlookahead]
    exact hcases

/-! ## In step with the driver -/

/-- Dropping lookaheads reports nothing. -/
theorem diagnostics_of_dropped {p p' : ParseState} (h : Relation.ReflTransGen Drops p p') :
    p'.diagnostics = p.diagnostics := by
  induction h with
  | refl => rfl
  | tail _ hdrop ih =>
    cases hdrop
    exact ih

/-- What a recovery goes on with has the diagnostics of the alarm. -/
theorem diagnostics_of_resumed {p p' : ParseState} {q : Nat} {slot : Option Nat} {discard : Bool}
    (h : (p.alarmed t q slot).recover t discard = .resumed p') :
    p'.diagnostics = (p.alarmed t q slot).diagnostics := by
  have hrecover := (recover_effect t (p.alarmed t q slot) discard).1
  rw [h] at hrecover
  cases hrecover with
  | resumed dropped synchronized =>
    obtain ⟨_, _, _, _, rfl⟩ := resynchronize?_eq synchronized
    rw [← diagnostics_of_dropped dropped]

/-- What was reported stays reported. -/
theorem Alarmed.step {p p' : ParseState} (h : p.Alarmed) {o : SyntaxOptions}
    (hstep : p.step t o = .next p') : p'.Alarmed := by
  have heffect := step_effect t o p
  rw [hstep] at heffect
  cases heffect with
  | shift => exact h
  | reduce => exact h
  | @resumed q below slot _ items cell recovered =>
    obtain ⟨x, hx, hkind⟩ := h
    refine ⟨x, ?_, hkind⟩
    rw [diagnostics_of_resumed recovered]
    obtain ⟨j, metrics, history, diagnostics, hcases, heq⟩ := p.alarmed_eq t q slot
    rw [heq]
    rcases hcases with ⟨_, rfl⟩ | ⟨y, _, rfl⟩
    · exact hx
    · exact Array.mem_push_of_mem y hx

/-- The first error is reported. -/
theorem alarmed_of_resumed {p p' : ParseState} (huntriggered : p.trigger = none) {q : Nat}
    {slot : Option Nat} {discard : Bool}
    (hresumed : (p.alarmed t q slot).recover t discard = .resumed p') : p'.Alarmed := by
  obtain ⟨j, metrics, history, diagnostics, hcases, heq⟩ := p.alarmed_eq t q slot
  unfold Alarmed
  rw [diagnostics_of_resumed hresumed, heq]
  rcases hcases with ⟨hrepeated, _⟩ | ⟨x, hkind, rfl⟩
  · have : p.trigger = some p.lookahead.span.start.offset := of_decide_eq_true hrepeated
    rw [huntriggered] at this
    cases this
  · exact ⟨x, Array.mem_push_self, hkind⟩

/-- A rule that is found by its number. -/
theorem get?_of_rule {n : Nat} {r : Rule} (h : t.rule n = .ok r) : t.rules.get? n = some r := by
  unfold DecisionTables.rule RuleSet.rule at h
  split at h
  · next r' hr' => rw [hr', Except.ok.inj h]
  · cases h

/-- What the parser does beside a driver that moves. -/
def Moves (o : SyntaxOptions) (t : DecisionTables) (p : ParseState) (d' : Driver) : Prop :=
  (∃ p', p.step t o = .next p' ∧ p'.Tracks d') ∨
    ∃ e q, p.step t o = .failed e q ∧ e.isLimit = true

namespace Steady

variable {o : SyntaxOptions} {Inv : List GrammarSymbol → ParseState → Prop}
  {symbols : List GrammarSymbol} {p : ParseState} {d : Driver}

/-- A failure other than of the scanner is a limit. -/
theorem isLimit_of_failed (hs : Steady g t o Inv) (hi : Inv symbols p) {e : SyntaxError}
    {p' : ParseState} (hstep : p.step t o = .failed e p') (he : ∀ e', e ≠ .lexical e') :
    e.isLimit = true := by
  rcases hs.failed hi hstep with hlimit | ⟨e', rfl⟩
  · exact hlimit
  · exact absurd rfl (he e')

/-- A cell with a reduction moves the driver. -/
theorem driver_reduces (hb : g.Built t) (hf : Follows g p symbols) {q n : Nat} {below : List Nat}
    (items : p.states.items = q :: below) (cell : t.action q p.terminal = some (.reduce n))
    (rest : List GrammarSymbol) :
    ∃ top under target r, t.rule n = .ok r ∧ p.states.items.drop r.arity = top :: under ∧
      t.goto top r.left = some target ∧
      Driver.step t ⟨p.states.items, p.terminal :: rest⟩ =
        some ⟨target :: top :: under, p.terminal :: rest⟩ := by
  obtain ⟨r, _, hrule, top, under, target, _, hdrop, _, _, hgoto, _⟩ := hf.reduced hb items cell
  refine ⟨top, under, target, r, hrule, hdrop, hgoto, ?_⟩
  exact Driver.step_reduce (by rw [items]; rfl) cell (get?_of_rule hrule) hdrop hgoto

/-- **The parser keeps step with the driver**: where the driver moves, so does the parser, unless a
limit is hit; where the driver accepts, so does the parser; and where the driver stops, the parser
reports an error. -/
theorem lockstep (hb : g.Built t) (hend : ∀ r ∈ g.rules, endMarker ∉ r.right)
    (hs : Steady g t o Inv) (hi : Inv symbols p) (h : p.Tracks d) :
    (∃ d', d.step t = some d' ∧ p.Moves o t d') ∨
      (d.accepting t = true ∧ p.step t o = .accepted p) ∨
      (d.step t = none ∧ d.accepting t = false ∧ ∀ q, p.step t o ≠ .accepted q ∧
        (p.step t o = .next q → q.Alarmed)) := by
  have hf := hs.follows hi
  obtain ⟨words, hupcoming, hinput⟩ := h.upcoming
  obtain ⟨rest, hrest⟩ := hupcoming.input_eq
  obtain rfl : d = ⟨p.states.items, p.terminal :: rest⟩ := by
    rw [← hrest, ← hinput, ← h.states_eq]
  unfold Moves
  have heffect := step_effect t o p
  generalize hresult : p.step t o = result at heffect ⊢
  cases heffect with
  | empty items => exact absurd items hf.items_ne_nil
  | accept items cell =>
    refine .inr (.inl ⟨?_, rfl⟩)
    rw [items]
    simp [Driver.accepting, cell]
  | full items cell pushed =>
    rw [items]
    refine .inl ⟨_, Driver.step_shift cell, .inr ⟨_, _, rfl, ?_⟩⟩
    rw [(Stack.push_eq_error pushed).1]
    rfl
  | unread items cell pushed stuck =>
    obtain ⟨j, e', s, hstuck, _⟩ := stuck
    obtain ⟨_, u, s', _, hfound, _⟩ :=
      hupcoming.next (hb.shift_ne_endMarker hend cell) hrest j
    cases hfound.symm.trans hstuck
  | unkept items cell pushed kept =>
    rw [items]
    refine .inl ⟨_, Driver.step_shift cell, .inr ⟨_, _, rfl, ?_⟩⟩
    rw [(Stack.push_eq_error kept).1]
    rfl
  | @shift q target below states values j u s items cell pushed found kept =>
    obtain ⟨_, hitems, _⟩ := (Stack.push_eq_ok_iff _ _ _).mp pushed
    obtain ⟨word', u', s', hrest', hfound', hnext⟩ :=
      hupcoming.next (hb.shift_ne_endMarker hend cell) hrest j
    obtain ⟨hu, hs'⟩ := Prod.mk.inj (hfound'.symm.trans found)
    obtain rfl := Except.ok.inj hu
    subst hs'
    refine .inl ⟨⟨target :: p.states.items, rest⟩, by rw [items]; exact Driver.step_shift cell,
      .inl ⟨_, rfl, ?_⟩⟩
    exact
      { states_eq := hitems.symm
        upcoming := ⟨word', hnext _ rfl rfl, hrest'⟩
        untriggered := rfl
        silent := h.silent
        lexical := lexical_of_finds (Scanner.finds_of_nextVisible found) h.lexical
        semantic := h.semantic }
  | unknown items cell missing =>
    obtain ⟨_, _, _, _, hrule, _⟩ := driver_reduces hb hf items cell rest
    cases hrule.symm.trans missing
  | unreduced items cell rule reduced =>
    obtain ⟨top, under, target, r, hrule, _, _, hstep⟩ := driver_reduces hb hf items cell rest
    refine .inl ⟨_, hstep, .inr ⟨_, _, rfl, ?_⟩⟩
    rw [hf.unreduced hb items cell rule reduced]
    rfl
  | refused items cell rule reduced run =>
    obtain ⟨top, under, target, r, _, _, _, hstep⟩ := driver_reduces hb hf items cell rest
    exact .inl ⟨_, hstep, .inr ⟨_, _, rfl, hs.isLimit_of_failed hi hresult (by simp)⟩⟩
  | @reduce q n below r states j executor session items cell rule reduced run =>
    obtain ⟨top, under, target, r', hrule, hdrop, hgoto, hstep⟩ :=
      driver_reduces hb hf items cell rest
    obtain rfl : r' = r := Except.ok.inj (hrule.symm.trans rule)
    obtain ⟨seen, v, c, hperformed⟩ := hf.performed hb items cell rule reduced run
    obtain ⟨j', rfl⟩ := hperformed.session_eq
    obtain ⟨target', top', under', hitems, hdrop', hgoto'⟩ := hperformed.states_eq
    obtain ⟨rfl, rfl⟩ := List.cons.inj (hdrop.symm.trans hdrop')
    obtain rfl : target = target' := Option.some.inj (hgoto.symm.trans hgoto')
    have hkeeps := hs.keeps hi hperformed.rule_mem hperformed.symbols_eq j
    rw [hperformed.perform_eq] at hkeeps
    refine .inl ⟨_, hstep, .inl ⟨_, rfl, ?_⟩⟩
    exact
      { states_eq := hitems.symm
        upcoming := ⟨words, hupcoming.of_agrees rfl ⟨rfl, rfl, rfl, rfl, hkeeps.sameWords⟩,
          hrest.symm⟩
        untriggered := h.untriggered
        silent := h.silent
        lexical := h.lexical
        semantic := by
          intro x hx
          simp only [hperformed.work_eq] at hx
          obtain ⟨found, hkind, heq⟩ := hkeeps.reported
          rw [heq] at hx
          exact (Array.mem_append.mp hx).elim (h.semantic x) (hkind x) }
  | resumed items cell recovered =>
    obtain ⟨hnone, haccept⟩ := Driver.stops_of_hasAction cell
    rw [items]
    refine .inr (.inr ⟨hnone, haccept, fun q => ⟨by simp, ?_⟩⟩)
    rintro ⟨⟩
    exact alarmed_of_resumed h.untriggered recovered
  | abandoned items cell recovered =>
    obtain ⟨hnone, haccept⟩ := Driver.stops_of_hasAction cell
    rw [items]
    exact .inr (.inr ⟨hnone, haccept, fun q => ⟨by simp, by simp⟩⟩)
  | lost items cell recovered =>
    obtain ⟨hnone, haccept⟩ := Driver.stops_of_hasAction cell
    rw [items]
    exact .inr (.inr ⟨hnone, haccept, fun q => ⟨by simp, by simp⟩⟩)

/-- **A parser that the driver leads to acceptance** accepts without an error, or a limit is hit. -/
theorem accepts_of_moves (hb : g.Built t) (hend : ∀ r ∈ g.rules, endMarker ∉ r.right)
    (hs : Steady g t o Inv) {e : Driver} (hmoves : Driver.Moves t d e)
    (haccept : e.accepting t = true) (hi : Inv symbols p) (h : p.Tracks d) :
    (∀ n, (∃ q d', p.run t o n = .accepted q ∧ q.Tracks d') ∨
        ∃ err q, p.run t o n = .failed err q ∧ err.isLimit = true) ∧
      ∃ n, ∀ q, p.run t o n ≠ .failed .unfinished q := by
  induction hmoves using Relation.ReflTransGen.head_induction_on generalizing p symbols with
  | refl =>
    have hstep : p.step t o = .accepted p := by
      rcases hs.lockstep hb hend hi h with ⟨d', hd', _⟩ | ⟨_, hstep⟩ | ⟨_, hno, _⟩
      · rw [Driver.step_of_accepting haccept] at hd'
        cases hd'
      · exact hstep
      · rw [haccept] at hno
        cases hno
    refine ⟨fun n => ?_, 1, fun q => by simp [run, hstep]⟩
    cases n with
    | zero => exact .inr ⟨_, _, rfl, rfl⟩
    | succ n => exact .inl ⟨p, e, by simp [run, hstep], h⟩
  | @head d d₁ hd _ ih =>
    have hmoves : p.Moves o t d₁ := by
      rcases hs.lockstep hb hend hi h with ⟨d', hd', hmoves⟩ | ⟨hno, _⟩ | ⟨hno, _⟩
      · rw [hd] at hd'
        rwa [Option.some.inj hd']
      · rw [Driver.step_of_accepting hno] at hd
        cases hd
      · rw [hno] at hd
        cases hd
    rcases hmoves with ⟨p', hstep, htracks⟩ | ⟨err, q, hstep, hlimit⟩
    · obtain ⟨symbols', hi'⟩ := hs.step hi hstep
      obtain ⟨hall, n, hends⟩ := ih hi' htracks
      refine ⟨fun n => ?_, n + 1, fun q => by simpa [run, hstep] using hends q⟩
      cases n with
      | zero => exact .inr ⟨_, _, rfl, rfl⟩
      | succ n => simpa only [run, hstep] using hall n
    · refine ⟨fun n => ?_, 1, fun q' heq => ?_⟩
      · cases n with
        | zero => exact .inr ⟨_, _, rfl, rfl⟩
        | succ n => exact .inr ⟨err, q, by simp [run, hstep], hlimit⟩
      · simp only [run, hstep] at heq
        obtain ⟨rfl, _⟩ := ParseEnd.failed.inj heq
        exact (hs.follows hi).ne_unfinished hb hstep

/-- **A parser that accepts** has reported a syntax error, or the driver accepts as well. -/
theorem accepts_of_accepted (hb : g.Built t) (hend : ∀ r ∈ g.rules, endMarker ∉ r.right)
    (hs : Steady g t o Inv) {word : List GrammarSymbol} (hi : Inv symbols p)
    (h : p.Tracks (.start word)) {n : Nat} {q : ParseState} (hrun : p.run t o n = .accepted q) :
    q.Alarmed ∨ t.Accepts word := by
  obtain ⟨q', hq', hended⟩ := run_induction t o
    (fun p => p.Alarmed ∨ ∃ d symbols, Driver.Moves t (.start word) d ∧ Inv symbols p ∧ p.Tracks d)
    (by
      -- until an error is reported, the driver makes the same moves
      rintro p p' (halarmed | ⟨d, symbols, hmoves, hi, htracks⟩) hstep
      · exact .inl (halarmed.step hstep)
      · rcases hs.lockstep hb hend hi htracks with ⟨d', hd', hmove⟩ | ⟨_, hno⟩ | ⟨_, _, hno⟩
        · rcases hmove with ⟨p'', hstep', htracks'⟩ | ⟨_, _, hno, _⟩
          · cases hstep'.symm.trans hstep
            obtain ⟨symbols', hi'⟩ := hs.step hi hstep
            exact .inr ⟨d', symbols', hmoves.tail hd', hi', htracks'⟩
          · cases hno.symm.trans hstep
        · cases hno.symm.trans hstep
        · exact .inl ((hno p').2 hstep))
    n (.inr ⟨.start word, symbols, .refl, hi, h⟩)
  rw [hrun] at hended
  cases hended with
  | accepted last =>
    obtain rfl := eq_of_accepted last
    rcases hq' with halarmed | ⟨d, symbols, hmoves, hi, htracks⟩
    · exact .inl halarmed
    · rcases hs.lockstep hb hend hi htracks with ⟨d', _, hmove⟩ | ⟨haccept, _⟩ | ⟨_, _, hno⟩
      · rcases hmove with ⟨_, hno, _⟩ | ⟨_, _, hno, _⟩
        · cases hno.symm.trans last
        · cases hno.symm.trans last
      · exact .inr ⟨d, hmoves, haccept⟩
      · exact absurd last (hno q).1

end Steady

/-! ## Executors that stay out of the way -/

/-- A recovery cuts the values of the executor and changes nothing else of it. -/
theorem executor_of_resumed {p p' : ParseState} {q : Nat} {slot : Option Nat} {discard : Bool}
    (h : (p.alarmed t q slot).recover t discard = .resumed p') :
    p'.executor.actions = p.executor.actions ∧ p'.executor.work = p.executor.work := by
  -- dropping tokens does not touch the executor
  have hdropped : ∀ {p p' : ParseState}, Relation.ReflTransGen Drops p p' →
      p'.executor = p.executor := by
    intro p p' h
    induction h with
    | refl => rfl
    | tail _ hdrop ih =>
      cases hdrop
      exact ih
  have hrecover := (recover_effect t (p.alarmed t q slot) discard).1
  rw [h] at hrecover
  cases hrecover with
  | resumed dropped synchronized =>
    obtain ⟨_, _, _, _, rfl⟩ := resynchronize?_eq synchronized
    obtain ⟨_, _, _, _, _, heq⟩ := p.alarmed_eq t q slot
    have hsame := hdropped dropped
    rw [heq] at hsame
    rw [hsame]
    exact ⟨rfl, rfl⟩

/-- The executor keeps its actions. -/
theorem actions_of_step {p p' : ParseState} {o : SyntaxOptions} (hb : g.Built t)
    {symbols : List GrammarSymbol} (hf : Follows g p symbols) (hstep : p.step t o = .next p') :
    p'.executor.actions = p.executor.actions := by
  have heffect := step_effect t o p
  rw [hstep] at heffect
  cases heffect with
  | shift => rfl
  | reduce items cell rule reduced run =>
    obtain ⟨seen, v, c, hperformed⟩ := hf.performed hb items cell rule reduced run
    exact hperformed.actions_eq
  | resumed items cell recovered => exact (executor_of_resumed recovered).1

/-- **An executor without actions stays out of the way.** -/
theorem steady_bare (hb : g.Built t) (o : SyntaxOptions) :
    Steady g t o fun symbols p => Follows g p symbols ∧ p.executor.actions = fun _ => none where
  follows h := h.1
  keeps h _ _ _ _ _ := by
    rw [h.2]
    exact .refl _
  step h hstep := by
    obtain ⟨symbols', hf⟩ := h.1.step hb hstep
    exact ⟨symbols', hf, (actions_of_step hb h.1 hstep).trans h.2⟩
  failed h hstep := by
    rcases h.1.failed hb hstep with rfl | ⟨_, _, _, _, _, _, rfl⟩ | ⟨rfl, _⟩ | ⟨r, _, _, j, err, c, _,
      hperform, _⟩
    · exact .inl rfl
    · exact .inr ⟨_, rfl⟩
    · exact .inl rfl
    · rw [h.2] at hperform
      cases hperform

/-- **The executor of MGol stays out of the way.** -/
theorem steady_mgol (o : SyntaxOptions) (failure : Option String) (capacity : Nat) :
    Steady .mgol .mgol o (Safe failure capacity) where
  follows h := h.follows
  keeps h _ hr _ hsymbols j := (h.tame hr hsymbols j).keeps
  step h hstep := h.step hstep
  failed h hstep := by
    cases h.failed hstep with
    | read => exact .inr ⟨_, rfl⟩
    | tokens => exact .inl rfl
    | overflow => exact .inl rfl
    | temporaries => exact .inl rfl

end ParseState

/-! ## Outcomes -/

/-- An outcome has syntax errors if one of its parts reported one. -/
theorem ParseOutcome.hasSyntaxErrors_ofState {p : ParseState} {accepted : Bool} :
    (ParseOutcome.ofState p accepted).1.hasSyntaxErrors = true ↔
      ∃ x, (x ∈ p.scanner.diagnostics ∨ x ∈ p.diagnostics ∨ x ∈ p.executor.work.diagnostics) ∧
        x.kind = .syntactic := by
  simp only [hasSyntaxErrors, ofState, sortDiagnostics, List.any_eq_true, List.mem_mergeSort,
    Array.mem_toList_iff, Array.mem_append, Diagnostic.isSyntactic, decide_eq_true_eq, or_assoc,
    Executor.diagnostics]

/-- A syntax error of the parser shows in the outcome. -/
theorem ParseOutcome.hasSyntaxErrors_of_alarmed {p : ParseState} (h : p.Alarmed)
    (accepted : Bool) : (ParseOutcome.ofState p accepted).1.hasSyntaxErrors = true := by
  obtain ⟨x, hx, hkind⟩ := h
  exact hasSyntaxErrors_ofState.mpr ⟨x, .inr (.inl hx), hkind⟩

/-- **A result without a syntax error**: the parse was accepted, and nothing but lexical and type
errors was reported. -/
def AcceptedCleanly (result : Except SyntaxError ParseOutcome) : Prop :=
  ∃ outcome, result = .ok outcome ∧ outcome.accepted = true ∧ outcome.hasSyntaxErrors = false

/-- **A result that no limit has spoilt.** -/
def HitsNoLimit (result : Except SyntaxError ParseOutcome) : Prop :=
  ∀ e, result = .error e → e.isLimit = false

/-- **A parser that recognizes a word**: whatever the bound on moves, the parse is accepted without
a syntax error exactly if the word is a sentence, as long as no limit is hit; and a sentence needs
finitely many moves. -/
structure Recognizes (g : RuleSet) (word : List GrammarSymbol) (executor : Executor)
    (scanner : Scanner) (tables : DecisionTables) (o : SyntaxOptions) : Prop where
  cleanly_iff : ∀ moves, HitsNoLimit (parseWithin moves executor scanner tables o).1 →
    (AcceptedCleanly (parseWithin moves executor scanner tables o).1 ↔ g.Sentence word)
  finite : g.Sentence word →
    ∃ n, ∀ moves, n ≤ moves → (parseWithin moves executor scanner tables o).1 ≠ .error .unfinished

/-- **With an executor that stays out of the way the parser recognizes the grammar.** -/
theorem ParseState.Steady.recognizes {g : RuleSet} {t : DecisionTables} {o : SyntaxOptions}
    {Inv : List GrammarSymbol → ParseState → Prop} (hs : Steady g t o Inv) (hb : g.Built t)
    (hend : ∀ r ∈ g.rules, endMarker ∉ r.right) {executor : Executor} {scanner : Scanner}
    {words : List (TokenClass × String)} (hahead : scanner.Ahead words)
    (hlexical : ∀ x ∈ scanner.diagnostics, x.kind = .lexical)
    (hsemantic : ∀ x ∈ executor.work.diagnostics, x.kind = .semantic)
    (hinv : ∀ u s states, scanner.nextVisible = (.ok u, s) → states.items = [0] →
      states.capacity = o.effectiveCapacity →
      Inv [] { scanner := s, states, executor, lookahead := u }) :
    Recognizes g (words.map terminalOf) executor scanner t o := by
  obtain ⟨u, s, hnext, hcases⟩ := hahead.nextVisible
  obtain ⟨states, hitems, hcapacity, hstart⟩ : ∃ states, states.items = [0] ∧
      states.capacity = o.effectiveCapacity ∧
      startState scanner executor o.effectiveCapacity =
        (.ok { scanner := s, states, executor, lookahead := u }, {}) := by
    rcases startState_cases scanner executor o with ⟨u', s', states, hfound, _, hitems, hcapacity,
      hstart⟩ | ⟨e, s', hfound, _⟩
    · cases hfound.symm.trans hnext
      exact ⟨states, hitems, hcapacity, hstart⟩
    · cases hfound.symm.trans hnext
  -- the state that the parse begins in tracks the driver at its start
  let p : ParseState := { scanner := s, states, executor, lookahead := u }
  have hwithin : ∀ moves,
      parseWithin moves executor scanner t o = (p.run t o moves).result := by
    intro moves
    rw [parseWithin, hstart]
  have hi : Inv [] p := hinv u s states hnext hitems hcapacity
  have htracks : p.Tracks (.start (words.map terminalOf)) :=
    { states_eq := hitems.symm
      upcoming := ⟨words, hcases, rfl⟩
      untriggered := rfl
      silent := rfl
      lexical := lexical_of_finds (Scanner.finds_of_nextVisible hnext) hlexical
      semantic := hsemantic }
  -- a sentence leads the driver to acceptance, and the parser with it
  have hmoves : g.Sentence (words.map terminalOf) →
      (∀ n, (∃ q d', p.run t o n = .accepted q ∧ q.Tracks d') ∨
          ∃ err q, p.run t o n = .failed err q ∧ err.isLimit = true) ∧
        ∃ n, ∀ q, p.run t o n ≠ .failed .unfinished q := by
    intro hsentence
    obtain ⟨e, hmoves, haccept⟩ := hb.accepts_of_forest (RuleSet.sentence_iff_forest.mp hsentence)
    exact hs.accepts_of_moves hb hend hmoves haccept hi htracks
  refine ⟨fun moves hlimit => ⟨?_, fun hsentence => ?_⟩, fun hsentence => ?_⟩
  · rintro ⟨outcome, hresult, haccepted, hclean⟩
    rw [hwithin] at hresult
    cases hrun : p.run t o moves with
    | accepted q =>
      rw [hrun] at hresult
      obtain rfl := Except.ok.inj hresult
      rcases hs.accepts_of_accepted hb hend hi htracks hrun with ⟨x, hx, hkind⟩ | haccepts
      · have herrors : (ParseOutcome.ofState q true).1.hasSyntaxErrors = true :=
          ParseOutcome.hasSyntaxErrors_ofState.mpr ⟨x, .inr (.inl hx), hkind⟩
        cases herrors.symm.trans hclean
      · exact RuleSet.sentence_iff_forest.mpr
          (hb.forest_of_accepts hahead.endMarker_notMem haccepts)
    | abandoned q =>
      rw [hrun] at hresult
      obtain rfl := Except.ok.inj hresult
      cases haccepted
    | failed e q =>
      rw [hrun] at hresult
      cases hresult
  · rw [hwithin] at hlimit ⊢
    rcases (hmoves hsentence).1 moves with ⟨q, d', hrun, htracked⟩ | ⟨err, q, hrun, herr⟩
    · rw [hrun]
      refine ⟨_, rfl, rfl, Bool.eq_false_iff.mpr fun herrors => ?_⟩
      obtain ⟨x, hx, hkind⟩ := ParseOutcome.hasSyntaxErrors_ofState.mp herrors
      rcases hx with hx | hx | hx
      · cases (htracked.lexical x hx).symm.trans hkind
      · rw [htracked.silent] at hx
        simp at hx
      · cases (htracked.semantic x hx).symm.trans hkind
    · rw [hrun] at hlimit
      rw [hlimit err rfl] at herr
      cases herr
  · obtain ⟨n, hn⟩ := (hmoves hsentence).2
    refine ⟨n, fun moves hle herror => ?_⟩
    rw [hwithin, ParseState.run_eq_of_le hn hle] at herror
    generalize p.run t o n = ended at hn herror
    cases ended with
    | accepted q => cases herror
    | abandoned q => cases herror
    | failed e q => exact hn q (by rw [Except.error.inj herror])

/-- **Constructed tables recognize exactly their grammar.** The driver accepts exactly the words that
derive from the right side of the start rule. The parser with an executor without actions recognizes
the terminals of its tokens, and so does the parser of MGol with its own executor. -/
theorem built_tables_recognize {rules : List Rule} {origin : String} {g : RuleSet}
    (hg : RuleSet.ofRules rules origin = .ok g) (hend : ∀ r ∈ g.rules, endMarker ∉ r.right)
    {policy : ErrorPolicy} {built : SlrTables} (hbuilt : g.slrTables policy = .ok built) :
    (∀ word, (∀ a ∈ word, g.isNonterminal a = false ∧ a ≠ endMarker) →
      (DecisionTables.Accepts ⟨g, built.actions, built.gotos⟩ word ↔
        g.Derives g.start.right word)) ∧
    (∀ input lexicon session options capacity o tokens,
      (Scanner.ofInput input lexicon session options).scanAll.1 = .ok tokens →
      Recognizes g (terminalsOf tokens.toList) (.bare capacity)
        (.ofInput input lexicon session options) ⟨g, built.actions, built.gotos⟩ o) ∧
    ∀ input lexicon session options o tokens, session.registry.Sound →
      (Scanner.ofInput input lexicon session options).scanAll.1 = .ok tokens →
      Recognizes .mgol (terminalsOf tokens.toList) (.mgol o.effectiveCapacity)
        (.ofInput input lexicon session options) .mgol o := by
  have hb : g.Built ⟨g, built.actions, built.gotos⟩ :=
    ⟨RuleSet.numbered_of_ofRules hg, rfl, policy, hbuilt⟩
  refine ⟨fun word hword => ?_, ?_, ?_⟩
  · exact hb.accepts_iff_derives (fun a ha => (hword a ha).1) fun hmem => (hword _ hmem).2 rfl
  · intro input lexicon session options capacity o tokens hscan
    rw [terminalsOf_eq]
    refine (ParseState.steady_bare hb o).recognizes hb hend (Scanner.ahead_of_scanAll hscan)
      (by simp [Scanner.ofInput]) (by simp [Executor.bare]) ?_
    intro u s states _ hitems hcapacity
    refine ⟨⟨by rw [hitems]; exact .start, rfl, ?_⟩, rfl⟩
    rw [hitems, hcapacity]
    exact o.effectiveCapacity_pos
  · intro input lexicon session options o tokens hsound hscan
    rw [terminalsOf_eq]
    refine (ParseState.steady_mgol o input.failure o.effectiveCapacity).recognizes
      RuleSet.mgol_built (by decide) (Scanner.ahead_of_scanAll hscan)
      (by simp [Scanner.ofInput]) (by simp [Executor.mgol]) ?_
    intro u s states hfound hitems hcapacity
    have hregistry : (Scanner.ofInput input lexicon session options).registry.Sound := hsound
    exact safe_of_startState hregistry hfound hitems hcapacity

/-- The rules of the lists of a terminal, the last of them with an empty right side. -/
def listRules : List Rule := [⟨1, "S", ["L"]⟩, ⟨2, "L", ["a", "L"]⟩, ⟨3, "L", []⟩]

/-- The lists of a terminal have tables, which recognize them. -/
theorem built_tables_recognize_lists :
    ∃ g built, RuleSet.ofRules listRules "lists" = .ok g ∧ g.slrTables .mgol = .ok built ∧
      (DecisionTables.Accepts ⟨g, built.actions, built.gotos⟩ ["a", "a"] ↔
        g.Derives ["L"] ["a", "a"]) := by
  let g : RuleSet := ⟨⟨1, "S", ["L"]⟩, [⟨2, "L", ["a", "L"]⟩, ⟨3, "L", []⟩]⟩
  have hg : RuleSet.ofRules listRules "lists" = .ok g := by rfl
  obtain ⟨built, hbuilt⟩ : ∃ built, g.slrTables .mgol = .ok built := by
    have h : (g.slrTables .mgol).toBool = true := by decide +kernel
    cases hslr : g.slrTables .mgol with
    | error e =>
      rw [hslr] at h
      cases h
    | ok built => exact ⟨built, rfl⟩
  exact ⟨g, built, hg, hbuilt,
    (built_tables_recognize hg (by decide) hbuilt).1 ["a", "a"] (by decide)⟩

end Mgol
