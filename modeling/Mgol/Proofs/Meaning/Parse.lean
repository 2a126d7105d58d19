import Mgol.Proofs.Meaning.Reduction
import Mgol.Proofs.Parser.Language

/-! # What a parse writes

As long as nothing is wrong with a program, the symbols on the stack of its parser stand for what
was read so far, and the draft is what these phrases have written.

* **`ParseState.Composes`** — a parser whose stack stands for what was read.
* **`ParseState.Composes.step`** — every move keeps that, unless an error is reported.
* **`ParseState.program_of_run`** — a parse that is accepted without an error has written the lines of
  the program that was read. -/

namespace Mgol

open Target Ast

/-- A terminal stands for a token. -/
theorem Meaning.of_terminal (t : Token) : Meaning t.terminalName = IsToken t.terminalName := by
  unfold Token.terminalName
  cases t.kind with
  | keyword word => cases word <;> rfl
  | _ => rfl

namespace ParseState

/-- The draft of a parse. -/
def draft (p : ParseState) : Draft := ActionContext.draft ⟨p.executor.work, p.scanner.session⟩

/-- **A parse with an error** of the grammar or of the types. -/
def Spoilt (p : ParseState) : Prop := p.Alarmed ∨ p.executor.work.errorCount ≠ 0

/-- **A parser whose stack stands for what was read**: its symbols are phrases that have written the
draft, and their words are those that a scanner had ahead at the beginning. -/
structure Composes (begin : Scanner) (symbols : List GrammarSymbol) (p : ParseState) : Prop where
  fluent : p.scanner.Fluent
  spelled : p.lookahead.value.Spelled
  untriggered : p.trigger = none
  phrases : ∃ words, Phrases symbols.reverse words p.executor.values.items.reverse .blank p.draft ∧
    ∀ rest, p.Upcoming rest → begin.Ahead (words ++ rest)

variable {failure : Option String} {capacity : Nat} {symbols : List GrammarSymbol}
  {p p' : ParseState} {begin : Scanner}

/-- Shifting a token adds a phrase of one word. -/
theorem Composes.shifted (h : p.Composes begin symbols) {q target : Nat}
    (cell : DecisionTables.mgol.action q p.terminal = some (.shift target)) {states : Stack Nat}
    {j : Journal} {t : Spanned Token} {s : Scanner}
    (found : (p.scanner.withJournal j).nextVisible = (.ok t, s)) {values : Stack (Spanned Token)}
    (kept : p.executor.values.push p.lookahead = .ok values) (metrics : SyntaxMetrics) :
    Composes begin (p.terminal :: symbols)
      { p with
        scanner := s, states, lookahead := t, trigger := none, metrics
        executor := { p.executor with values } } := by
  have hagrees := agrees_withJournal p.scanner j
  obtain ⟨hfluent, hspelled, htypes⟩ :=
    (Scanner.finds_of_nextVisible found).fluent (h.fluent.of_agrees hagrees)
  obtain ⟨_, hitems, _⟩ := (Stack.push_eq_ok_iff _ _ _).mp kept
  obtain ⟨words, hphrases, hwords⟩ := h.phrases
  -- the end of the file is never shifted
  have hmore : p.lookahead.value.kind ≠ .endOfFile := fun hend =>
    RuleSet.mgol_built.shift_ne_endMarker (by decide) cell
      (Token.terminalName_eq_endMarker_iff.mpr hend)
  refine ⟨hfluent, hspelled, rfl, words ++ [p.lookahead.value.word], ?_, ?_⟩
  · have hdraft : draft { p with
        scanner := s, states, lookahead := t, trigger := none, metrics
        executor := { p.executor with values } } = p.draft := by
      unfold draft ActionContext.draft
      rw [show s.session.registry.typeOf = p.scanner.session.registry.typeOf from htypes]
    -- a terminal is a phrase of its own, which writes nothing
    have htoken : Meaning p.terminal [p.lookahead.value.word] p.lookahead.value p.draft p.draft := by
      rw [terminal, Meaning.of_terminal]
      exact ⟨rfl, h.spelled, rfl, rfl⟩
    rw [hdraft, List.reverse_cons]
    simp only [hitems, List.reverse_cons]
    exact hphrases.append (.cons htoken .nil)
  · intro rest hrest
    rw [List.append_assoc]
    refine hwords _ (.inr ⟨hmore, rest, rfl, ?_⟩)
    exact (Scanner.Ahead.of_nextVisible found hrest).of_agrees hagrees.symm

/-- A reduction puts the phrases of its right side together, unless an error is reported. -/
theorem Composes.reduced (h : p.Composes begin symbols) (hsafe : p.Safe failure capacity symbols)
    {q n : Nat} {below : List Nat} (items : p.states.items = q :: below)
    (cell : DecisionTables.mgol.action q p.terminal = some (.reduce n)) {r : Rule}
    (rule : DecisionTables.mgol.rule n = .ok r) {states : Stack Nat}
    (reduced : reducedStates p.states .mgol r = .ok states) {j : Journal} {executor : Executor}
    {session : Session}
    (run : p.executor.reduce r p.lookahead.span.start ⟨p.scanner.registry, j⟩ =
      (.ok (), executor, session)) (metrics : SyntaxMetrics) {seen : List GrammarSymbol}
    (hsymbols : symbols = r.right.reverse ++ seen) (hclean : executor.work.errorCount = 0) :
    Composes begin (r.left :: seen)
      { p with scanner := { p.scanner with session }, states, executor, metrics } := by
  obtain ⟨seen', v, c, hperformed⟩ :=
    hsafe.follows.performed RuleSet.mgol_built items cell rule reduced run
  obtain rfl : seen = seen' :=
    List.append_cancel_left (hsymbols.symm.trans hperformed.symbols_eq)
  obtain ⟨span, hvalues⟩ := hperformed.values_eq
  obtain ⟨j', rfl⟩ := hperformed.session_eq
  have hperform := hperformed.perform_eq
  have hwork := hperformed.work_eq
  have htame := hsafe.tame hperformed.rule_mem hsymbols j
  rw [hperform] at htame
  have hagrees : p.scanner.Agrees { p.scanner with session := ⟨c.session.registry, j'⟩ } :=
    ⟨rfl, rfl, rfl, rfl, htame.keeps.sameWords⟩
  obtain ⟨words, hphrases, hwords⟩ := h.phrases
  -- the phrases of the right side are those whose values are taken off
  rw [hsymbols, List.reverse_append, List.reverse_reverse, Executor.reverse_items _ r] at hphrases
  obtain ⟨front, back, d, rfl, hfront, hback⟩ :=
    hphrases.split (hsafe.follows.length_below hsymbols)
  have hothers : r ∈ RuleSet.mgol.others :=
    (List.mem_cons.mp hperformed.rule_mem).resolve_left
      (RuleSet.mgol_built.reduce_ne_start cell rule)
  rw [hsafe.actions_eq] at hperform
  have hmeaning := Meaning.reduce hothers
    (c := ⟨p.executor.work, ⟨p.scanner.registry, j⟩⟩) hback hperform (by rw [← hwork]; exact hclean)
  refine ⟨h.fluent.of_agrees hagrees, h.spelled, h.untriggered, front ++ back, ?_, ?_⟩
  · rw [List.reverse_cons]
    simp only [hvalues, List.reverse_cons]
    refine hfront.append ?_
    have hdraft : draft { p with
        scanner := { p.scanner with session := ⟨c.session.registry, j'⟩ }, states, executor,
        metrics } = c.draft := by
      unfold draft ActionContext.draft
      simp only [hwork]
    rw [hdraft, ← List.append_nil back]
    exact .cons hmeaning .nil
  · intro rest hrest
    exact hwords rest (hrest.of_agrees rfl hagrees.symm)

/-- What is spoilt stays spoilt. -/
theorem Spoilt.step (h : p.Spoilt) (hsafe : p.Safe failure capacity symbols) {o : SyntaxOptions}
    (hstep : p.step .mgol o = .next p') : p'.Spoilt := by
  rcases h with halarmed | hcount
  · exact .inl (halarmed.step hstep)
  · refine .inr ?_
    have heffect := step_effect .mgol o p
    rw [hstep] at heffect
    cases heffect with
    | shift => exact hcount
    | @reduce q n below r states j executor session items cell rule reduced run =>
      obtain ⟨seen, v, c, hperformed⟩ :=
        hsafe.follows.performed RuleSet.mgol_built items cell rule reduced run
      have htame := hsafe.tame hperformed.rule_mem hperformed.symbols_eq j
      rw [hperformed.perform_eq] at htame
      have hcounted := htame.keeps.counted
      simp only [hperformed.work_eq] at hcounted ⊢
      omega
    | resumed items cell recovered =>
      rw [(executor_of_resumed recovered).2]
      exact hcount

/-- **Every move keeps the phrases**, unless an error is reported. -/
theorem Composes.step (h : p.Composes begin symbols) (hsafe : p.Safe failure capacity symbols)
    {o : SyntaxOptions} (hstep : p.step .mgol o = .next p') :
    p'.Spoilt ∨ ∃ symbols', p'.Safe failure capacity symbols' ∧ p'.Composes begin symbols' := by
  have heffect := step_effect .mgol o p
  rw [hstep] at heffect
  cases heffect with
  | shift items cell pushed found kept =>
    exact .inr ⟨_, hsafe.shifted items cell pushed found kept _, h.shifted cell found kept _⟩
  | @reduce q n below r states j executor session items cell rule reduced run =>
    obtain ⟨_, seen, hsymbols, hsafe'⟩ := hsafe.reduced items cell rule reduced run
      { p.metrics with reductions := p.metrics.reductions + 1 }
    by_cases hclean : executor.work.errorCount = 0
    · exact .inr ⟨_, hsafe', h.reduced hsafe items cell rule reduced run _ hsymbols hclean⟩
    · exact .inl (.inr hclean)
  | resumed items cell recovered => exact .inl (.inl (alarmed_of_resumed h.untriggered recovered))

/-- A parser that begins stands for nothing. -/
theorem composes_of_start {s : Scanner} {t : Spanned Token} {states : Stack Nat} {capacity : Nat}
    (hbegin : begin.Fluent) (hblank : begin.registry.typeOf = fun _ => .untyped)
    (found : begin.nextVisible = (.ok t, s)) :
    Composes begin []
      { scanner := s, states, executor := .mgol capacity, lookahead := t } := by
  obtain ⟨hfluent, hspelled, htypes⟩ := (Scanner.finds_of_nextVisible found).fluent hbegin
  refine ⟨hfluent, hspelled, rfl, [], ?_, ?_⟩
  · have hdraft : draft { scanner := s, states, executor := .mgol capacity, lookahead := t } =
        .blank := by
      unfold draft ActionContext.draft
      rw [show s.session.registry.typeOf = fun _ => .untyped from htypes.trans hblank]
      rfl
    rw [hdraft]
    exact .nil
  · intro rest hrest
    exact Scanner.Ahead.of_nextVisible found hrest

/-- **What an accepted parse has written**: without an error, the lines of the program whose words
were read, whose names have their types. -/
theorem Composes.program_of_accepted (h : p.Composes begin symbols)
    (hsafe : p.Safe failure capacity symbols) {o : SyntaxOptions}
    (haccepted : p.step .mgol o = .accepted p') :
    ∃ program : Program, begin.Ahead program.words ∧ program.main.Declared program.types ∧
      p.draft.lines = program.lines ∧ p.draft.types = program.types := by
  have heffect := step_effect .mgol o p
  rw [haccepted] at heffect
  cases heffect with
  | accept items cell =>
    have hpath := hsafe.follows.path
    rw [items] at hpath
    -- at acceptance the program is the only symbol, and nothing is ahead
    obtain ⟨hend, rfl⟩ := RuleSet.mgol_built.accept_path hpath cell
    obtain ⟨words, hphrases, hwords⟩ := h.phrases
    obtain ⟨v, _, ⟨program, rfl, hprogram⟩⟩ := hphrases.one
    have hahead := hwords [] (.inl ⟨Token.terminalName_eq_endMarker_iff.mp hend, rfl⟩)
    rw [List.append_nil] at hahead
    exact ⟨program, hahead, hprogram rfl⟩

/-- **A run that is accepted without an error has written the program that was read.** -/
theorem program_of_run (hsafe : p.Safe failure capacity symbols) (h : p.Composes begin symbols)
    {o : SyntaxOptions} {n : Nat} (hrun : p.run .mgol o n = .accepted p')
    (hsilent : p'.diagnostics = #[]) (hclean : p'.executor.work.errorCount = 0) :
    ∃ program : Program, begin.Ahead program.words ∧ program.main.Declared program.types ∧
      p'.draft.lines = program.lines := by
  obtain ⟨q, ⟨symbols', hsafe', hq⟩, hended⟩ := run_induction .mgol o
    (fun p => ∃ symbols, p.Safe failure capacity symbols ∧
      (p.Spoilt ∨ p.Composes begin symbols))
    (by
      rintro p p' ⟨symbols, hsafe, hspoilt | hcomposes⟩ hstep
      · obtain ⟨symbols', hsafe'⟩ := hsafe.step hstep
        exact ⟨symbols', hsafe', .inl (hspoilt.step hsafe hstep)⟩
      · rcases hcomposes.step hsafe hstep with hspoilt | ⟨symbols', hsafe', hcomposes'⟩
        · obtain ⟨symbols', hsafe'⟩ := hsafe.step hstep
          exact ⟨symbols', hsafe', .inl hspoilt⟩
        · exact ⟨symbols', hsafe', .inr hcomposes'⟩)
    n ⟨symbols, hsafe, .inr h⟩
  rw [hrun] at hended
  cases hended with
  | accepted last =>
    obtain rfl := eq_of_accepted last
    rcases hq with hspoilt | hcomposes
    · rcases hspoilt with ⟨x, hx, _⟩ | hcount
      · rw [hsilent] at hx
        simp at hx
      · exact absurd hclean hcount
    · obtain ⟨program, hahead, hdeclared, hlines, _⟩ := hcomposes.program_of_accepted hsafe' last
      exact ⟨program, hahead, hdeclared, hlines⟩

end ParseState

end Mgol
