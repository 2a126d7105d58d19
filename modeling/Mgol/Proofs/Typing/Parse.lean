import Mgol.Proofs.Compiler.Gates
import Mgol.Proofs.Meaning.Parse
import Mgol.Proofs.Scanner.Places
import Mgol.Proofs.Typing.Reduction

/-! # What a parse reports

As long as a parser meets no syntax error, the symbols on its stack stand for what was read so far,
and the errors of its executor are the faults that were found in it. So the type errors that are
reported for a sentence are exactly the faults of the program that it is.

* **`ParseState.Inspects`** — a parser that has surveyed what it has read.
* **`ParseState.Inspects.step`** — every move keeps that, unless there is a syntax error.
* **`parse_reports_faults`** — the type errors of a parse are the faults of its program. -/

namespace Mgol

open Ast

/-- Where the words of a source begin. -/
def placeIn (whole : List PlacedWord) (i : Nat) : Option Position := whole[i]?.map Prod.snd

/-- Where a word begins behind others. -/
theorem placeIn_append (past : List PlacedWord) (word : PlacedWord) (rest : List PlacedWord) :
    placeIn (past ++ word :: rest) past.length = some word.2 := by
  simp [placeIn]

namespace ParseState

/-- The context of a parse. -/
def context (p : ParseState) : ActionContext := ⟨p.executor.work, p.scanner.session⟩

/-- The words that a parser has ahead with their places, its lookahead first. -/
def Faces (p : ParseState) (words : List PlacedWord) : Prop :=
  p.lookahead.value.kind = .endOfFile ∧ words = [] ∨
    p.lookahead.value.kind ≠ .endOfFile ∧
      ∃ rest, words = Token.placed p.lookahead :: rest ∧ p.scanner.Spread rest

/-- **A parser that has surveyed what it has read** of a source: its symbols have added up to a
survey that its context shows. -/
structure Inspects (whole : List PlacedWord) (symbols : List GrammarSymbol) (p : ParseState) :
    Prop where
  fluent : p.scanner.Fluent
  spelled : p.lookahead.value.Spelled
  untriggered : p.trigger = none
  surveyed : ∃ s past rest, whole = past ++ rest ∧ s.read = past.map Prod.fst ∧ p.Faces rest ∧
    Surveyed (placeIn whole) symbols.reverse p.executor.values.items.reverse .blank s ∧
    p.context.Shows (placeIn whole) s

namespace Inspects

variable {whole : List PlacedWord} {failure : Option String} {capacity : Nat}
  {symbols : List GrammarSymbol} {p p' : ParseState}

/-- Shifting a token adds its word. -/
theorem shifted (h : p.Inspects whole symbols) {q target : Nat}
    (cell : DecisionTables.mgol.action q p.terminal = some (.shift target)) {states : Stack Nat}
    {j : Journal} {t : Spanned Token} {scanner : Scanner}
    (found : (p.scanner.withJournal j).nextVisible = (.ok t, scanner))
    {values : Stack (Spanned Token)} (kept : p.executor.values.push p.lookahead = .ok values)
    (metrics : SyntaxMetrics) :
    Inspects whole (p.terminal :: symbols)
      { p with
        scanner, states, lookahead := t, trigger := none, metrics
        executor := { p.executor with values } } := by
  have hagrees := agrees_withJournal p.scanner j
  obtain ⟨hfluent, hspelled, htypes⟩ :=
    (Scanner.finds_of_nextVisible found).fluent (h.fluent.of_agrees hagrees)
  obtain ⟨_, hitems, _⟩ := (Stack.push_eq_ok_iff _ _ _).mp kept
  obtain ⟨s, past, rest, rfl, hread, hfaces, hsurveyed, hshows⟩ := h.surveyed
  -- the end of the file is never shifted
  have hmore : p.lookahead.value.kind ≠ .endOfFile := fun hend =>
    RuleSet.mgol_built.shift_ne_endMarker (by decide) cell
      (Token.terminalName_eq_endMarker_iff.mpr hend)
  rcases hfaces with ⟨hend, _⟩ | ⟨_, rest, rfl, hspread⟩
  · exact absurd hend hmore
  refine ⟨hfluent, hspelled, rfl, s.note [p.lookahead.value.word] [],
    past ++ [Token.placed p.lookahead], rest, by simp, by simp [hread, Token.placed],
    (hspread.of_agrees hagrees).found found, ?_, ?_⟩
  · have hplace : placeIn (past ++ Token.placed p.lookahead :: rest) s.read.length =
        some p.lookahead.span.start := by
      rw [hread, List.length_map]
      exact placeIn_append _ _ _
    have htoken : Survey.Account (placeIn (past ++ Token.placed p.lookahead :: rest)) p.terminal
        p.lookahead s (s.note [p.lookahead.value.word] []) := by
      rw [terminal, Survey.account_terminal]
      exact ⟨rfl, h.spelled, hplace, rfl⟩
    rw [List.reverse_cons]
    simp only [hitems, List.reverse_cons]
    exact hsurveyed.append (.cons htoken .nil)
  · -- the next token changes no type
    refine hshows.change ?_ hshows.pending_eq (by simp) rfl rfl
    exact Eq.trans htypes hshows.types_eq

/-- A reduction adds up what its right side has added. -/
theorem reduced (h : p.Inspects whole symbols) (hsafe : p.Safe failure capacity symbols)
    {q n : Nat} {below : List Nat} (items : p.states.items = q :: below)
    (cell : DecisionTables.mgol.action q p.terminal = some (.reduce n)) {r : Rule}
    (rule : DecisionTables.mgol.rule n = .ok r) {states : Stack Nat}
    (reduced : reducedStates p.states .mgol r = .ok states) {j : Journal} {executor : Executor}
    {session : Session}
    (run : p.executor.reduce r p.lookahead.span.start ⟨p.scanner.registry, j⟩ =
      (.ok (), executor, session)) (metrics : SyntaxMetrics) {seen : List GrammarSymbol}
    (hsymbols : symbols = r.right.reverse ++ seen) :
    Inspects whole (r.left :: seen)
      { p with scanner := { p.scanner with session }, states, executor, metrics } := by
  obtain ⟨seen', v, c, hperformed⟩ :=
    hsafe.follows.performed RuleSet.mgol_built items cell rule reduced run
  obtain rfl : seen = seen' :=
    List.append_cancel_left (hsymbols.symm.trans hperformed.symbols_eq)
  obtain ⟨j', rfl⟩ := hperformed.session_eq
  have hperform := hperformed.perform_eq
  have htame := hsafe.tame hperformed.rule_mem hsymbols j
  rw [hperform] at htame
  have hagrees : p.scanner.Agrees { p.scanner with session := ⟨c.session.registry, j'⟩ } :=
    ⟨rfl, rfl, rfl, rfl, htame.keeps.sameWords⟩
  obtain ⟨s, past, rest, hwhole, hread, hfaces, hsurveyed, hshows⟩ := h.surveyed
  -- what the right side has added comes from the values that are taken off
  rw [hsymbols, List.reverse_append, List.reverse_reverse, Executor.reverse_items _ r] at hsurveyed
  obtain ⟨s₀, hfront, hback⟩ := hsurveyed.split (hsafe.follows.length_below hsymbols)
  have hothers : r ∈ RuleSet.mgol.others :=
    (List.mem_cons.mp hperformed.rule_mem).resolve_left
      (RuleSet.mgol_built.reduce_ne_start cell rule)
  rw [hsafe.actions_eq] at hperform
  obtain ⟨s', hleft, hread', hshows'⟩ := Survey.reduce hothers
    (c := ⟨p.executor.work, ⟨p.scanner.registry, j⟩⟩) hback (hshows.work rfl rfl rfl rfl) hperform
  refine ⟨h.fluent.of_agrees hagrees, h.spelled, h.untriggered, s', past, rest, hwhole,
    hread'.trans hread, ?_, ?_, ?_⟩
  · exact hfaces.imp id fun ⟨hmore, rest', hrest, hspread⟩ =>
      ⟨hmore, rest', hrest, hspread.of_agrees hagrees⟩
  · rw [List.reverse_cons]
    simp only [hperformed.stacked_eq, List.reverse_cons]
    exact hfront.append (.cons hleft .nil)
  · refine hshows'.work rfl ?_ ?_ ?_ <;> simp only [context, hperformed.work_eq]

/-- **Every move keeps the survey**, unless there is a syntax error. -/
theorem step (h : p.Inspects whole symbols) (hsafe : p.Safe failure capacity symbols)
    {o : SyntaxOptions} (hstep : p.step .mgol o = .next p') :
    p'.Alarmed ∨ ∃ symbols', p'.Safe failure capacity symbols' ∧ p'.Inspects whole symbols' := by
  have heffect := step_effect .mgol o p
  rw [hstep] at heffect
  cases heffect with
  | shift items cell pushed found kept =>
    exact .inr ⟨_, hsafe.shifted items cell pushed found kept _, h.shifted cell found kept _⟩
  | reduce items cell rule reduced run =>
    obtain ⟨_, seen, hsymbols, hsafe'⟩ := hsafe.reduced items cell rule reduced run
      { p.metrics with reductions := p.metrics.reductions + 1 }
    exact .inr ⟨_, hsafe', h.reduced hsafe items cell rule reduced run _ hsymbols⟩
  | resumed items cell recovered => exact .inl (alarmed_of_resumed h.untriggered recovered)

/-- **What an accepted parse has reported**: the faults of the program whose words are those of the
source. -/
theorem accepted (h : p.Inspects whole symbols) (hsafe : p.Safe failure capacity symbols)
    {o : SyntaxOptions} (haccepted : p.step .mgol o = .accepted p') :
    ∃ (program : Program) (all : List Diagnostic), program.words = whole.map Prod.fst ∧
      p.executor.work.Reports all ∧
      all.map Diagnostic.point = program.faults.map (Fault.point (placeIn whole)) := by
  have heffect := step_effect .mgol o p
  rw [haccepted] at heffect
  cases heffect with
  | accept items cell =>
    have hpath := hsafe.follows.path
    rw [items] at hpath
    -- at acceptance the program is the only symbol, and nothing is ahead
    obtain ⟨hend, rfl⟩ := RuleSet.mgol_built.accept_path hpath cell
    have hkind := Token.terminalName_eq_endMarker_iff.mp hend
    obtain ⟨s, past, rest, rfl, hread, hfaces, hsurveyed, hshows⟩ := h.surveyed
    obtain ⟨v, _, ⟨program, hwords, hfound⟩⟩ := hsurveyed.one
    obtain ⟨all, hall, hpoints⟩ := hshows.reports
    rcases hfaces with ⟨_, rfl⟩ | ⟨hmore, _⟩
    · refine ⟨program, all, ?_, hall, by rw [hpoints, hfound rfl]⟩
      rw [List.append_nil, ← hread, hwords]
      rfl
    · exact absurd hkind hmore

end Inspects

/-- A parser that begins has surveyed nothing. -/
theorem inspects_of_start {begin s : Scanner} {t : Spanned Token} {states : Stack Nat}
    {capacity : Nat} {whole : List PlacedWord} (hbegin : begin.Fluent)
    (hblank : begin.registry.typeOf = fun _ => .untyped) (hspread : begin.Spread whole)
    (found : begin.nextVisible = (.ok t, s)) :
    Inspects whole [] { scanner := s, states, executor := .mgol capacity, lookahead := t } := by
  obtain ⟨hfluent, hspelled, htypes⟩ := (Scanner.finds_of_nextVisible found).fluent hbegin
  refine ⟨hfluent, hspelled, rfl, .blank, [], whole, rfl, rfl, hspread.found found, .nil, ?_⟩
  exact ⟨htypes.trans hblank, rfl, [], ⟨rfl, rfl, by simp⟩, rfl⟩

/-- **A run that is accepted without a syntax error has reported the faults of its program.** -/
theorem faults_of_run {whole : List PlacedWord} {failure : Option String} {capacity : Nat}
    {symbols : List GrammarSymbol} {p p' : ParseState} (hsafe : p.Safe failure capacity symbols)
    (h : p.Inspects whole symbols) {o : SyntaxOptions} {n : Nat}
    (hrun : p.run .mgol o n = .accepted p') (hclean : ¬p'.Alarmed) :
    ∃ (program : Program) (all : List Diagnostic), program.words = whole.map Prod.fst ∧
      p'.executor.work.Reports all ∧
      all.map Diagnostic.point = program.faults.map (Fault.point (placeIn whole)) := by
  obtain ⟨q, hq, hended⟩ := run_induction .mgol o
    (fun p => p.Alarmed ∨ ∃ symbols, p.Safe failure capacity symbols ∧ p.Inspects whole symbols)
    (by
      rintro p p' (halarmed | ⟨symbols, hsafe, hinspects⟩) hstep
      · exact .inl (halarmed.step hstep)
      · exact hinspects.step hsafe hstep)
    n (.inr ⟨symbols, hsafe, h⟩)
  rw [hrun] at hended
  cases hended with
  | accepted last =>
    obtain rfl := eq_of_accepted last
    obtain ⟨symbols', hsafe', hinspects⟩ := hq.resolve_left hclean
    exact hinspects.accepted hsafe' last

end ParseState

/-- The type errors of an outcome are those that the executor has recorded. -/
theorem ParseOutcome.semantic_perm {capacity : Nat} {p : ParseState} {accepted : Bool}
    (h : p.Sorted capacity) :
    ((ofState p accepted).1.diagnostics.filter Diagnostic.isSemantic).Perm
      p.executor.work.diagnostics.toList := by
  have hsort : (ofState p accepted).1.diagnostics.Perm
      (p.scanner.diagnostics ++ p.diagnostics ++ p.executor.diagnostics).toList :=
    List.mergeSort_perm _ _
  have hlexical : p.scanner.diagnostics.toList.filter Diagnostic.isSemantic = [] := by
    refine List.filter_eq_nil_iff.mpr fun d hd => ?_
    simp [Diagnostic.isSemantic, h.lexical d (Array.mem_toList_iff.mp hd)]
  have hsyntactic : p.diagnostics.toList.filter Diagnostic.isSemantic = [] := by
    refine List.filter_eq_nil_iff.mpr fun d hd => ?_
    simp [Diagnostic.isSemantic, h.syntactic d (Array.mem_toList_iff.mp hd)]
  have hsemantic : p.executor.work.diagnostics.toList.filter Diagnostic.isSemantic =
      p.executor.work.diagnostics.toList := by
    refine List.filter_eq_self.mpr fun d hd => ?_
    simp [Diagnostic.isSemantic, semantic_of_sorted h d (Array.mem_toList_iff.mp hd)]
  refine (hsort.filter _).trans ?_
  rw [Array.toList_append, Array.toList_append, List.filter_append, List.filter_append, hlexical,
    hsyntactic, Executor.diagnostics, hsemantic]
  exact .refl _

/-- Up to the limit, the type errors of an outcome are all that were reported. -/
theorem ParseOutcome.points_perm {capacity : Nat} {p : ParseState} {accepted : Bool}
    (h : p.Sorted capacity) {all : List Diagnostic} (hall : p.executor.work.Reports all)
    {points : List (Code × Option Position × Option String)}
    (hpoints : all.map Diagnostic.point = points) (hfew : points.length ≤ Limits.semanticErrors) :
    (((ofState p accepted).1.diagnostics.filter Diagnostic.isSemantic).map
      Diagnostic.point).Perm points := by
  have hlength : all.length = points.length := by rw [← hpoints, List.length_map]
  have hrecorded : p.executor.work.diagnostics.toList = all := by
    rw [hall.recorded, List.take_of_length_le (by omega)]
  rw [← hpoints, ← hrecorded]
  exact (semantic_perm h).map Diagnostic.point

/-- Where the visible tokens of a source begin. -/
def startOf (tokens : List (Spanned Token)) (i : Nat) : Option Position :=
  (visibleOf tokens)[i]?.map fun t => t.span.start

/-- The places of words are those of their tokens. -/
theorem placeIn_placed (tokens : List (Spanned Token)) :
    placeIn ((visibleOf tokens).map Token.placed) = startOf tokens := by
  funext i
  rw [placeIn, startOf, List.getElem?_map, Option.map_map]
  rfl

/-- **The parser of MGol recognizes its grammar.** -/
theorem recognizes_mgol {input : Input} {lexicon : Lexicon} {session : Session}
    {options : ScanOptions} (hsound : session.registry.Sound) (o : SyntaxOptions)
    {tokens : Array (Spanned Token)}
    (hscan : (Scanner.ofInput input lexicon session options).scanAll.1 = .ok tokens) :
    Recognizes .mgol (terminalsOf tokens.toList) (.mgol o.effectiveCapacity)
      (.ofInput input lexicon session options) .mgol o := by
  rw [terminalsOf_eq]
  refine (ParseState.steady_mgol o input.failure o.effectiveCapacity).recognizes
    RuleSet.mgol_built (by decide) (Scanner.ahead_of_scanAll hscan) (by simp [Scanner.ofInput])
    (by simp [Executor.mgol]) ?_
  intro u s states hfound hitems hcapacity
  have hregistry : (Scanner.ofInput input lexicon session options).registry.Sound := hsound
  exact safe_of_startState hregistry hfound hitems hcapacity

/-- **A sentence is accepted**: where no limit is hit, the parse ends in a state without a syntax
error, and the errors that its executor has reported are the faults of a program. -/
theorem accepted_of_sentence {input : Input} {journal : Journal} {options : ScanOptions}
    {o : SyntaxOptions} {tokens : Array (Spanned Token)}
    (hscan : (Scanner.ofInput input .mgol ⟨.reserved, journal⟩ options).scanAll.1 = .ok tokens)
    (hsentence : RuleSet.mgol.Sentence (terminalsOf tokens.toList))
    (hlimit : HitsNoLimit (parse (.ofInput input .mgol ⟨.reserved, journal⟩ options) .mgol o).1) :
    ∃ (p : ParseState) (program : Program) (all : List Diagnostic),
      (parse (.ofInput input .mgol ⟨.reserved, journal⟩ options) .mgol o).1 =
        .ok (ParseOutcome.ofState p true).1 ∧
      p.Sorted o.effectiveCapacity ∧ (ParseOutcome.ofState p true).1.hasSyntaxErrors = false ∧
      program.words = wordsOf tokens.toList ∧ p.executor.work.Reports all ∧
      all.map Diagnostic.point = program.faults.map (Fault.point (startOf tokens.toList)) := by
  have hfluent : (Scanner.ofInput input .mgol ⟨.reserved, journal⟩ options).Fluent :=
    ⟨rfl, Registry.sound_reserved, Registry.plain_reserved⟩
  have hsilent : (Scanner.ofInput input .mgol ⟨.reserved, journal⟩ options).diagnostics = #[] := rfl
  have hblank : (Scanner.ofInput input .mgol ⟨.reserved, journal⟩ options).registry.typeOf =
      fun _ => .untyped := Registry.typeOf_reserved
  obtain ⟨outcome, hresult, haccepted, hclean⟩ :=
    ((recognizes_mgol Registry.sound_reserved o hscan).cleanly_iff Limits.parseMoves hlimit).mpr
      hsentence
  change (parse _ _ _).1 = _ at hresult
  generalize Scanner.ofInput input .mgol ⟨.reserved, journal⟩ options = begin at *
  unfold parse parseWith parseWithin at hresult ⊢
  rcases startState_cases begin (.mgol o.effectiveCapacity) o with
    ⟨t, s, states, hfound, _, hitems, hcapacity, hstart⟩ | ⟨e, s, _, hstart⟩
  · rw [hstart] at hresult ⊢
    simp only at hresult ⊢
    cases hrun : ParseState.run .mgol o Limits.parseMoves
        { scanner := s, states, executor := .mgol o.effectiveCapacity, lookahead := t } with
    | accepted p =>
      rw [hrun] at hresult
      obtain rfl := Except.ok.inj hresult
      -- a syntax error would show in the outcome
      have hunalarmed : ¬p.Alarmed := by
        intro halarmed
        cases (ParseOutcome.hasSyntaxErrors_of_alarmed halarmed true).symm.trans hclean
      obtain ⟨program, all, hwords, hall, hpoints⟩ := ParseState.faults_of_run
        (safe_of_startState hfluent.sound hfound hitems hcapacity)
        (ParseState.inspects_of_start hfluent hblank (Scanner.spread_of_scanAll hscan) hfound) hrun
        hunalarmed
      rw [placeIn_placed] at hpoints
      rw [List.map_map] at hwords
      exact ⟨p, program, all, rfl, (ParseState.Sorted.of_start hsilent hfound).run_accepted hrun,
        hclean, hwords.trans (wordsOf_eq_map_visibleOf _).symm, hall, hpoints⟩
    | abandoned p =>
      rw [hrun] at hresult
      obtain rfl := Except.ok.inj hresult
      cases haccepted
    | failed e p =>
      rw [hrun] at hresult
      cases hresult
  · rw [hstart] at hresult
    cases hresult

/-- Redeclarations that are reported of a name are those that were found. -/
theorem countP_redeclared_of_perm {errors : List Diagnostic} {program : Program}
    {place : Nat → Option Position}
    (h : (errors.map Diagnostic.point).Perm (program.faults.map (Fault.point place))) (x : String) :
    errors.countP (fun d => d.code = .redeclaration ∧ d.lexeme = some x) =
      program.declared.count x - 1 := by
  have hcount := h.countP_eq fun point => point.1 = .redeclaration ∧ point.2.2 = some x
  rw [List.countP_map, List.countP_map] at hcount
  rw [← program.countP_redeclared x]
  refine hcount.trans (List.countP_congr fun f _ => ?_)
  simp only [Function.comp, Fault.point, decide_eq_true_eq, Option.some.injEq]

/-- **The type errors that are reported are exactly those of the program.** If the visible tokens of
a source form a sentence and no limit is hit, they are the words of exactly one program. Unless
there are more than are recorded, the type errors of the parse are the faults of that program, each
once and in whatever order, so that a name which is declared `n` times is reported `n - 1` times. A
program is generated exactly if there are no faults. -/
theorem parse_reports_faults (input : Input) (journal : Journal) (options : ScanOptions)
    (o : SyntaxOptions) {tokens : Array (Spanned Token)}
    (hscan : (Scanner.ofInput input .mgol ⟨.reserved, journal⟩ options).scanAll.1 = .ok tokens)
    (hsentence : RuleSet.mgol.Sentence (terminalsOf tokens.toList))
    (hlimit : HitsNoLimit (parse (.ofInput input .mgol ⟨.reserved, journal⟩ options) .mgol o).1) :
    ∃ (program : Program) (outcome : ParseOutcome),
      (∀ other : Program, other.words = wordsOf tokens.toList ↔ other = program) ∧
      (parse (.ofInput input .mgol ⟨.reserved, journal⟩ options) .mgol o).1 = .ok outcome ∧
      (program.faults.length ≤ Limits.semanticErrors →
        ((outcome.diagnostics.filter Diagnostic.isSemantic).map Diagnostic.point).Perm
          (program.faults.map (Fault.point (startOf tokens.toList))) ∧
        ∀ x, (outcome.diagnostics.filter Diagnostic.isSemantic).countP
            (fun d => d.code = .redeclaration ∧ d.lexeme = some x) =
          program.declared.count x - 1) ∧
      (outcome.program.isSome = true ↔ program.faults = []) := by
  obtain ⟨p, program, all, hparse, hsorted, hclean, hwords, hall, hpoints⟩ :=
    accepted_of_sentence hscan hsentence hlimit
  have hlength : all.length = program.faults.length := by
    simpa using congrArg List.length hpoints
  refine ⟨program, _, fun other => ?_, hparse, fun hfew => ?_, ?_⟩
  · rw [← hwords]
    exact ⟨Program.eq_of_words, fun h => by rw [h]⟩
  · have hperm : (((ParseOutcome.ofState p true).1.diagnostics.filter Diagnostic.isSemantic).map
        Diagnostic.point).Perm (program.faults.map (Fault.point (startOf tokens.toList))) :=
      ParseOutcome.points_perm hsorted hall hpoints (by rwa [List.length_map])
    exact ⟨hperm, countP_redeclared_of_perm hperm⟩
  · rw [ParseOutcome.program_isSome_iff hsorted, Executor.errorCount, hall.counted, hlength,
      List.length_eq_zero_iff]
    exact ⟨fun h => h.2.2, fun h => ⟨rfl, hclean, h⟩⟩

/-- What a parser without actions accepts without a syntax error is a sentence. -/
theorem sentence_of_bare {input : Input} {lexicon : Lexicon} {session : Session}
    {options : ScanOptions} {o : SyntaxOptions} {capacity moves : Nat}
    {tokens : Array (Spanned Token)}
    (hscan : (Scanner.ofInput input lexicon session options).scanAll.1 = .ok tokens)
    (h : AcceptedCleanly (parseWithin moves (.bare capacity)
      (.ofInput input lexicon session options) .mgol o).1) :
    RuleSet.mgol.Sentence (terminalsOf tokens.toList) := by
  have hrecognizes : Recognizes .mgol (terminalsOf tokens.toList) (.bare capacity)
      (.ofInput input lexicon session options) .mgol o := by
    rw [terminalsOf_eq]
    refine (ParseState.steady_bare RuleSet.mgol_built o).recognizes RuleSet.mgol_built (by decide)
      (Scanner.ahead_of_scanAll hscan) (by simp [Scanner.ofInput]) (by simp [Executor.bare]) ?_
    intro u s states _ hitems hcapacity
    refine ⟨⟨by rw [hitems]; exact .start, rfl, ?_⟩, rfl⟩
    rw [hitems, hcapacity]
    exact o.effectiveCapacity_pos
  refine (hrecognizes.cleanly_iff moves fun e he => ?_).mp h
  obtain ⟨outcome, hresult, _⟩ := h
  cases hresult.symm.trans he

/-- A result of which something is known is not an error. -/
theorem exists_ok_of_map {ε α β : Type} {result : Except ε α} {f : α → β} {b : β}
    (h : result.toOption.map f = some b) : ∃ a, result = .ok a ∧ f a = b := by
  cases result with
  | error e => cases h
  | ok a => exact ⟨a, rfl, Option.some.inj h⟩

/-- A source is a sentence if a parser without actions accepts it cleanly. -/
theorem sentence_of_clean {bytes : List UInt8} {moves capacity : Nat}
    {tokens : Array (Spanned Token)} (hscan : tokenize bytes = .ok tokens)
    (hclean : (parseWithin moves (.bare capacity) (.ofInput ⟨bytes, none⟩) .mgol
      {}).1.toOption.map (fun o => (o.accepted, o.hasSyntaxErrors)) = some (true, false)) :
    RuleSet.mgol.Sentence (terminalsOf tokens.toList) := by
  obtain ⟨outcome, hbare, hflags⟩ := exists_ok_of_map hclean
  obtain ⟨haccepted, herrors⟩ := Prod.mk.inj hflags
  exact sentence_of_bare hscan ⟨outcome, hbare, haccepted, herrors⟩

/-- A program with type errors of every kind. -/
def mistyped : Program where
  declarations :=
    [⟨.real, [⟨"X", rfl⟩, ⟨"X", rfl⟩], by decide, by decide⟩,
      ⟨.literal, [⟨"S", rfl⟩], by decide, by decide⟩]
  main :=
    .command (.read ⟨"Q", rfl⟩)
      (.command (.assign ⟨"S", rfl⟩ (.operation (.name ⟨"S", rfl⟩) .plus (.name ⟨"S", rfl⟩)))
        (.command
          (.assign ⟨"X", rfl⟩ (.operation (.name ⟨"X", rfl⟩) .times (.number ⟨"7", rfl⟩)))
          (.conditional ⟨.name ⟨"X", rfl⟩, .greater, .name ⟨"S", rfl⟩⟩
            (.command (.assign ⟨"X", rfl⟩ (.operand (.name ⟨"S", rfl⟩))) .done) .done)))

/-- A source of that program. -/
def mistypedSource : String :=
  "inicio varinicio real X, X; literal S; varfim; leia Q; S <- S + S; X <- X * 7; "
    ++ "se (X > S) entao X <- S; fimse fim"

/-- The type errors that are reported for the source are those of the program. -/
theorem parse_reports_faults_mistyped :
    ∃ (tokens : Array (Spanned Token)) (outcome : ParseOutcome),
      tokenize (Text.encode mistypedSource) = .ok tokens ∧
      RuleSet.mgol.Sentence (terminalsOf tokens.toList) ∧
      (parse (.ofInput ⟨Text.encode mistypedSource, none⟩) .mgol {}).1 = .ok outcome ∧
      mistyped.faults = [⟨.redeclaration, 3, "X"⟩, ⟨.undeclaredIdentifier, 13, "Q"⟩,
        ⟨.literalInArithmetic, 17, "+"⟩, ⟨.typeMismatch, 23, "*"⟩, ⟨.typeMismatch, 29, ">"⟩,
        ⟨.assignmentTypeMismatch, 34, "X"⟩] ∧
      ((outcome.diagnostics.filter Diagnostic.isSemantic).map Diagnostic.point).Perm
        (mistyped.faults.map (Fault.point (startOf tokens.toList))) ∧
      outcome.program.isSome = false := by
  have hread : (tokenize (Text.encode mistypedSource)).toOption.map
      (fun tokens => wordsOf tokens.toList) = some mistyped.words := by decide +kernel
  have hgiven : (parse (.ofInput ⟨Text.encode mistypedSource, none⟩) .mgol {}).1.toOption.map
      (fun outcome => outcome.program) = some none := by decide +kernel
  have hclean : (parseWithin 200 (.bare 100) (.ofInput ⟨Text.encode mistypedSource, none⟩) .mgol
      {}).1.toOption.map (fun o => (o.accepted, o.hasSyntaxErrors)) = some (true, false) := by
    decide +kernel
  have hfaults : mistyped.faults = [⟨.redeclaration, 3, "X"⟩, ⟨.undeclaredIdentifier, 13, "Q"⟩,
      ⟨.literalInArithmetic, 17, "+"⟩, ⟨.typeMismatch, 23, "*"⟩, ⟨.typeMismatch, 29, ">"⟩,
      ⟨.assignmentTypeMismatch, 34, "X"⟩] := by decide +kernel
  obtain ⟨tokens, hscan, hwords⟩ := exists_ok_of_map hread
  obtain ⟨outcome, hparse, -⟩ := exists_ok_of_map hgiven
  have hsentence := sentence_of_clean hscan hclean
  have hlimit : HitsNoLimit (parse (.ofInput ⟨Text.encode mistypedSource, none⟩) .mgol {}).1 := by
    intro e he
    cases hparse.symm.trans he
  obtain ⟨program, outcome', hunique, hparse', hreports, hgenerated⟩ :=
    parse_reports_faults ⟨Text.encode mistypedSource, none⟩ {} {} {} hscan hsentence hlimit
  obtain rfl : mistyped = program := (hunique mistyped).mp hwords.symm
  obtain rfl : outcome = outcome' := Except.ok.inj (hparse.symm.trans hparse')
  refine ⟨tokens, outcome, hscan, hsentence, hparse, hfaults, ?_, ?_⟩
  · exact (hreports (by rw [hfaults]; decide)).1
  · rw [Bool.eq_false_iff, Ne, hgenerated, hfaults]
    nofun

end Mgol
