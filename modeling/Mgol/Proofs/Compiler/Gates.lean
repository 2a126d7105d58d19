import Mgol.Compiler.Basic
import Mgol.Proofs.Parser.Language
import Mgol.Proofs.Semantics.Tally

/-! # When a program is handed out

A parse keeps three lists of problems, one for each part of the compiler. With any tables, each list
holds problems of its own kind only, and the record of the executor agrees with its count; so the
gates at the end of a parse and behind it open exactly when nothing is wrong.

* **`ParseState.Sorted`, `ParseState.Sorted.step`** — problems of their own kind, after every move.
* **`ParseOutcome.program_isSome_iff`, `ParseOutcome.success_iff`** — the gates of a parse.
* **`program_gates`** — the gates of parses, compilations and executors. -/

namespace Mgol

namespace ParseState

/-- **A parse whose problems are of their own kinds**, with an executor that calls have led to. -/
structure Sorted (capacity : Nat) (p : ParseState) : Prop where
  reaches : (Executor.mgol capacity).Reaches p.executor
  lexical : ∀ d ∈ p.scanner.diagnostics, d.kind = .lexical
  syntactic : ∀ d ∈ p.diagnostics, d.kind = .syntactic

namespace Sorted

variable {capacity : Nat} {tables : DecisionTables} {p p' : ParseState}

/-- The next token that is found brings lexical errors only. -/
theorem lexical_of_found (h : p.Sorted capacity) {j : Journal} {t : Spanned Token} {s : Scanner}
    (found : (p.scanner.withJournal j).nextVisible = (.ok t, s)) :
    ∀ d ∈ s.diagnostics, d.kind = .lexical :=
  lexical_of_finds (Scanner.finds_of_nextVisible found) h.lexical

/-- An alarm adds syntax errors only. -/
theorem alarmed (h : p.Sorted capacity) (q : Nat) (slot : Option Nat) :
    (p.alarmed tables q slot).Sorted capacity := by
  obtain ⟨j, metrics, history, diagnostics, hcases, heq⟩ := p.alarmed_eq tables q slot
  rw [heq]
  refine ⟨h.reaches, h.lexical, fun d hd => ?_⟩
  rcases hcases with ⟨_, rfl⟩ | ⟨x, hx, rfl⟩
  · exact h.syntactic d hd
  · rcases Array.mem_push.mp hd with hd | rfl
    · exact h.syntactic d hd
    · exact hx

/-- Dropping tokens may bring lexical errors to light. -/
theorem dropped (h : p.Sorted capacity) (hd : Relation.ReflTransGen Drops p p') :
    p'.Sorted capacity := by
  induction hd with
  | refl => exact h
  | tail _ hdrop ih =>
    cases hdrop with
    | drop more found => exact ⟨ih.reaches, ih.lexical_of_found found, ih.syntactic⟩

/-- Where a recovery goes on, the executor was asked to cut its values. -/
theorem resynchronized (h : p.Sorted capacity) {n : Nat}
    (hsync : p.resynchronize? tables n = some p') : p'.Sorted capacity := by
  unfold resynchronize? at hsync
  split at hsync
  · cases hsync
  · next state below _ =>
    obtain rfl := Option.some.inj hsync
    exact ⟨h.reaches.after (.truncate below.length), h.lexical, h.syntactic⟩

/-- **Every move keeps problems with their kind.** -/
theorem step (h : p.Sorted capacity) {o : SyntaxOptions} (hstep : p.step tables o = .next p') :
    p'.Sorted capacity := by
  have heffect := step_effect tables o p
  rw [hstep] at heffect
  cases heffect with
  | @shift q target below states values j t s items cell pushed found kept =>
    have hreaches := h.reaches.after (.shift p.lookahead)
    simp only [Executor.after, Executor.shift, kept] at hreaches
    exact ⟨hreaches, h.lexical_of_found found, h.syntactic⟩
  | @reduce q n below r states j executor session items cell rule reduced run =>
    have hreaches :=
      h.reaches.after (.reduce r p.lookahead.span.start ⟨p.scanner.registry, j⟩)
    simp only [Executor.after, run] at hreaches
    exact ⟨hreaches, h.lexical, h.syntactic⟩
  | @resumed q below slot _ items cell recovered =>
    have hrecover := (recover_effect tables (p.alarmed tables q slot) p.repeated).1
    rw [recovered] at hrecover
    cases hrecover with
    | resumed dropped synchronized =>
      exact ((h.alarmed q slot).dropped dropped).resynchronized synchronized

/-- A parse that is abandoned says so with a syntax error. -/
theorem abandoned (h : p.Sorted capacity) {o : SyntaxOptions}
    (hstep : p.step tables o = .abandoned p') : p'.Sorted capacity := by
  have heffect := step_effect tables o p
  rw [hstep] at heffect
  cases heffect with
  | @abandoned q below slot p'' items cell recovered =>
    have hrecover := (recover_effect tables (p.alarmed tables q slot) p.repeated).1
    rw [recovered] at hrecover
    cases hrecover with
    | exhausted dropped =>
      obtain ⟨hreaches, hlexical, hsyntactic⟩ := (h.alarmed q slot).dropped dropped
      refine ⟨hreaches, hlexical, fun d hd => ?_⟩
      rcases Array.mem_push.mp hd with hd | rfl
      · exact hsyntactic d hd
      · rfl

/-- At the beginning nothing was found but by the scanner. -/
theorem of_start {scanner s : Scanner} (hscanner : scanner.diagnostics = #[]) {t : Spanned Token}
    (found : scanner.nextVisible = (.ok t, s)) {states : Stack Nat} :
    Sorted capacity { scanner := s, states, executor := .mgol capacity, lookahead := t } where
  reaches := .refl _
  lexical := lexical_of_finds (Scanner.finds_of_nextVisible found) (by simp [hscanner])
  syntactic := by simp

/-- A run that is accepted keeps problems with their kind. -/
theorem run_accepted (h : p.Sorted capacity) {o : SyntaxOptions} {n : Nat}
    (hrun : p.run tables o n = .accepted p') : p'.Sorted capacity := by
  obtain ⟨q, hq, hended⟩ := run_induction tables o (Sorted capacity)
    (fun _ _ hp hstep => hp.step hstep) n h
  rw [hrun] at hended
  cases hended with
  | accepted last =>
    obtain rfl := eq_of_accepted last
    exact hq

/-- So does a run that is abandoned. -/
theorem run_abandoned (h : p.Sorted capacity) {o : SyntaxOptions} {n : Nat}
    (hrun : p.run tables o n = .abandoned p') : p'.Sorted capacity := by
  obtain ⟨q, hq, hended⟩ := run_induction tables o (Sorted capacity)
    (fun _ _ hp hstep => hp.step hstep) n h
  rw [hrun] at hended
  cases hended with
  | abandoned last => exact hq.abandoned last

end Sorted

end ParseState

/-! ## The gates of a parse -/

namespace ParseOutcome

variable {capacity : Nat} {p : ParseState} {accepted : Bool}

/-- An outcome has lexical errors if one of its parts reported one. -/
theorem hasLexicalErrors_ofState :
    (ofState p accepted).1.hasLexicalErrors = true ↔
      ∃ x, (x ∈ p.scanner.diagnostics ∨ x ∈ p.diagnostics ∨ x ∈ p.executor.work.diagnostics) ∧
        x.kind = .lexical := by
  simp only [hasLexicalErrors, ofState, sortDiagnostics, List.any_eq_true, List.mem_mergeSort,
    Array.mem_toList_iff, Array.mem_append, Diagnostic.isLexical, decide_eq_true_eq, or_assoc,
    Executor.diagnostics]

/-- What the executor has recorded are type errors. -/
theorem semantic_of_sorted (h : p.Sorted capacity) :
    ∀ d ∈ p.executor.work.diagnostics, d.kind = .semantic := by
  obtain ⟨_, all, hall⟩ := h.reaches.reports_of_mgol
  intro d hd
  rw [← Array.mem_toList_iff, hall.recorded] at hd
  exact hall.semantic d (List.mem_of_mem_take hd)

/-- Syntax errors are those of the parser. -/
theorem hasSyntaxErrors_eq_false_iff (h : p.Sorted capacity) :
    (ofState p accepted).1.hasSyntaxErrors = false ↔ p.diagnostics = #[] := by
  rw [← Bool.not_eq_true, hasSyntaxErrors_ofState]
  constructor
  · intro hnone
    refine Array.eq_empty_iff_forall_not_mem.mpr fun d hd => ?_
    exact hnone ⟨d, .inr (.inl hd), h.syntactic d hd⟩
  · rintro hempty ⟨d, hd | hd | hd, hkind⟩
    · cases (h.lexical d hd).symm.trans hkind
    · rw [hempty] at hd
      simp at hd
    · cases (semantic_of_sorted h d hd).symm.trans hkind

/-- Lexical errors are those of the scanner. -/
theorem hasLexicalErrors_eq_false_iff (h : p.Sorted capacity) :
    (ofState p accepted).1.hasLexicalErrors = false ↔ p.scanner.diagnostics = #[] := by
  rw [← Bool.not_eq_true, hasLexicalErrors_ofState]
  constructor
  · intro hnone
    refine Array.eq_empty_iff_forall_not_mem.mpr fun d hd => ?_
    exact hnone ⟨d, .inl hd, h.lexical d hd⟩
  · rintro hempty ⟨d, hd | hd | hd, hkind⟩
    · rw [hempty] at hd
      simp at hd
    · cases (h.syntactic d hd).symm.trans hkind
    · cases (semantic_of_sorted h d hd).symm.trans hkind

/-- Nothing is recorded exactly if nothing was reported. -/
theorem recorded_eq_empty_iff (h : p.Sorted capacity) :
    p.executor.work.diagnostics = #[] ↔ p.executor.errorCount = 0 := by
  obtain ⟨_, all, hall⟩ := h.reaches.reports_of_mgol
  have hsize := hall.size_eq
  rw [← Array.size_eq_zero_iff, hsize]
  unfold Executor.errorCount Limits.semanticErrors
  omega

/-- **The first gate**: a program comes of an accepted parse without syntax errors and without type
errors, counted or recorded. -/
theorem program_isSome_iff (h : p.Sorted capacity) :
    (ofState p accepted).1.program.isSome = true ↔
      accepted = true ∧ (ofState p accepted).1.hasSyntaxErrors = false ∧
        p.executor.errorCount = 0 := by
  rw [hasSyntaxErrors_eq_false_iff h, ← Executor.program?_isSome_iff]
  change (programOf p accepted).isSome = true ↔ _
  unfold programOf
  by_cases hopen : (accepted && p.diagnostics.isEmpty) = true
  · rw [if_pos hopen]
    rw [Bool.and_eq_true, Array.isEmpty_iff] at hopen
    exact ⟨fun hsome => ⟨hopen.1, hopen.2, hsome⟩, fun hall => hall.2.2⟩
  · rw [if_neg hopen]
    refine ⟨nofun, fun hall => absurd ?_ hopen⟩
    rw [Bool.and_eq_true, Array.isEmpty_iff]
    exact ⟨hall.1, hall.2.1⟩

/-- **The second gate**: a parse is a success if it has a program and no lexical errors. -/
theorem success_iff (h : p.Sorted capacity) :
    (ofState p accepted).1.success = true ↔
      (ofState p accepted).1.program.isSome = true ∧
        (ofState p accepted).1.hasLexicalErrors = false := by
  rw [program_isSome_iff h, hasSyntaxErrors_eq_false_iff h, hasLexicalErrors_eq_false_iff h,
    ← recorded_eq_empty_iff h]
  -- sorting the problems loses none of them
  have hempty : (ofState p accepted).1.diagnostics.isEmpty = true ↔
      p.scanner.diagnostics = #[] ∧ p.diagnostics = #[] ∧ p.executor.work.diagnostics = #[] := by
    change (sortDiagnostics _).isEmpty = true ↔ _
    rw [List.isEmpty_iff, ← List.length_eq_zero_iff, sortDiagnostics, List.length_mergeSort,
      List.length_eq_zero_iff, Array.toList_eq_nil_iff, Array.append_eq_empty_iff,
      Array.append_eq_empty_iff, and_assoc]
    exact Iff.rfl
  rw [success, Bool.and_eq_true, hempty]
  change accepted = true ∧ _ ↔ _
  constructor
  · rintro ⟨haccepted, hlexical, hsyntactic, hsemantic⟩
    exact ⟨⟨haccepted, hsyntactic, hsemantic⟩, hlexical⟩
  · rintro ⟨⟨haccepted, hsyntactic, hsemantic⟩, hlexical⟩
    exact ⟨haccepted, hlexical, hsyntactic, hsemantic⟩

end ParseOutcome

/-- **The executor that a parse leaves** when it comes to its end within some moves. -/
def finalExecutor? (moves : Nat) (scanner : Scanner) (tables : DecisionTables)
    (o : SyntaxOptions) : Option Executor :=
  match startState scanner (.mgol o.effectiveCapacity) o.effectiveCapacity with
  | (.error _, _) => none
  | (.ok p, _) =>
    match p.run tables o moves with
    | .accepted p => some p.executor
    | .abandoned p => some p.executor
    | .failed _ _ => none

/-- **Where the outcome of a parse comes from**: a state whose problems are of their own kinds. -/
theorem sorted_of_parse {scanner : Scanner} (hscanner : scanner.diagnostics = #[])
    {moves : Nat} {tables : DecisionTables} {o : SyntaxOptions} {outcome : ParseOutcome}
    (h : (parseWithin moves (.mgol o.effectiveCapacity) scanner tables o).1 = .ok outcome) :
    ∃ p accepted, p.Sorted o.effectiveCapacity ∧ outcome = (ParseOutcome.ofState p accepted).1 ∧
      finalExecutor? moves scanner tables o = some p.executor := by
  unfold parseWithin at h
  unfold finalExecutor?
  rcases startState_cases scanner (.mgol o.effectiveCapacity) o with
    ⟨t, s, states, hfound, _, _, _, hstart⟩ | ⟨e, s, _, hstart⟩
  · rw [hstart] at h ⊢
    have hbegin : ParseState.Sorted o.effectiveCapacity
        { scanner := s, states, executor := .mgol o.effectiveCapacity, lookahead := t } :=
      .of_start hscanner hfound
    obtain ⟨q, hq, hended⟩ := ParseState.run_induction tables o
      (ParseState.Sorted o.effectiveCapacity) (fun p p' hp hstep => hp.step hstep)
      moves hbegin
    simp only at h ⊢
    generalize ParseState.run tables o moves
      { scanner := s, states, executor := .mgol o.effectiveCapacity, lookahead := t } = ended
      at h hended ⊢
    cases hended with
    | unfinished => cases h
    | accepted last =>
      obtain rfl := ParseState.eq_of_accepted last
      exact ⟨_, true, hq, (Except.ok.inj h).symm, rfl⟩
    | abandoned last => exact ⟨_, false, hq.abandoned last, (Except.ok.inj h).symm, rfl⟩
    | failed last => cases h
  · rw [hstart] at h
    cases h

/-- **Programs are handed out exactly when nothing is wrong.** With any tables and any bound on its
moves, be it the limit or another, a parse has a program if it was accepted without a syntax error
and its executor has reported no type error, and is a success if moreover there was no lexical
error. A compiler that does not emit on lexical errors hands a program out exactly on success.
Behind that, whatever an executor is asked to do, its errors are recorded up to the limit and all
counted, the count never falls, and from the first error on there is no program. -/
theorem program_gates :
    (∀ moves input lexicon session options tables o outcome,
      (parseWithin moves (.mgol o.effectiveCapacity) (.ofInput input lexicon session options)
        tables o).1 = .ok outcome →
      ∃ executor,
        finalExecutor? moves (.ofInput input lexicon session options) tables o = some executor ∧
        (Executor.mgol o.effectiveCapacity).Reaches executor ∧
        (outcome.program.isSome = true ↔ outcome.accepted = true ∧
          outcome.hasSyntaxErrors = false ∧ executor.errorCount = 0) ∧
        (outcome.success = true ↔
          outcome.program.isSome = true ∧ outcome.hasLexicalErrors = false)) ∧
    (∀ (c : Compiler) input name j result, c.preferences.output.emitOnLexicalErrors = false →
      (c.compile input name j).1 = .ok result →
      (result.program.isSome = true ↔ result.success = true)) ∧
    ∀ capacity e, (Executor.mgol capacity).Reaches e →
      e.diagnostics.size = min e.errorCount Limits.semanticErrors ∧
      ∀ e', e.Reaches e' → e.errorCount ≤ e'.errorCount ∧
        (0 < e.errorCount → e'.program? = none) := by
  refine ⟨?_, ?_, ?_⟩
  · intro moves input lexicon session options tables o outcome hparse
    obtain ⟨p, accepted, hsorted, rfl, hfinal⟩ := sorted_of_parse rfl hparse
    exact ⟨p.executor, hfinal, hsorted.reaches, ParseOutcome.program_isSome_iff hsorted,
      ParseOutcome.success_iff hsorted⟩
  · intro c input name j result hsuppress hcompile
    unfold Compiler.compile at hcompile
    cases hparse : c.parseInput input j with
    | mk parsed j' =>
      rw [hparse] at hcompile
      cases parsed with
      | error e => cases hcompile
      | ok outcome =>
        obtain rfl := Except.ok.inj hcompile
        have hok : (c.parseInput input j).1 = .ok outcome := by rw [hparse]
        obtain ⟨p, accepted, hsorted, rfl, _⟩ := sorted_of_parse rfl hok
        change (if c.wants (ParseOutcome.ofState p accepted).1 then _ else none).isSome = true ↔
          (ParseOutcome.ofState p accepted).1.success = true
        rw [ParseOutcome.success_iff hsorted, Compiler.wants, hsuppress, Bool.false_or]
        -- a program behind lexical errors is left out
        cases (ParseOutcome.ofState p accepted).1.hasLexicalErrors with
        | true => simp
        | false => simp
  · intro capacity e he
    obtain ⟨hactions, all, hall⟩ := he.reports_of_mgol
    refine ⟨hall.size_eq, fun e' he' => ?_⟩
    have hle := he'.errorCount_le hactions hall
    refine ⟨hle, fun hpos => ?_⟩
    have herrors : e'.hasErrors = true := decide_eq_true (Nat.lt_of_lt_of_le hpos hle)
    rw [Executor.program?, if_pos herrors]

/-- A source with a stray character, which is a lexical error. -/
def straySource : String := "inicio varinicio varfim; @ fim"

/-- A call that finds a name undeclared. -/
def strayCalls : List Executor.Call :=
  [.shift ⟨⟨.identifier, "A", .untyped⟩, .empty .start⟩, .reduce ⟨22, "OPRD", ["id"]⟩ .start {}]

/-- A stray character leaves the program but spoils the success, so a compiler that does not emit on
lexical errors hands nothing out; and an executor that has met an undeclared name has no program
even after its values were dropped. -/
theorem program_gates_stray :
    (∃ outcome, (parse (.ofInput ⟨Text.encode straySource, none⟩) .mgol {}).1 = .ok outcome ∧
      outcome.program.isSome = true ∧ outcome.success = false) ∧
    (∃ result,
      (Compiler.compileText { preferences := { output := { emitOnLexicalErrors := false } } }
        straySource {}).1 = .ok result ∧
      result.success = false ∧ result.program.isSome = false) ∧
    ((((Executor.mgol 4).afterAll strayCalls).after (.truncate 0)).program? = none) := by
  obtain ⟨hparses, hcompiles, hexecutors⟩ := program_gates
  have hgiven : (parse (.ofInput ⟨Text.encode straySource, none⟩) .mgol {}).1.toOption.map
      (fun o => (o.program.isSome, o.hasLexicalErrors)) = some (true, true) := by decide +kernel
  have hfailed : (Compiler.compileText
      { preferences := { output := { emitOnLexicalErrors := false } } } straySource
      {}).1.toOption.map Compilation.success = some false := by decide +kernel
  refine ⟨?_, ?_, ?_⟩
  · cases hparse : (parse (.ofInput ⟨Text.encode straySource, none⟩) .mgol {}).1 with
    | error e =>
      rw [hparse] at hgiven
      cases hgiven
    | ok outcome =>
      rw [hparse] at hgiven
      obtain ⟨hprogram, hlexical⟩ := Prod.mk.inj (Option.some.inj hgiven)
      obtain ⟨_, _, _, _, hsuccess⟩ := hparses _ _ _ _ _ _ _ outcome hparse
      refine ⟨outcome, rfl, hprogram, Bool.eq_false_iff.mpr fun h => ?_⟩
      cases hlexical.symm.trans (hsuccess.mp h).2
  · cases hcompile : (Compiler.compileText
        { preferences := { output := { emitOnLexicalErrors := false } } } straySource {}).1 with
    | error e =>
      rw [hcompile] at hfailed
      cases hfailed
    | ok result =>
      rw [hcompile] at hfailed
      have hsuccess : result.success = false := Option.some.inj hfailed
      refine ⟨result, rfl, hsuccess, Bool.eq_false_iff.mpr fun h => ?_⟩
      cases hsuccess.symm.trans ((hcompiles _ _ _ _ result rfl hcompile).mp h)
  · have hreaches : (Executor.mgol 4).Reaches ((Executor.mgol 4).afterAll strayCalls) := ⟨_, rfl⟩
    have hlater := (hexecutors 4 _ hreaches).2 _ (Executor.Reaches.refl _ |>.after (.truncate 0))
    exact hlater.2 (by decide +kernel)

end Mgol
