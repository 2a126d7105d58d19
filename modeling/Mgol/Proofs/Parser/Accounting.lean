import Mgol.Proofs.Compiler.Gates
import Mgol.Proofs.Scanner.History

/-! # The books of a parse

With any tables, every token that the scanner hands out during a parse is accounted for: it is
shifted, dropped, passed over as a comment or an error, or the last lookahead. Recoveries are paid
for by the tokens that are shifted and dropped: a recovery either drops a token, or is the first one
from its lookahead.

* **`ParseState.Balanced`** — the counters of the parser against the tokens handed out, with the
  recoveries that are paid for in advance.
* **`ParseState.Balanced.step`** — every move keeps the books.
* **`parse_accounts_for_tokens`** — the counters and the diagnostics of an outcome agree. -/

namespace Mgol

namespace ParseState

/-! ## Errors and recoveries -/

/-- What an alarm counts and reports: one error, unless the lookahead was reported just now. -/
theorem alarmed_counts (p : ParseState) (tables : DecisionTables) (q : Nat) (slot : Option Nat) :
    let found := if p.repeated then 0 else 1
    (p.alarmed tables q slot).metrics =
        { p.metrics with errors := p.metrics.errors + found } ∧
      (p.alarmed tables q slot).diagnostics.size = p.diagnostics.size + found ∧
      (p.alarmed tables q slot).repeated = true := by
  unfold alarmed
  by_cases hrepeated : p.repeated = true
  · rw [if_pos hrepeated, if_pos hrepeated]
    exact ⟨rfl, rfl, decide_eq_true rfl⟩
  · rw [if_neg hrepeated, if_neg hrepeated]
    exact ⟨rfl, Array.size_push _, decide_eq_true rfl⟩

/-- What is counted where a recovery goes on. -/
theorem resynchronize?_counts {p p' : ParseState} {tables : DecisionTables} {n : Nat}
    (h : p.resynchronize? tables n = some p') :
    p'.metrics = { p.metrics with recoveries := p.metrics.recoveries + 1 } ∧
      p'.diagnostics = p.diagnostics ∧ p'.repeated = p.repeated := by
  unfold resynchronize? at h
  split at h
  · cases h
  · obtain rfl := Option.some.inj h
    exact ⟨rfl, rfl, rfl⟩

/-! ## The invariant -/

/-- **The books of a parse balance.** The tokens handed out that the grammar can see are those
shifted, those dropped and the lookahead; every syntax error counted is reported; and shifts and
drops pay for two recoveries each, of which `credit` are still to come. -/
structure Balanced (begin : Scanner) (credit : Nat) (p : ParseState) : Prop where
  actions_eq : p.executor.actions = mgolActions
  fetched : ∃ tokens, begin.HandsOut tokens p.scanner ∧
    tokens.countP (fun t => !t.kind.isIgnorable) = p.metrics.shifts + p.metrics.discarded + 1
  reported : p.diagnostics.size = p.metrics.errors
  paid : p.metrics.recoveries + credit ≤ 2 * (p.metrics.shifts + p.metrics.discarded) + 1

/-- One more recovery may come, unless the latest one was from the lookahead. -/
def credit (p : ParseState) : Nat := if p.repeated then 0 else 1

namespace Balanced

variable {begin : Scanner} {credit : Nat} {tables : DecisionTables} {p p' : ParseState}

/-- Credit need not be used. -/
theorem of_le (h : p.Balanced begin credit) {less : Nat} (hless : less ≤ credit) :
    p.Balanced begin less where
  actions_eq := h.actions_eq
  fetched := h.fetched
  reported := h.reported
  paid := Nat.le_trans (Nat.add_le_add_left hless _) h.paid

/-- The next token that is found is one more that the grammar can see. -/
theorem found (h : p.Balanced begin credit) {j : Journal} {t : Spanned Token} {s : Scanner}
    (hfound : (p.scanner.withJournal j).nextVisible = (.ok t, s)) :
    ∃ tokens, begin.HandsOut tokens s ∧
      tokens.countP (fun t => !t.kind.isIgnorable) =
        p.metrics.shifts + p.metrics.discarded + 2 := by
  obtain ⟨tokens, hhands, hcount⟩ := h.fetched
  obtain ⟨more, hmore, hone⟩ := (hhands.withJournal j).nextVisible hfound
  exact ⟨tokens ++ more, hmore, by rw [List.countP_append, hcount, hone]⟩

/-- An alarm keeps the books. -/
theorem alarmed (h : p.Balanced begin credit) (q : Nat) (slot : Option Nat) :
    (p.alarmed tables q slot).Balanced begin credit := by
  obtain ⟨hmetrics, hsize, _⟩ := p.alarmed_counts tables q slot
  obtain ⟨tokens, hhands, hcount⟩ := h.fetched
  obtain ⟨j, _, _, _, _, heq⟩ := p.alarmed_eq tables q slot
  refine ⟨?_, ⟨tokens, ?_, ?_⟩, ?_, ?_⟩
  · rw [heq]
    exact h.actions_eq
  · rw [heq]
    exact hhands.withJournal j
  · rw [hmetrics]
    exact hcount
  · rw [hmetrics, hsize, h.reported]
  · rw [hmetrics]
    exact h.paid

/-- A token that is dropped pays for two recoveries. -/
theorem drops (h : p.Balanced begin credit) (hd : p.Drops p') :
    p'.Balanced begin (credit + 2) := by
  cases hd with
  | drop more found =>
    obtain ⟨tokens, hhands, hcount⟩ := h.found found
    have hpaid := h.paid
    exact ⟨h.actions_eq, ⟨tokens, hhands, by simp only; omega⟩, h.reported, by simp only; omega⟩

/-- A recovery drops nothing, or it has two recoveries more to its credit. -/
theorem dropped (h : p.Balanced begin credit) (hd : Relation.ReflTransGen Drops p p') :
    p' = p ∨ p'.Balanced begin (credit + 2) := by
  induction hd with
  | refl => exact .inl rfl
  | tail _ hdrop ih =>
    rcases ih with rfl | ih
    · exact .inr (h.drops hdrop)
    · exact .inr ((ih.drops hdrop).of_le (by omega))

/-- Where a recovery goes on, its credit is used. -/
theorem resynchronized (h : p.Balanced begin (credit + 1)) {n : Nat}
    (hsync : p.resynchronize? tables n = some p') : p'.Balanced begin credit := by
  obtain ⟨hmetrics, hdiagnostics, _⟩ := resynchronize?_counts hsync
  obtain ⟨j, _, _, _, heq⟩ := resynchronize?_eq hsync
  obtain ⟨tokens, hhands, hcount⟩ := h.fetched
  have hpaid := h.paid
  refine ⟨?_, ⟨tokens, ?_, ?_⟩, ?_, ?_⟩
  · rw [heq]
    exact h.actions_eq
  · rw [heq]
    exact hhands.withJournal j
  · rw [hmetrics]
    exact hcount
  · rw [hmetrics, hdiagnostics]
    exact h.reported
  · rw [hmetrics]
    simp only
    omega

/-- **A recovery that goes on keeps the books.** The first one from a lookahead may keep it; any
other has to drop it. -/
theorem recovered (h : p.Balanced begin p.credit) {q : Nat} {slot : Option Nat}
    (hrecover : (p.alarmed tables q slot).recover tables p.repeated = .resumed p') :
    p'.Balanced begin p'.credit := by
  obtain ⟨hany, hdiscard⟩ := recover_effect tables (p.alarmed tables q slot) p.repeated
  rw [hrecover] at hany hdiscard
  have halarmed : (p.alarmed tables q slot).Balanced begin p.credit := h.alarmed q slot
  have hone : ∀ p : ParseState, p.credit ≤ 1 := by
    intro p
    unfold ParseState.credit
    split <;> omega
  cases hrepeated : p.repeated with
  | false =>
    have hcredit : p.credit = 1 := by simp [ParseState.credit, hrepeated]
    rw [hcredit] at halarmed
    cases hany with
    | resumed dropped synchronized =>
      rcases halarmed.dropped dropped with rfl | hpaid
      · -- the lookahead is kept, so the next recovery from it will not be the first one
        have hkept : p'.credit = 0 := by
          rw [ParseState.credit, (resynchronize?_counts synchronized).2.2,
            (p.alarmed_counts tables q slot).2.2, if_pos rfl]
        rw [hkept]
        exact halarmed.resynchronized synchronized
      · exact (hpaid.resynchronized synchronized).of_le (Nat.le_trans (hone p') (by omega))
  | true =>
    rcases hdiscard hrepeated with hexhausted | ⟨q', hdrops, hrest⟩ | ⟨_, _, hfailed⟩
    · cases hexhausted
    · have hpaid := halarmed.drops hdrops
      cases hrest with
      | @resumed q'' _ _ dropped synchronized =>
        have hpaid' : q''.Balanced begin (p.credit + 2) := by
          rcases hpaid.dropped dropped with rfl | hmore
          · exact hpaid
          · exact hmore.of_le (by omega)
        exact (hpaid'.resynchronized synchronized).of_le (Nat.le_trans (hone p') (by omega))
    · cases hfailed

/-- **Every move keeps the books.** -/
theorem step (h : p.Balanced begin p.credit) {o : SyntaxOptions}
    (hstep : p.step tables o = .next p') : p'.Balanced begin p'.credit := by
  have heffect := step_effect tables o p
  rw [hstep] at heffect
  have hpaid := h.paid
  cases heffect with
  | shift items cell pushed found kept =>
    obtain ⟨tokens, hhands, hcount⟩ := h.found found
    refine ⟨h.actions_eq, ⟨tokens, hhands, by simp only; omega⟩, h.reported, ?_⟩
    change p.metrics.recoveries + 1 ≤ 2 * (p.metrics.shifts + 1 + p.metrics.discarded) + 1
    omega
  | @reduce q n below r states j executor session items cell rule reduced run =>
    obtain ⟨hactions, c, hwords, _, hregistry⟩ :=
      Executor.routine_reduce ActionContext.routine_sameWords h.actions_eq r
        p.lookahead.span.start ⟨p.scanner.registry, j⟩
    rw [run] at hactions hregistry
    obtain ⟨tokens, hhands, hcount⟩ := h.fetched
    refine ⟨hactions, ⟨tokens, .lend hhands ?_, hcount⟩, h.reported, hpaid⟩
    rw [hregistry]
    exact hwords
  | resumed items cell recovered => exact h.recovered recovered

/-- A parse that is abandoned says so, and nothing else has changed. -/
theorem abandoned (h : p.Balanced begin p.credit) {o : SyntaxOptions}
    (hstep : p.step tables o = .abandoned p') :
    ∃ (q : ParseState) (at_ : Position), q.Balanced begin 0 ∧ p' = q.reportFailure at_ := by
  have heffect := step_effect tables o p
  rw [hstep] at heffect
  cases heffect with
  | @abandoned q below slot p'' items cell recovered =>
    have hrecover := (recover_effect tables (p.alarmed tables q slot) p.repeated).1
    rw [recovered] at hrecover
    cases hrecover with
    | exhausted dropped =>
      refine ⟨p'', _, ?_, rfl⟩
      rcases (h.alarmed q slot).dropped dropped with rfl | hmore
      · exact (h.alarmed q slot).of_le (Nat.zero_le _)
      · exact hmore.of_le (Nat.zero_le _)

/-- At the beginning the lookahead is the only token that the grammar can see. -/
theorem of_start {scanner s : Scanner} {t : Spanned Token} (found : scanner.nextVisible = (.ok t, s))
    (capacity : Nat) (states : Stack Nat) :
    let p : ParseState := { scanner := s, states, executor := .mgol capacity, lookahead := t }
    p.Balanced scanner p.credit := by
  have hstart : scanner.HandsOut [] scanner := .start
  obtain ⟨tokens, hhands, hcount⟩ := hstart.nextVisible found
  exact ⟨rfl, ⟨tokens, hhands, hcount⟩, rfl, Nat.le_refl _⟩

end Balanced

end ParseState

/-! ## Outcomes -/

/-- Diagnostics that are all of one kind are counted under it, and under no other. -/
theorem countP_of_kind {ds : List Diagnostic} {kind : DiagnosticKind}
    (h : ∀ d ∈ ds, d.kind = kind) (counted : DiagnosticKind) :
    ds.countP (·.kind = counted) = if kind = counted then ds.length else 0 := by
  by_cases heq : kind = counted
  · rw [if_pos heq, List.countP_eq_length]
    exact fun d hd => decide_eq_true ((h d hd).trans heq)
  · rw [if_neg heq, List.countP_eq_zero]
    exact fun d hd => by simpa [h d hd] using heq

/-- Diagnostics are counted by the part of the compiler that reported them. -/
theorem ParseOutcome.countP_diagnostics {capacity : Nat} {p : ParseState} (h : p.Sorted capacity)
    (accepted : Bool) :
    (ofState p accepted).1.diagnostics.countP Diagnostic.isLexical = p.scanner.diagnostics.size ∧
      (ofState p accepted).1.diagnostics.countP Diagnostic.isSyntactic = p.diagnostics.size := by
  have hperm : (ofState p accepted).1.diagnostics.Perm
      (p.scanner.diagnostics.toList ++ p.diagnostics.toList ++
        p.executor.work.diagnostics.toList) := by
    rw [← Array.toList_append, ← Array.toList_append]
    exact List.mergeSort_perm _ _
  -- of the three lists one is counted whole, and the others not at all
  have hcount : ∀ kind : DiagnosticKind,
      (ofState p accepted).1.diagnostics.countP (·.kind = kind) =
        (if .lexical = kind then p.scanner.diagnostics.toList.length else 0) +
          (if .syntactic = kind then p.diagnostics.toList.length else 0) +
          if .semantic = kind then p.executor.work.diagnostics.toList.length else 0 := by
    intro kind
    rw [hperm.countP_eq, List.countP_append, List.countP_append,
      countP_of_kind (fun d hd => h.lexical d (Array.mem_toList_iff.mp hd)),
      countP_of_kind (fun d hd => h.syntactic d (Array.mem_toList_iff.mp hd)),
      countP_of_kind (fun d hd => semantic_of_sorted h d (Array.mem_toList_iff.mp hd))]
  exact ⟨hcount .lexical, (hcount .syntactic).trans (Nat.zero_add _)⟩

/-- **Where the outcome of a parse comes from**: a state with balanced books, which is abandoned
with one more diagnostic if it was not accepted. -/
theorem balanced_of_parse {scanner : Scanner} (hscanner : scanner.diagnostics = #[])
    {moves : Nat} {tables : DecisionTables} {o : SyntaxOptions} {outcome : ParseOutcome}
    (h : (parseWithin moves (.mgol o.effectiveCapacity) scanner tables o).1 = .ok outcome) :
    ∃ (p q : ParseState) (accepted : Bool), p.Sorted o.effectiveCapacity ∧
      outcome = (ParseOutcome.ofState p accepted).1 ∧ q.Balanced scanner 0 ∧
      (accepted = true ∧ p = q ∨ accepted = false ∧ ∃ at_, p = q.reportFailure at_) := by
  unfold parseWithin at h
  rcases startState_cases scanner (.mgol o.effectiveCapacity) o with
    ⟨t, s, states, hfound, _, _, _, hstart⟩ | ⟨e, s, _, hstart⟩
  · rw [hstart] at h
    simp only at h
    obtain ⟨q, ⟨hsorted, hbalanced⟩, hended⟩ := ParseState.run_induction tables o
      (fun p => p.Sorted o.effectiveCapacity ∧ p.Balanced scanner p.credit)
      (fun p p' hp hstep => ⟨hp.1.step hstep, hp.2.step hstep⟩) moves
      ⟨.of_start hscanner hfound, .of_start hfound o.effectiveCapacity states⟩
    generalize ParseState.run tables o moves _ = ended at h hended
    cases hended with
    | unfinished => cases h
    | accepted last =>
      obtain rfl := ParseState.eq_of_accepted last
      exact ⟨_, _, true, hsorted, (Except.ok.inj h).symm, hbalanced.of_le (Nat.zero_le _),
        .inl ⟨rfl, rfl⟩⟩
    | abandoned last =>
      obtain ⟨q', at_, hbalanced', rfl⟩ := hbalanced.abandoned last
      exact ⟨_, q', false, hsorted.abandoned last, (Except.ok.inj h).symm, hbalanced',
        .inr ⟨rfl, at_, rfl⟩⟩
    | failed last => cases h
  · rw [hstart] at h
    cases h

/-- **Tokens are accounted for.** Whatever the tables, the options and the bound on its moves are,
be it the limit or another, a parse of MGol that has an outcome has counted the tokens that its
scanner handed out: they were shifted, dropped, passed over as comments or as errors, or are the
last lookahead. Counted by class they add up to all of them. Lexical diagnostics are as many as
error tokens, and syntax diagnostics as many as syntax errors, with one more if the parser gave up.
There are at most two recoveries for a token that the grammar can see. -/
theorem parse_accounts_for_tokens {input : Input} {journal : Journal} {options : ScanOptions}
    {moves : Nat} {tables : DecisionTables} {o : SyntaxOptions} {outcome : ParseOutcome}
    (h : (parseWithin moves (.mgol o.effectiveCapacity)
      (.ofInput input .mgol ⟨.reserved, journal⟩ options) tables o).1 = .ok outcome) :
    ∃ fetched : List Token,
      (∃ s, (Scanner.ofInput input .mgol ⟨.reserved, journal⟩ options).HandsOut fetched s ∧
        outcome.lexical = s.metrics) ∧
      outcome.lexical = LexicalMetrics.recordAll {} options.detailedMetrics fetched ∧
      outcome.lexical.tokens = outcome.syntactic.shifts + outcome.syntactic.discarded +
        outcome.lexical.comments + outcome.lexical.errors + 1 ∧
      (options.detailedMetrics = true →
        (outcome.lexical.byClass.map Prod.snd).sum = outcome.lexical.tokens) ∧
      outcome.diagnostics.countP Diagnostic.isLexical = outcome.lexical.errors ∧
      outcome.diagnostics.countP Diagnostic.isSyntactic =
        outcome.syntactic.errors + (if outcome.recoveryFailed then 1 else 0) ∧
      outcome.syntactic.recoveries ≤ 2 * fetched.countP (fun t => !t.kind.isIgnorable) := by
  have hfluent := Scanner.fluent_ofInput input journal options
  obtain ⟨p, q, accepted, hsorted, rfl, hbalanced, hend⟩ := balanced_of_parse rfl h
  obtain ⟨fetched, hhands, hvisible⟩ := hbalanced.fetched
  -- giving up adds a diagnostic and a note, and changes no counter
  have hkept : p.scanner.metrics = q.scanner.metrics ∧
      p.scanner.diagnostics = q.scanner.diagnostics ∧ p.metrics = q.metrics ∧
      p.diagnostics.size = q.diagnostics.size + if accepted then 0 else 1 := by
    rcases hend with ⟨rfl, rfl⟩ | ⟨rfl, at_, rfl⟩
    · exact ⟨rfl, rfl, rfl, rfl⟩
    · exact ⟨rfl, rfl, rfl, Array.size_push _⟩
  obtain ⟨hlexical, hfound, hsyntactic, hsize⟩ := hkept
  have hmetrics : p.scanner.metrics =
      LexicalMetrics.recordAll {} options.detailedMetrics fetched :=
    hlexical.trans (hhands.metrics_eq hfluent).2
  obtain ⟨htokens, hcomments, herrors⟩ :=
    LexicalMetrics.counts_recordAll {} options.detailedMetrics fetched
  rw [← hmetrics] at htokens hcomments herrors
  have hkinds := length_eq_countP_kinds fetched
  have hreported := hhands.size_diagnostics hfluent
  obtain ⟨hlexicals, hsyntaxes⟩ := ParseOutcome.countP_diagnostics hsorted accepted
  have hpaid := hbalanced.paid
  refine ⟨fetched, ⟨q.scanner, hhands, hlexical⟩, hmetrics, ?_, ?_, ?_, ?_, ?_⟩
  · change p.scanner.metrics.tokens = p.metrics.shifts + p.metrics.discarded +
      p.scanner.metrics.comments + p.scanner.metrics.errors + 1
    rw [htokens, hcomments, herrors, hsyntactic]
    simp only
    omega
  · intro hdetailed
    change (p.scanner.metrics.byClass.map Prod.snd).sum = p.scanner.metrics.tokens
    rw [htokens, hmetrics, hdetailed, LexicalMetrics.sum_recordAll]
    rfl
  · rw [hlexicals, hfound, hreported]
    exact herrors.symm
  · rw [hsyntaxes, hsize, hbalanced.reported]
    change _ = p.metrics.errors + if !accepted then 1 else 0
    rw [hsyntactic]
    cases accepted <;> rfl
  · change p.metrics.recoveries ≤ _
    rw [hsyntactic, hvisible]
    omega

/-- A program with a stray character and a comment in which the parser recovers once and then finds
no end. -/
def brokenSource : String := "inicio varinicio varfim; escreva ) @ 1; \x7bc\x7d )"

/-- The parser recovers from the first error of the program and gives up at its end, and the books
balance. -/
theorem parse_accounts_for_tokens_broken :
    ∃ outcome, (parse (.ofInput ⟨Text.encode brokenSource, none⟩) .mgol {}).1 = .ok outcome ∧
      outcome.recoveryFailed = true ∧ 0 < outcome.syntactic.recoveries ∧
      0 < outcome.syntactic.discarded ∧ outcome.lexical.comments = 1 ∧
      outcome.lexical.errors = 1 ∧
      outcome.lexical.tokens = outcome.syntactic.shifts + outcome.syntactic.discarded +
        outcome.lexical.comments + outcome.lexical.errors + 1 ∧
      (outcome.lexical.byClass.map Prod.snd).sum = outcome.lexical.tokens ∧
      outcome.diagnostics.countP Diagnostic.isSyntactic = outcome.syntactic.errors + 1 := by
  have hgiven : (parse (.ofInput ⟨Text.encode brokenSource, none⟩) .mgol {}).1.toOption.map
      (fun o => (o.recoveryFailed, o.syntactic.recoveries, o.syntactic.discarded,
        o.lexical.comments, o.lexical.errors)) = some (true, 1, 2, 1, 1) := by
    decide +kernel
  cases hparse : (parse (.ofInput ⟨Text.encode brokenSource, none⟩) .mgol {}).1 with
  | error e =>
    rw [hparse] at hgiven
    cases hgiven
  | ok outcome =>
    rw [hparse] at hgiven
    simp only [Except.toOption, Option.map_some, Option.some.injEq, Prod.mk.injEq] at hgiven
    obtain ⟨hfailed, hrecoveries, hdiscarded, hcomments, herrors⟩ := hgiven
    obtain ⟨_, _, _, htokens, hclasses, _, hsyntaxes, _⟩ := parse_accounts_for_tokens hparse
    rw [hfailed] at hsyntaxes
    exact ⟨outcome, rfl, hfailed, by omega, by omega, hcomments, herrors, htokens, hclasses rfl,
      hsyntaxes⟩

end Mgol
