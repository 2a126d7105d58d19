import Mgol.Proofs.Compiler.Gates
import Mgol.Proofs.Scanner.Twins

/-! # Layout

Comments, separators and characters that no word begins with do not change what is parsed. Two
sources with the same visible tokens are parsed side by side: every move does the same in both, and
what it reports stands in places of the same rank.

* **`ParseState.Alike`** — states of two parses that have come equally far.
* **`ParseState.Alike.step`, `ParseState.Alike.run`** — a move, and a run, in both.
* **`ParseOutcome.filter_sortDiagnostics`, `ParseOutcome.sortDiagnostics_alike`** — reports in the
  order of the source.
* **`parse_ignores_layout`** — sources with the same visible tokens have the same parse. -/

namespace Mgol

variable {R : Position → Position → Prop}

/-! ## States side by side -/

/-- What an error record says apart from its place. -/
def ErrorRecord.gist (r : ErrorRecord) : Nat × Token × Category := (r.state, r.token, r.category)

/-- **Offsets of related places.** -/
def OffsetsOf (R : Position → Position → Prop) (n m : Nat) : Prop :=
  ∃ p q : Position, R p q ∧ n = p.offset ∧ m = q.offset

/-- **States of two parses that have come equally far**, with everything in related places. -/
structure ParseState.Alike (R : Position → Position → Prop) (p p' : ParseState) : Prop where
  scanner : p.scanner.Twins R p'.scanner
  states_eq : p'.states = p.states
  executor : p.executor.Alike R p'.executor
  lookahead : p.lookahead.Alike R p'.lookahead
  trigger : Option.Rel (OffsetsOf R) p.trigger p'.trigger
  metrics_eq : p'.metrics = p.metrics
  diagnostics : List.Forall₂ (Diagnostic.Alike R) p.diagnostics.toList p'.diagnostics.toList
  history_eq : p'.history.map ErrorRecord.gist = p.history.map ErrorRecord.gist

/-- A search for the next token that hit the limit. -/
def SyntaxError.IsTokenLimit (e : SyntaxError) : Prop := ∃ n, e = .lexical (.tokenLimit n)

/-- **Recoveries that end in the same way**, unless one of them hits the limit. -/
inductive Recovery.Alike (R : Position → Position → Prop) : Recovery → Recovery → Prop
  | first {e : SyntaxError} {p : ParseState} {r : Recovery} (limit : e.IsTokenLimit) :
      Alike R (.failed e p) r
  | second {e : SyntaxError} {p : ParseState} {r : Recovery} (limit : e.IsTokenLimit) :
      Alike R r (.failed e p)
  | resumed {p p' : ParseState} (alike : p.Alike R p') : Alike R (.resumed p) (.resumed p')
  | exhausted {p p' : ParseState} (alike : p.Alike R p') : Alike R (.exhausted p) (.exhausted p')

/-- **Moves that lead to the same**, unless one of them hits the limit. -/
inductive StepResult.Alike (R : Position → Position → Prop) : StepResult → StepResult → Prop
  | first {e : SyntaxError} {p : ParseState} {r : StepResult} (limit : e.IsTokenLimit) :
      Alike R (.failed e p) r
  | second {e : SyntaxError} {p : ParseState} {r : StepResult} (limit : e.IsTokenLimit) :
      Alike R r (.failed e p)
  | next {p p' : ParseState} (alike : p.Alike R p') : Alike R (.next p) (.next p')
  | accepted {p p' : ParseState} (alike : p.Alike R p') : Alike R (.accepted p) (.accepted p')
  | abandoned {p p' : ParseState} (alike : p.Alike R p') : Alike R (.abandoned p) (.abandoned p')
  | failed {e : SyntaxError} {p p' : ParseState} : Alike R (.failed e p) (.failed e p')

/-- **Parses that end in the same way**, unless one of them hits the limit. -/
inductive ParseEnd.Alike (R : Position → Position → Prop) : ParseEnd → ParseEnd → Prop
  | first {e : SyntaxError} {p : ParseState} {r : ParseEnd} (limit : e.IsTokenLimit) :
      Alike R (.failed e p) r
  | second {e : SyntaxError} {p : ParseState} {r : ParseEnd} (limit : e.IsTokenLimit) :
      Alike R r (.failed e p)
  | accepted {p p' : ParseState} (alike : p.Alike R p') : Alike R (.accepted p) (.accepted p')
  | abandoned {p p' : ParseState} (alike : p.Alike R p') : Alike R (.abandoned p) (.abandoned p')
  | failed {e : SyntaxError} {p p' : ParseState} : Alike R (.failed e p) (.failed e p')

namespace ParseState.Alike

variable {p p' : ParseState}

/-- Notes may differ. -/
theorem note (h : p.Alike R p') (n n' : Note) : (p.note n).Alike R (p'.note n') :=
  { h with scanner := h.scanner.withSession h.scanner.registry_eq h.scanner.plain }

/-- A move is noted in both or in none. -/
theorem trace (h : p.Alike R p') (o : SyntaxOptions) (move : String) (state : Nat) :
    (p.trace o move state).Alike R (p'.trace o move state) := by
  unfold ParseState.trace
  split_ifs
  · exact h.note _ _
  · exact h

/-- The same is reported at related places. -/
theorem diagnose (h : p.Alike R p') {d e : Diagnostic} (hde : d.Alike R e) :
    (p.diagnose d).Alike R (p'.diagnose e) := by
  refine { h with diagnostics := ?_ }
  simp only [ParseState.diagnose, Array.toList_push]
  exact List.rel_append h.diagnostics (.cons hde .nil)

/-- The same is remembered of an error. -/
theorem map_gist_remember {history history' : Array ErrorRecord}
    (h : history'.map ErrorRecord.gist = history.map ErrorRecord.gist) {r r' : ErrorRecord}
    (hr : r'.gist = r.gist) :
    (ParseState.remember history' r').map ErrorRecord.gist =
      (ParseState.remember history r).map ErrorRecord.gist := by
  have hsize : history'.size = history.size := by
    simpa using congrArg Array.size h
  simp only [ParseState.remember, Array.map_extract, Array.map_push, h, hr, Array.size_push, hsize]

/-- Counts and records may change in both. -/
theorem withRecord (h : p.Alike R p') {metrics metrics' : SyntaxMetrics}
    {history history' : Array ErrorRecord} (hmetrics : metrics' = metrics)
    (hhistory : history'.map ErrorRecord.gist = history.map ErrorRecord.gist) :
    ParseState.Alike R { p with history, metrics }
      { p' with history := history', metrics := metrics' } :=
  { h with metrics_eq := hmetrics, history_eq := hhistory }

/-- **A syntax error is reported** in both. -/
theorem report (h : p.Alike R p') (tables : DecisionTables) (state : Nat) (slot : Option Nat) :
    (p.report tables state slot).Alike R (p'.report tables state slot) := by
  obtain ⟨hvalue, hstart⟩ := h.lookahead
  have hnoted : ∀ n n' d e, Diagnostic.Alike R d e →
      ((p.note n).diagnose d).Alike R ((p'.note n').diagnose e) :=
    fun n n' d e hde => (h.note n n').diagnose hde
  unfold ParseState.report
  simp only [hvalue]
  refine withRecord (hnoted _ _ _ _ ⟨hstart, rfl⟩) ?_ ?_
  · simp only [ParseState.note, ParseState.diagnose, h.metrics_eq]
  · exact map_gist_remember h.history_eq rfl

/-- Reports that nothing was found to go on with. -/
theorem reportFailure (h : p.Alike R p') {q q' : Position} (hq : R q q') :
    (p.reportFailure q).Alike R (p'.reportFailure q') :=
  (h.note _ _).diagnose ⟨hq, rfl⟩

/-- An error repeats in both or in none: the guard compares offsets, and their order is kept. -/
theorem repeated_eq (hR : KeepsOrder R) (h : p.Alike R p') : p'.repeated = p.repeated := by
  unfold ParseState.repeated
  have htrigger := h.trigger
  generalize p.trigger = trigger, p'.trigger = trigger' at htrigger
  cases htrigger with
  | none => simp
  | some hoffsets =>
    obtain ⟨q, q', hq, rfl, rfl⟩ := hoffsets
    simp only [Option.some.injEq]
    rw [decide_eq_decide]
    exact (hR.offset_eq_iff hq h.lookahead.2).symm

/-- Both are alarmed by an error on the lookahead. -/
theorem alarmed (hR : KeepsOrder R) (h : p.Alike R p') (tables : DecisionTables) (state : Nat)
    (slot : Option Nat) : (p.alarmed tables state slot).Alike R (p'.alarmed tables state slot) := by
  have htrigger : Option.Rel (OffsetsOf R) (some p.lookahead.span.start.offset)
      (some p'.lookahead.span.start.offset) := .some ⟨_, _, h.lookahead.2, rfl, rfl⟩
  have hreported : ParseState.Alike R (if p.repeated then p else p.report tables state slot)
      (if p.repeated then p' else p'.report tables state slot) := by
    split_ifs
    · exact h
    · exact h.report tables state slot
  unfold ParseState.alarmed
  rw [h.repeated_eq hR]
  exact { hreported with trigger := htrigger }

/-! ## Recoveries side by side -/

/-- **The same lookahead is fetched** in related places, unless one of them hits the limit. -/
theorem fetch (h : p.Alike R p') :
    (∃ e q, p.fetch = (.error e, q) ∧ e.IsTokenLimit) ∨
      (∃ e q, p'.fetch = (.error e, q) ∧ e.IsTokenLimit) ∨
      ∃ t t' q q', p.fetch = (.ok t, q) ∧ p'.fetch = (.ok t', q') ∧ q.Alike R q' := by
  unfold ParseState.fetch
  rcases h.scanner.nextVisible with ⟨n, u, hu⟩ | ⟨n, u, hu⟩ | ⟨t, t', u, u', hu, hu', ht, htwins⟩
  · simp only [hu]
    exact .inl ⟨_, _, rfl, n, rfl⟩
  · simp only [hu]
    exact .inr (.inl ⟨_, _, rfl, n, rfl⟩)
  · simp only [hu, hu']
    exact .inr (.inr ⟨t, t', _, _, rfl, rfl, { h with scanner := htwins, lookahead := ht }⟩)

/-- The lookahead is dropped in both. -/
theorem dropLookahead (h : p.Alike R p') : p.dropLookahead.Alike R p'.dropLookahead :=
  { h.note _ _ with
    metrics_eq := by simp only [ParseState.dropLookahead, ParseState.note, h.metrics_eq] }

/-- The lookaheads are the same token. -/
theorem lookahead_eq (h : p.Alike R p') : p'.lookahead.value = p.lookahead.value := h.lookahead.1

/-- **The stacks are cut in both** or in none. -/
theorem resynchronize? (h : p.Alike R p') (tables : DecisionTables) (n : Nat) :
    Option.Rel (ParseState.Alike R) (p.resynchronize? tables n) (p'.resynchronize? tables n) := by
  unfold ParseState.resynchronize?
  rw [h.lookahead_eq, h.states_eq]
  cases viableStates tables p.lookahead.value.terminalName p.states.items with
  | nil => exact .none
  | cons state below =>
    refine .some (note ?_ _ _)
    exact
      { h with
        states_eq := rfl
        executor := h.executor.truncate below.length
        metrics_eq := by simp only [h.metrics_eq] }

/-- **A recovery goes on behind the lookahead** in both, unless one of them hits the limit. -/
theorem next (h : p.Alike R p') {goOn : ParseState → Recovery}
    (hgoOn : ∀ {q q' : ParseState}, q.Alike R q' → (goOn q).Alike R (goOn q')) :
    Recovery.Alike R
      (match p.dropLookahead.fetch with
        | (.error e, q) => .failed e q
        | (.ok _, q) => goOn q)
      (match p'.dropLookahead.fetch with
        | (.error e, q) => .failed e q
        | (.ok _, q) => goOn q) := by
  rcases h.dropLookahead.fetch with ⟨e, q, hq, he⟩ | ⟨e, q, hq, he⟩ |
    ⟨t, t', q, q', hq, hq', halike⟩
  · rw [hq]
    exact .first he
  · rw [hq]
    exact .second he
  · rw [hq, hq']
    exact hgoOn halike

/-- **A search for a lookahead to go on with** ends in the same way. -/
theorem search (h : p.Alike R p') (tables : DecisionTables) (budget : Nat) :
    (ParseState.search tables budget p).Alike R (ParseState.search tables budget p') := by
  induction budget generalizing p p' with
  | zero =>
    unfold ParseState.search
    have hsync := h.resynchronize? tables Limits.recoveryScans
    generalize p.resynchronize? tables Limits.recoveryScans = found,
      p'.resynchronize? tables Limits.recoveryScans = found' at hsync
    cases hsync with
    | none => exact .exhausted h
    | some halike => exact .resumed halike
  | succ budget ih =>
    unfold ParseState.search
    have hsync := h.resynchronize? tables (Limits.recoveryScans - (budget + 1))
    generalize p.resynchronize? tables (Limits.recoveryScans - (budget + 1)) = found,
      p'.resynchronize? tables (Limits.recoveryScans - (budget + 1)) = found' at hsync
    cases hsync with
    | some halike => exact .resumed halike
    | none =>
      simp only [h.lookahead_eq]
      split_ifs
      · exact .exhausted h
      · exact h.next fun halike => ih halike

/-- **A recovery** ends in the same way. -/
theorem recover (h : p.Alike R p') (tables : DecisionTables) (discard : Bool) :
    (p.recover tables discard).Alike R (p'.recover tables discard) := by
  unfold ParseState.recover
  rw [h.lookahead_eq]
  split_ifs
  · exact .exhausted h
  · exact h.next fun halike => halike.search tables _
  · exact h.search tables _

/-! ## Moves side by side -/

/-- **An error on the lookahead** leads to the same. -/
theorem handleError (hR : KeepsOrder R) (h : p.Alike R p') (tables : DecisionTables) (state : Nat)
    (slot : Option Nat) :
    (p.handleError tables state slot).Alike R (p'.handleError tables state slot) := by
  rw [handleError_eq, handleError_eq, h.repeated_eq hR]
  have hrecover := (h.alarmed hR tables state slot).recover tables p.repeated
  generalize (p.alarmed tables state slot).recover tables p.repeated = r,
    (p'.alarmed tables state slot).recover tables p.repeated = r' at hrecover
  cases hrecover with
  | first limit => exact .first limit
  | second limit => exact .second limit
  | resumed alike => exact .next alike
  | exhausted alike => exact .abandoned (alike.reportFailure h.lookahead.2)

/-- **A shift** leads to the same. -/
theorem shift (h : p.Alike R p') (target : Nat) : (p.shift target).Alike R (p'.shift target) := by
  unfold ParseState.shift
  rw [h.states_eq]
  cases p.states.push target with
  | error e => exact .failed
  | ok states =>
    have hpushed : ParseState.Alike R { p with states } { p' with states } :=
      { h with states_eq := rfl }
    simp only
    rcases hpushed.fetch with ⟨e, q, hq, he⟩ | ⟨e, q, hq, he⟩ | ⟨t, t', q, q', hq, hq', halike⟩
    · rw [hq]
      exact .first he
    · rw [hq]
      exact .second he
    · rw [hq, hq']
      simp only [finishShift]
      rcases halike.executor.shift h.lookahead with ⟨e, he, he'⟩ | ⟨d, d', hd, hd', hexecutor⟩
      · rw [he, he']
        exact .failed
      · rw [hd, hd']
        exact .next
          { halike with
            executor := hexecutor
            trigger := .none
            metrics_eq := by simp only [halike.metrics_eq] }

/-- **A reduction** leads to the same. -/
theorem reduceValues (hR : KeepsOrder R) (h : p.Alike R p') (states : Stack Nat) (rule : Rule) :
    (p.reduceValues states rule).Alike R (p'.reduceValues states rule) := by
  have hregistry : p'.scanner.session.registry = p.scanner.session.registry :=
    h.scanner.registry_eq
  -- the entries change by types alone
  have hplain : (p.executor.reduce rule p.lookahead.span.start p.scanner.session).2.2.registry.Plain
      := by
    obtain ⟨-, c, hsame, -, hc⟩ := Executor.routine_reduce ActionContext.routine_sameWords
      h.executor.mgol rule p.lookahead.span.start p.scanner.session
    rw [hc]
    exact h.scanner.plain.of_sameWords hsame
  unfold ParseState.reduceValues
  simp only [Scanner.lend]
  rcases h.executor.reduce hR rule h.lookahead.2 hregistry with ⟨e, he, he'⟩ |
    ⟨hok, hok', hexecutor, hsession⟩
  · rw [he, he']
    exact .failed
  · rw [hok, hok']
    exact .next
      { h with
        scanner := h.scanner.withSession hsession hplain
        states_eq := rfl
        executor := hexecutor
        metrics_eq := by simp only [h.metrics_eq] }

/-- **A reduction by a rule number** leads to the same. -/
theorem reduce (hR : KeepsOrder R) (h : p.Alike R p') (tables : DecisionTables) (number : Nat) :
    (p.reduce tables number).Alike R (p'.reduce tables number) := by
  unfold ParseState.reduce
  rw [h.states_eq]
  cases tables.rule number with
  | error e => exact .failed
  | ok rule =>
    simp only
    cases reducedStates p.states tables rule with
    | error e => exact .failed
    | ok states => exact h.reduceValues hR states rule

/-- **Every move leads to the same**, in related places. -/
theorem step (hR : KeepsOrder R) (h : p.Alike R p') (tables : DecisionTables) (o : SyntaxOptions) :
    (p.step tables o).Alike R (p'.step tables o) := by
  unfold ParseState.step
  rw [h.states_eq, h.lookahead_eq]
  cases p.states.top? with
  | none => exact .failed
  | some state =>
    simp only
    cases tables.action state p.lookahead.value.terminalName with
    | none => exact h.handleError hR tables state none
    | some action =>
      cases action with
      | shift target => exact (h.trace o "Shift" state).shift target
      | reduce number => exact (h.trace o "Reduce" state).reduce hR tables number
      | accept => exact .accepted h
      | error slot => exact h.handleError hR tables state (some slot)

/-- **Every run ends in the same way**, in related places. -/
theorem run (hR : KeepsOrder R) (h : p.Alike R p') (tables : DecisionTables) (o : SyntaxOptions)
    (n : Nat) : (p.run tables o n).Alike R (p'.run tables o n) := by
  induction n generalizing p p' with
  | zero => exact .failed
  | succ n ih =>
    unfold ParseState.run
    have hstep := h.step hR tables o
    generalize p.step tables o = r, p'.step tables o = r' at hstep
    cases hstep with
    | first limit => exact .first limit
    | second limit => exact .second limit
    | next alike => exact ih alike
    | accepted alike => exact .accepted alike
    | abandoned alike => exact .abandoned alike
    | failed => exact .failed

end ParseState.Alike

/-! ## Reports in order -/

namespace ParseOutcome

/-- Nothing to sort. -/
@[simp] theorem sortDiagnostics_nil : sortDiagnostics [] = [] := List.mergeSort_nil

/-- The diagnostics before an offset. -/
def before (n : Nat) (ds : List Diagnostic) : List Diagnostic :=
  ds.filter fun d => d.position.offset < n

/-- The diagnostics from an offset on. -/
def beyond (n : Nat) (ds : List Diagnostic) : List Diagnostic :=
  ds.filter fun d => n ≤ d.position.offset

/-- **A diagnostic is sorted in** behind those before it and in front of all others. -/
theorem sortDiagnostics_cons (d : Diagnostic) (ds : List Diagnostic) :
    sortDiagnostics (d :: ds) = before d.position.offset (sortDiagnostics ds) ++
        d :: beyond d.position.offset (sortDiagnostics ds) ∧
      before d.position.offset (sortDiagnostics ds) ++
        beyond d.position.offset (sortDiagnostics ds) = sortDiagnostics ds := by
  have htrans : ∀ a b c : Diagnostic, decide (a.position.offset ≤ b.position.offset) = true →
      decide (b.position.offset ≤ c.position.offset) = true →
      decide (a.position.offset ≤ c.position.offset) = true := by
    intro a b c
    simp only [decide_eq_true_eq]
    exact Nat.le_trans
  have htotal : ∀ a b : Diagnostic, (decide (a.position.offset ≤ b.position.offset) ||
      decide (b.position.offset ≤ a.position.offset)) = true := by
    intro a b
    simpa using Nat.le_total _ _
  unfold sortDiagnostics
  obtain ⟨first, last, hsort, hrest, hfirst⟩ := List.mergeSort_cons htrans htotal d ds
  have hordered := List.pairwise_mergeSort htrans htotal (d :: ds)
  rw [hsort] at hordered
  simp only [Bool.not_eq_true', decide_eq_false_iff_not, Nat.not_le] at hfirst
  have hlast : ∀ e ∈ last, d.position.offset ≤ e.position.offset := fun e he =>
    of_decide_eq_true (List.rel_of_pairwise_cons (List.pairwise_append.mp hordered).2.1 he)
  -- so the offset tells the two parts apart
  have hbefore : before d.position.offset (first ++ last) = first := by
    rw [before, List.filter_append, List.filter_eq_self.mpr (by simpa using hfirst),
      List.filter_eq_nil_iff.mpr (by simpa using hlast), List.append_nil]
  have hbeyond : beyond d.position.offset (first ++ last) = last := by
    rw [beyond, List.filter_append, List.filter_eq_nil_iff.mpr (by simpa using hfirst),
      List.filter_eq_self.mpr (by simpa using hlast), List.nil_append]
  rw [hsort, hrest, hbefore, hbeyond]
  exact ⟨rfl, rfl⟩

/-- **What is left out of reports does not change the order of the others.** -/
theorem filter_sortDiagnostics (p : Diagnostic → Bool) (ds : List Diagnostic) :
    (sortDiagnostics ds).filter p = sortDiagnostics (ds.filter p) := by
  induction ds with
  | nil => simp
  | cons d ds ih =>
    have hbefore : (before d.position.offset (sortDiagnostics ds)).filter p =
        before d.position.offset (sortDiagnostics (ds.filter p)) := by
      rw [before, List.filter_comm, ih, before]
    have hbeyond : (beyond d.position.offset (sortDiagnostics ds)).filter p =
        beyond d.position.offset (sortDiagnostics (ds.filter p)) := by
      rw [beyond, List.filter_comm, ih, beyond]
    obtain ⟨hsort, hsplit⟩ := sortDiagnostics_cons d (ds.filter p)
    rw [(sortDiagnostics_cons d ds).1, List.filter_append, hbefore]
    by_cases hd : p d = true
    · rw [List.filter_cons_of_pos hd, List.filter_cons_of_pos hd, hbeyond, hsort]
    · rw [List.filter_cons_of_neg hd, List.filter_cons_of_neg hd, hbeyond, hsplit]

/-- **Reports at related places are sorted alike.** -/
theorem sortDiagnostics_alike (hR : KeepsOrder R) {ds es : List Diagnostic}
    (h : List.Forall₂ (Diagnostic.Alike R) ds es) :
    List.Forall₂ (Diagnostic.Alike R) (sortDiagnostics ds) (sortDiagnostics es) := by
  induction h with
  | nil => simp
  | @cons d e ds es hde _ ih =>
    rw [(sortDiagnostics_cons d ds).1, (sortDiagnostics_cons e es).1]
    refine List.rel_append (List.rel_filter ?_ ih) (.cons hde (List.rel_filter ?_ ih))
    · intro a b hab
      have horder := hR _ _ _ _ hde.1 hab.1
      simp only [decide_eq_true_eq]
      omega
    · intro a b hab
      simp only [decide_eq_true_eq]
      exact hR _ _ _ _ hde.1 hab.1

/-- The reports of an outcome that are not of the scanner, in their order. -/
theorem filter_ofState {capacity : Nat} {p : ParseState} (h : p.Sorted capacity)
    (accepted : Bool) :
    (ofState p accepted).1.diagnostics.filter (fun d => d.isSyntactic || d.isSemantic) =
      sortDiagnostics (p.diagnostics.toList ++ p.executor.diagnostics.toList) := by
  have hlexical : ∀ d ∈ p.scanner.diagnostics.toList,
      ¬(d.isSyntactic || d.isSemantic) = true := by
    intro d hd
    simp [Diagnostic.isSyntactic, Diagnostic.isSemantic,
      h.lexical d (Array.mem_toList_iff.mp hd)]
  have hsyntactic : ∀ d ∈ p.diagnostics.toList, (d.isSyntactic || d.isSemantic) = true := by
    intro d hd
    simp [Diagnostic.isSyntactic, h.syntactic d (Array.mem_toList_iff.mp hd)]
  have hsemantic : ∀ d ∈ p.executor.diagnostics.toList,
      (d.isSyntactic || d.isSemantic) = true := by
    intro d hd
    simp [Diagnostic.isSemantic, semantic_of_sorted h d (Array.mem_toList_iff.mp hd)]
  unfold ofState
  simp only
  rw [filter_sortDiagnostics, Array.toList_append, Array.toList_append, List.filter_append,
    List.filter_append, List.filter_eq_nil_iff.mpr hlexical, List.filter_eq_self.mpr hsyntactic,
    List.filter_eq_self.mpr hsemantic, List.nil_append]

end ParseOutcome

/-! ## Parses side by side -/

/-- What a diagnostic says apart from its place. -/
def Diagnostic.gist (d : Diagnostic) : DiagnosticKind × Code × String × Option String :=
  (d.kind, d.code, d.message, d.lexeme)

/-- **Outcomes that say the same** apart from places and from what the scanner found. -/
structure ParseOutcome.Matches (o o' : ParseOutcome) : Prop where
  accepted_eq : o'.accepted = o.accepted
  recoveryFailed_eq : o'.recoveryFailed = o.recoveryFailed
  program_eq : o'.program = o.program
  registry_eq : o'.registry = o.registry
  syntactic_eq : o'.syntactic = o.syntactic
  history_eq : o'.history.map ErrorRecord.gist = o.history.map ErrorRecord.gist
  reports_eq :
    (o'.diagnostics.filter fun d => d.isSyntactic || d.isSemantic).map Diagnostic.gist =
      (o.diagnostics.filter fun d => d.isSyntactic || d.isSemantic).map Diagnostic.gist

/-- The same reports at related places say the same. -/
theorem map_gist_of_alike {ds es : List Diagnostic}
    (h : List.Forall₂ (Diagnostic.Alike R) ds es) :
    es.map Diagnostic.gist = ds.map Diagnostic.gist := by
  induction h with
  | nil => rfl
  | cons hde _ ih =>
    rw [List.map_cons, List.map_cons, ih, hde.2]
    rfl

/-- **Parses that have come equally far say the same** when they end. -/
theorem ParseState.Alike.matches {capacity : Nat} {p p' : ParseState} (hR : KeepsOrder R)
    (h : p.Alike R p') (hp : p.Sorted capacity) (hp' : p'.Sorted capacity) (accepted : Bool) :
    (ParseOutcome.ofState p accepted).1.Matches (ParseOutcome.ofState p' accepted).1 := by
  obtain ⟨ds, hds, hwork⟩ := h.executor.work
  have hempty : p'.diagnostics.isEmpty = p.diagnostics.isEmpty := by
    have hsize : p'.diagnostics.size = p.diagnostics.size := by
      rw [← Array.length_toList, ← Array.length_toList, h.diagnostics.length_eq]
    rw [Array.isEmpty, Array.isEmpty, hsize]
  have hprogram : p'.executor.program? = p.executor.program? := by
    unfold Executor.program? Executor.hasErrors Executor.errorCount
    rw [hwork]
  have hreports : List.Forall₂ (Diagnostic.Alike R)
      (p.diagnostics.toList ++ p.executor.diagnostics.toList)
      (p'.diagnostics.toList ++ p'.executor.diagnostics.toList) := by
    refine List.rel_append h.diagnostics ?_
    rw [Executor.diagnostics, Executor.diagnostics, hwork]
    exact hds
  exact
    { accepted_eq := rfl
      recoveryFailed_eq := rfl
      program_eq := by
        change ParseOutcome.programOf p' accepted = ParseOutcome.programOf p accepted
        unfold ParseOutcome.programOf
        rw [hempty, hprogram]
      registry_eq := h.scanner.registry_eq
      syntactic_eq := h.metrics_eq
      history_eq := h.history_eq
      reports_eq := by
        rw [ParseOutcome.filter_ofState hp, ParseOutcome.filter_ofState hp']
        exact map_gist_of_alike (ParseOutcome.sortDiagnostics_alike hR hreports) }

/-- **Results of two parses**: the same error, or outcomes that say the same; or one of the parses
hit the limit of tokens. -/
inductive ResultsAgree :
    Except SyntaxError ParseOutcome → Except SyntaxError ParseOutcome → Prop
  | first {e : SyntaxError} {r : Except SyntaxError ParseOutcome} (limit : e.IsTokenLimit) :
      ResultsAgree (.error e) r
  | second {e : SyntaxError} {r : Except SyntaxError ParseOutcome} (limit : e.IsTokenLimit) :
      ResultsAgree r (.error e)
  | error {e : SyntaxError} : ResultsAgree (.error e) (.error e)
  | ok {outcome outcome' : ParseOutcome} (agree : outcome.Matches outcome') :
      ResultsAgree (.ok outcome) (.ok outcome')

/-- **Parses that have come equally far have results that agree.** -/
theorem ParseState.Alike.result {capacity : Nat} {p p' : ParseState} (hR : KeepsOrder R)
    (h : p.Alike R p') (hp : p.Sorted capacity) (hp' : p'.Sorted capacity)
    (tables : DecisionTables) (o : SyntaxOptions) (n : Nat) :
    ResultsAgree (p.run tables o n).result.1 (p'.run tables o n).result.1 := by
  have hrun := h.run hR tables o n
  generalize hended : p.run tables o n = ended, hended' : p'.run tables o n = ended' at hrun ⊢
  cases hrun with
  | first limit => exact .first limit
  | second limit => exact .second limit
  | accepted alike =>
    exact .ok (alike.matches hR (hp.run_accepted hended) (hp'.run_accepted hended') true)
  | abandoned alike =>
    exact .ok (alike.matches hR (hp.run_abandoned hended) (hp'.run_abandoned hended') false)
  | failed => exact .error

/-- **Twins have parses that agree.** -/
theorem Scanner.Twins.parseWithin {s s' : Scanner} (hR : KeepsOrder R) (h : s.Twins R s')
    (hs : s.diagnostics = #[]) (hs' : s'.diagnostics = #[]) (moves : Nat)
    (tables : DecisionTables) (o : SyntaxOptions) :
    ResultsAgree (Mgol.parseWithin moves (.mgol o.effectiveCapacity) s tables o).1
      (Mgol.parseWithin moves (.mgol o.effectiveCapacity) s' tables o).1 := by
  unfold Mgol.parseWithin startState
  cases (Stack.ofCapacity o.effectiveCapacity).push 0 with
  | error e => exact .error
  | ok states =>
    rcases h.nextVisible with ⟨n, u, hu⟩ | ⟨n, u, hu⟩ | ⟨t, t', u, u', hu, hu', ht, htwins⟩
    · simp only [hu]
      exact .first ⟨n, rfl⟩
    · simp only [hu]
      exact .second ⟨n, rfl⟩
    · simp only [hu, hu']
      have hstart : ParseState.Alike R
          { scanner := u, states, executor := .mgol o.effectiveCapacity, lookahead := t }
          { scanner := u', states, executor := .mgol o.effectiveCapacity, lookahead := t' } :=
        { scanner := htwins
          states_eq := rfl
          executor := .start R _
          lookahead := ht
          trigger := .none
          metrics_eq := rfl
          diagnostics := .nil
          history_eq := rfl }
      exact hstart.result hR (.of_start hs hu) (.of_start hs' hu') tables o _

/-- **Layout does not matter.** Take two sources that can be read, with the same tokens for the
grammar to see: class, lexeme and type. With any tables and any bound on moves, be it the limit or
another, if no parse hits the limit of tokens, both stop with the same error, or both come to their
end, and then they are accepted or given up together, with the same program, the same entries, the
same counts and records, and the same syntax and type errors in the same order. Comments, separators
and characters that no word begins with change nothing of this but places. -/
theorem parse_ignores_layout (bytes bytes' : List UInt8) (journal journal' : Journal)
    (options options' : ScanOptions) (moves : Nat) (tables : DecisionTables) (o : SyntaxOptions)
    {tokens tokens' : List (Spanned Token)}
    (h : (Scanner.ofBytes bytes journal options).Stream tokens)
    (h' : (Scanner.ofBytes bytes' journal' options').Stream tokens')
    (hseen : seenOf tokens = seenOf tokens') {result result' : Except SyntaxError ParseOutcome}
    (hresult : (parseWithin moves (.mgol o.effectiveCapacity) (.ofBytes bytes journal options)
      tables o).1 = result)
    (hresult' : (parseWithin moves (.mgol o.effectiveCapacity) (.ofBytes bytes' journal' options')
      tables o).1 = result')
    (hlimit : ∀ n, result ≠ .error (.lexical (.tokenLimit n)))
    (hlimit' : ∀ n, result' ≠ .error (.lexical (.tokenLimit n))) :
    (∃ e, result = .error e ∧ result' = .error e) ∨
      ∃ outcome outcome', result = .ok outcome ∧ result' = .ok outcome' ∧
        outcome.Matches outcome' := by
  obtain ⟨R, hR, htwins⟩ := Scanner.twins_of_streams (Scanner.fresh_ofBytes bytes journal options)
    (Scanner.fresh_ofBytes bytes' journal' options') h h' hseen
  have hagree := htwins.parseWithin hR rfl rfl moves tables o
  rw [hresult, hresult'] at hagree
  cases hagree with
  | first limit =>
    obtain ⟨n, rfl⟩ := limit
    exact absurd rfl (hlimit n)
  | second limit =>
    obtain ⟨n, rfl⟩ := limit
    exact absurd rfl (hlimit' n)
  | error => exact .inl ⟨_, rfl, rfl⟩
  | ok agree => exact .inr ⟨_, _, rfl, rfl, agree⟩

/-- A program of one assignment to a name that was not declared. -/
def tightSource : String := "inicio varinicio varfim;A<-1;fim"

/-- The same program with a comment, blanks and a stray character. -/
def looseSource : String := "inicio {x}\nvarinicio varfim ; @ A <- 1;\nfim"

/-- Both have the same outcome: accepted without a program, as the name was not declared. -/
theorem parse_ignores_layout_loose :
    ∃ outcome outcome',
      (parse (.ofBytes (Text.encode tightSource)) .mgol {}).1 = .ok outcome ∧
      (parse (.ofBytes (Text.encode looseSource)) .mgol {}).1 = .ok outcome' ∧
      outcome.accepted = true ∧ outcome.program = none ∧ outcome.Matches outcome' := by
  have hfresh := Scanner.fresh_ofBytes (Text.encode tightSource) {} {}
  have hfresh' := Scanner.fresh_ofBytes (Text.encode looseSource) {} {}
  obtain ⟨tokens, h⟩ := hfresh.exists_stream
  obtain ⟨tokens', h'⟩ := hfresh'.exists_stream
  -- the streams are what is scanned, which can be computed
  obtain ⟨found, hfound, hvalues⟩ := hfresh.scanAll_eq h (by decide +kernel)
  obtain ⟨found', hfound', hvalues'⟩ := hfresh'.scanAll_eq h' (by decide +kernel)
  have hsame :
      (Scanner.ofBytes (Text.encode tightSource)).scanAll.1.toOption.map
          (fun found => seenOf found.toList) =
        (Scanner.ofBytes (Text.encode looseSource)).scanAll.1.toOption.map
          (fun found => seenOf found.toList) := by decide +kernel
  have hseen : seenOf tokens = seenOf tokens' := by
    rw [hfound, hfound'] at hsame
    have hfounds : seenOf found.toList = seenOf found'.toList := Option.some.inj hsame
    rwa [seenOf, seenOf, hvalues, hvalues'] at hfounds
  have hok : (parse (.ofBytes (Text.encode tightSource)) .mgol {}).1.toOption.map
      (fun o => (o.accepted, o.program)) = some (true, none) := by decide +kernel
  have hok' : (parse (.ofBytes (Text.encode looseSource)) .mgol {}).1.isOk = true := by
    decide +kernel
  have hlimit : ∀ n, (parse (.ofBytes (Text.encode tightSource)) .mgol {}).1 ≠
      .error (.lexical (.tokenLimit n)) := by
    intro n hn
    rw [hn] at hok
    cases hok
  have hlimit' : ∀ n, (parse (.ofBytes (Text.encode looseSource)) .mgol {}).1 ≠
      .error (.lexical (.tokenLimit n)) := by
    intro n hn
    rw [hn] at hok'
    cases hok'
  rcases parse_ignores_layout (Text.encode tightSource) (Text.encode looseSource) {} {} {} {}
    Limits.parseMoves .mgol {} h h' hseen
    (Eq.refl (parse (.ofBytes (Text.encode tightSource)) .mgol {}).1)
    (Eq.refl (parse (.ofBytes (Text.encode looseSource)) .mgol {}).1) hlimit hlimit' with
    ⟨e, he, -⟩ | ⟨outcome, outcome', ho, ho', hmatches⟩
  · rw [he] at hok
    cases hok
  · rw [ho] at hok
    obtain ⟨haccepted, hprogram⟩ := Prod.mk.inj (Option.some.inj hok)
    exact ⟨outcome, outcome', ho, ho', haccepted, hprogram, hmatches⟩

end Mgol
