import Mgol.Proofs.Meaning.Compiler
import Mgol.Proofs.Parser.Accounting
import Mgol.Proofs.Parser.Declarations
import Mgol.Proofs.Semantics.Parts
import Mgol.Proofs.Target.Blocks

/-! # Blocks and the heads on the stack

The depth of the generated program and the comparisons kept for the ends of loops are counted beside
the stacks, and a recovery cuts the stacks without touching them. So they may run ahead of the heads
that lie on the stack, but they never fall behind: no block is closed that was not opened, and no
loop ends without the comparison that its head has taken over.

* **`RuleSet.Path.symbols_unique`** — the symbols on the stack are those that its states spell.
* **`ActionContext.Does.level`** — what actions other than those of heads and ends do.
* **`SemanticState.Covers`, `SemanticState.Covers.reduced`** — the invariant, and that reductions
  keep it.
* **`ParseState.Nests.step`** — every move keeps it.
* **`blocks_balanced`** — blocks in a parse and in the program that it makes. -/

namespace Mgol

open Target SemanticAction

/-- **The states of a path spell one word.** -/
theorem RuleSet.Path.symbols_unique {g : RuleSet} (hg : g.Numbered) {states : List Nat}
    {symbols other : List GrammarSymbol} (h : g.Path states symbols) (h' : g.Path states other) :
    other = symbols := by
  induction h generalizing other with
  | start =>
    cases h'
    rfl
  | step path edge ih =>
    cases h' with
    | step path' edge' =>
      rw [ih path']
      -- an item before the edge comes out the same behind it, whatever symbol led there
      obtain ⟨i, hi, hnext⟩ := exists_item_of_edge hg edge
      have hmem := (mem_itemsAt_of_edge hg edge).mpr ⟨i, hi, hnext, rfl⟩
      obtain ⟨i', _, hnext', hadvance⟩ := (mem_itemsAt_of_edge hg edge').mp hmem
      obtain rfl : i' = i := by
        obtain ⟨r, dot⟩ := i
        obtain ⟨r', dot'⟩ := i'
        simpa [Item.advance] using hadvance
      rw [Option.some.inj (hnext.symm.trans hnext')]

/-! ## Actions at one depth -/

/-- **A context at the same depth**: no block was opened or closed, no loop entered or left, and
what was written is laid out. -/
structure ActionContext.Level (c c' : ActionContext) : Prop where
  depth_eq : c'.work.code.depth = c.work.code.depth
  loops_eq : c'.work.openLoops = c.work.openLoops
  laid : c.work.code.Laid → c'.work.code.Laid

namespace ActionContext

/-- Parts of actions stay at their depth. -/
theorem Part.level {r : Reduction} {c c' : ActionContext} (h : Part r c c') : c.Level c' := by
  cases h with
  | plain part =>
    cases part with
    | reported code message i lexeme =>
      obtain ⟨journal, heq⟩ := c.report_eq code message (r.positionOf i) lexeme
      rw [heq]
      exact ⟨rfl, rfl, id⟩
    | written s => exact ⟨rfl, rfl, fun hlaid => hlaid.emit s⟩
    | reserved kind => exact ⟨rfl, rfl, fun hlaid => hlaid.addTemporary kind⟩
    | kept comparison => exact ⟨rfl, rfl, id⟩
  | typed set =>
    obtain ⟨registry, -, rfl⟩ := setPendingType_eq_ok set
    exact ⟨rfl, rfl, id⟩
  | pending type names => exact ⟨rfl, rfl, id⟩

/-- **Whatever is done in parts stays at its depth.** -/
theorem Does.level {r : Reduction} {c c' : ActionContext} (h : Does r c c') : c.Level c' :=
  of_parts h (fun _ => ⟨rfl, rfl, id⟩)
    (fun h h' => ⟨h'.depth_eq.trans h.depth_eq, h'.loops_eq.trans h.loops_eq,
      fun hlaid => h'.laid (h.laid hlaid)⟩) Part.level

end ActionContext

/-- The end of a loop writes its comparison inside it, and gives it up. -/
theorem SemanticAction.leaveLoop_spec (c : ActionContext) :
    (leaveLoop c).work.code.depth = c.work.code.depth ∧
      (leaveLoop c).work.openLoops = c.work.openLoops.tail ∧
      (c.work.code.Laid → (leaveLoop c).work.code.Laid) := by
  unfold leaveLoop
  split
  · next heq => exact ⟨rfl, by rw [heq]; rfl, id⟩
  · next comparison outer heq =>
    cases comparison with
    | none => exact ⟨rfl, by rw [heq]; rfl, id⟩
    | some s => exact ⟨rfl, by rw [heq]; rfl, fun hlaid => hlaid.emit s⟩

/-! ## The invariant -/

/-- **The blocks of a program cover the heads on the stack**: it is at least as deep as there are
heads of conditionals and loops, and keeps at least as many comparisons as there are heads of loops.
Before the first recovery there are exactly as many. -/
structure SemanticState.Covers (w : SemanticState) (symbols : List GrammarSymbol)
    (recoveries : Nat) : Prop where
  laid : w.code.Laid
  depth_le : symbols.count "CAB" + symbols.count "CABR" ≤ w.code.depth
  loops_le : symbols.count "CABR" ≤ w.openLoops.length
  depth_eq : recoveries = 0 → w.code.depth = symbols.count "CAB" + symbols.count "CABR"
  loops_eq : recoveries = 0 → w.openLoops.length = symbols.count "CABR"

/-- The heads in the rules of MGol: a conditional and a loop begin with theirs, and no other rule
mentions one. -/
theorem heads_of_rule {r : Rule} (hr : r ∈ RuleSet.mgol.rules) :
    (r.number = 25 → r = ⟨25, "COND", ["CAB", "CP"]⟩) ∧
      (r.number = 26 → r = ⟨26, "CAB", ["se", "ab_p", "EXP_R", "fc_p", "entao"]⟩) ∧
      (r.number = 33 → r = ⟨33, "R", ["CABR", "CPR"]⟩) ∧
      (r.number = 34 → r = ⟨34, "CABR", ["repita", "ab_p", "EXP_R", "fc_p"]⟩) ∧
      (r.number ∉ [25, 26, 33, 34] → ∀ a ∈ r.left :: r.right, a ≠ "CAB" ∧ a ≠ "CABR") := by
  revert r
  decide

namespace SemanticState.Covers

variable {w : SemanticState} {symbols : List GrammarSymbol} {n : Nat}

/-- **What matters is the excess** of the depth over the heads, and of the comparisons over the
heads of loops. -/
theorem of_excess (h : w.Covers symbols n) {w' : SemanticState} {symbols' : List GrammarSymbol}
    (hlaid : w'.code.Laid)
    (hdepth : w'.code.depth + (symbols.count "CAB" + symbols.count "CABR") =
      w.code.depth + (symbols'.count "CAB" + symbols'.count "CABR"))
    (hloops : w'.openLoops.length + symbols.count "CABR" =
      w.openLoops.length + symbols'.count "CABR") : w'.Covers symbols' n := by
  obtain ⟨-, hdepth_le, hloops_le, hdepth_eq, hloops_eq⟩ := h
  refine ⟨hlaid, by omega, by omega, fun hzero => ?_, fun hzero => ?_⟩
  · have := hdepth_eq hzero
    omega
  · have := hloops_eq hzero
    omega

/-- A recovery takes symbols off, and blocks stay open. -/
theorem cut (h : w.Covers symbols n) (k : Nat) : w.Covers (symbols.drop k) (n + 1) where
  laid := h.laid
  depth_le := by
    have hif := (List.drop_sublist k symbols).count_le "CAB"
    have hloop := (List.drop_sublist k symbols).count_le "CABR"
    have hdepth := h.depth_le
    omega
  loops_le := ((List.drop_sublist k symbols).count_le "CABR").trans h.loops_le
  depth_eq hzero := absurd hzero (Nat.succ_ne_zero n)
  loops_eq hzero := absurd hzero (Nat.succ_ne_zero n)

/-- A symbol that is no head changes nothing. -/
theorem cons (h : w.Covers symbols n) {a : GrammarSymbol} (ha : a ≠ "CAB" ∧ a ≠ "CABR") :
    w.Covers (a :: symbols) n := by
  refine h.of_excess h.laid ?_ ?_
  · rw [List.count_cons_of_ne ha.1, List.count_cons_of_ne ha.2]
  · rw [List.count_cons_of_ne ha.2]

/-- **A reduction keeps the invariant.** -/
theorem reduced {reduction : Reduction} {c c' : ActionContext} (h : reduction.Outcome c c')
    (hr : reduction.rule ∈ RuleSet.mgol.rules) {seen : List GrammarSymbol}
    (hcovers : c.work.Covers (reduction.rule.right.reverse ++ seen) n) :
    c'.work.Covers (reduction.rule.left :: seen) n := by
  obtain ⟨hclosed, hopened, hleft, hentered, hother⟩ := heads_of_rule hr
  cases h with
  | done other does =>
    have hlevel := does.level
    -- neither side mentions a head, and the depth is the same
    have hright : ∀ a ∈ ["CAB", "CABR"], reduction.rule.right.reverse.count a = 0 := by
      intro a ha
      refine List.count_eq_zero_of_not_mem fun hmem => ?_
      have hne := hother other a (List.mem_cons_of_mem _ (List.mem_reverse.mp hmem))
      rcases List.mem_pair.mp ha with rfl | rfl
      · exact hne.1 rfl
      · exact hne.2 rfl
    have hbelow : c'.work.Covers seen n := by
      refine hcovers.of_excess (hlevel.laid hcovers.laid) ?_ ?_
      · rw [List.count_append, List.count_append, hright "CAB" (by simp),
          hright "CABR" (by simp), hlevel.depth_eq, Nat.zero_add, Nat.zero_add]
      · rw [List.count_append, hright "CABR" (by simp), hlevel.loops_eq, Nat.zero_add]
    exact hbelow.cons (hother other _ List.mem_cons_self)
  | closed number =>
    rw [hclosed number] at hcovers ⊢
    have hdepth := hcovers.depth_le
    have hopen : 0 < c.work.code.depth := by
      simp at hdepth
      omega
    refine hcovers.of_excess (hcovers.laid.closeBlock hopen) ?_ ?_
    · simp [ActionContext.closeBlock]
      omega
    · simp [ActionContext.closeBlock]
  | opened number condition =>
    rw [hopened number] at hcovers ⊢
    refine hcovers.of_excess (hcovers.laid.openBlock _) ?_ ?_
    · simp [ActionContext.openBlock]
      omega
    · simp [ActionContext.openBlock]
  | left number =>
    rw [hleft number] at hcovers ⊢
    obtain ⟨hdepth_eq, hloops_eq, hlaid⟩ := leaveLoop_spec c
    have hdepth := hcovers.depth_le
    have hloops := hcovers.loops_le
    have hopen : 0 < c.work.code.depth := by
      simp at hdepth
      omega
    refine hcovers.of_excess ((hlaid hcovers.laid).closeBlock (hdepth_eq ▸ hopen)) ?_ ?_
    · simp [ActionContext.closeBlock, hdepth_eq]
      omega
    · simp [ActionContext.closeBlock, hloops_eq] at hloops ⊢
      omega
  | entered number condition =>
    rw [hentered number] at hcovers ⊢
    refine hcovers.of_excess (hcovers.laid.openBlock _) ?_ ?_
    · simp [enterLoop, ActionContext.openBlock]
      omega
    · simp [enterLoop, ActionContext.openBlock]
      omega

end SemanticState.Covers

namespace ParseState

/-- **The invariant of blocks** over the symbols on the stack, top first. -/
structure Nests (symbols : List GrammarSymbol) (p : ParseState) : Prop where
  follows : Follows RuleSet.mgol p symbols
  actions_eq : p.executor.actions = mgolActions
  covers : p.executor.work.Covers symbols p.metrics.recoveries

namespace Nests

variable {symbols : List GrammarSymbol} {p p' : ParseState}

/-- An alarm changes nothing that matters. -/
theorem alarmed (h : p.Nests symbols) (q : Nat) (slot : Option Nat) :
    (p.alarmed .mgol q slot).Nests symbols := by
  obtain ⟨hmetrics, -⟩ := p.alarmed_counts .mgol q slot
  obtain ⟨_, _, _, _, _, heq⟩ := p.alarmed_eq .mgol q slot
  refine ⟨h.follows.alarmed q slot, ?_, ?_⟩
  · rw [heq]
    exact h.actions_eq
  · rw [hmetrics, heq]
    exact h.covers

/-- Lookaheads that are dropped are on no stack. -/
theorem dropped (h : p.Nests symbols) (hd : Relation.ReflTransGen Drops p p') :
    p'.Nests symbols := by
  induction hd with
  | refl => exact h
  | tail _ hdrop ih =>
    cases hdrop
    exact ⟨⟨ih.follows.path, ih.follows.values_length, ih.follows.within⟩, ih.actions_eq, ih.covers⟩

/-- **Cutting the stacks** leaves the blocks as they are. -/
theorem resynchronized (h : p.Nests symbols) {n : Nat}
    (hsync : p.resynchronize? .mgol n = some p') : ∃ k, p'.Nests (symbols.drop k) := by
  obtain ⟨k, _, _, _, _, hfollows⟩ := h.follows.resynchronized hsync
  obtain ⟨hmetrics, -⟩ := resynchronize?_counts hsync
  obtain ⟨_, _, _, _, heq⟩ := resynchronize?_eq hsync
  refine ⟨k, hfollows, ?_, ?_⟩
  · rw [heq]
    exact h.actions_eq
  · rw [hmetrics, heq]
    exact h.covers.cut k

/-- A terminal is no head. -/
theorem terminal_ne {q target : Nat}
    (cell : DecisionTables.mgol.action q p.terminal = some (.shift target)) :
    p.terminal ≠ "CAB" ∧ p.terminal ≠ "CABR" := by
  obtain ⟨-, hterminal⟩ := RuleSet.mgol_built.edge_of_shift cell
  have hheads : RuleSet.mgol.isNonterminal "CAB" = true ∧
      RuleSet.mgol.isNonterminal "CABR" = true := by decide
  refine ⟨fun heq => ?_, fun heq => ?_⟩
  · rw [heq, hheads.1] at hterminal
    cases hterminal
  · rw [heq, hheads.2] at hterminal
    cases hterminal

/-- **Every move keeps the invariant.** -/
theorem step (h : p.Nests symbols) {o : SyntaxOptions} (hstep : p.step .mgol o = .next p') :
    ∃ symbols', p'.Nests symbols' := by
  have heffect := step_effect .mgol o p
  rw [hstep] at heffect
  cases heffect with
  | shift items cell pushed found kept =>
    exact ⟨_, h.follows.shifted RuleSet.mgol_built items cell pushed kept rfl rfl, h.actions_eq,
      h.covers.cons (terminal_ne cell)⟩
  | reduce items cell rule reduced run =>
    obtain ⟨seen, v, c, hperformed⟩ :=
      h.follows.performed RuleSet.mgol_built items cell rule reduced run
    have hperform := hperformed.perform_eq
    rw [h.actions_eq] at hperform
    have hcovers := h.covers
    rw [hperformed.symbols_eq] at hcovers
    refine ⟨_, hperformed.follows _ rfl rfl, hperformed.actions_eq.trans h.actions_eq, ?_⟩
    simp only [hperformed.work_eq]
    exact .reduced (outcome_of_perform hperform) hperformed.rule_mem hcovers
  | @resumed q below slot _ items cell recovered =>
    have hrecover := (recover_effect .mgol (p.alarmed .mgol q slot) p.repeated).1
    rw [recovered] at hrecover
    cases hrecover with
    | resumed dropped synchronized =>
      obtain ⟨k, hnests⟩ := ((h.alarmed q slot).dropped dropped).resynchronized synchronized
      exact ⟨_, hnests⟩

/-- A parse that is given up has left its blocks as they are. -/
theorem abandoned (h : p.Nests symbols) {o : SyntaxOptions}
    (hstep : p.step .mgol o = .abandoned p') : p'.Nests symbols := by
  have heffect := step_effect .mgol o p
  rw [hstep] at heffect
  cases heffect with
  | @abandoned q below slot last items cell recovered =>
    have hrecover := (recover_effect .mgol (p.alarmed .mgol q slot) p.repeated).1
    rw [recovered] at hrecover
    cases hrecover with
    | exhausted dropped =>
      obtain ⟨hfollows, hactions, hcovers⟩ := (h.alarmed q slot).dropped dropped
      exact ⟨⟨hfollows.path, hfollows.values_length, hfollows.within⟩, hactions, hcovers⟩

/-- The invariant holds in every state that a parse comes to. -/
theorem configuration (h : p.Nests symbols) {o : SyntaxOptions}
    (hp : Configuration .mgol o p p') : ∃ symbols', p'.Nests symbols' := by
  refine hp.keeps (fun p' => ∃ symbols', p'.Nests symbols') ?_ ?_ ?_
  · exact ⟨symbols, h⟩
  · rintro _ _ ⟨_, hnests⟩ hmove
    exact hnests.step hmove
  · rintro _ _ ⟨symbols', hnests⟩ hlast
    exact ⟨symbols', hnests.abandoned hlast⟩

/-- **A block is closed only where its head lies on the stack**, so there is one to be closed; and
where a loop ends, there is a comparison for it. -/
theorem closing (h : p.Nests symbols) {r : Rule} (hreduces : p.ReducesBy r) :
    (r.number = 25 ∨ r.number = 33 → 0 < p.executor.work.code.depth) ∧
      (r.number = 33 → p.executor.work.openLoops ≠ []) := by
  obtain ⟨q, below, n, items, cell, rule⟩ := hreduces
  obtain ⟨r', hr, hrule, _, _, _, seen, _, rfl, _⟩ :=
    h.follows.reduced RuleSet.mgol_built items cell
  obtain rfl : r' = r := Except.ok.inj (hrule.symm.trans rule)
  obtain ⟨hconditional, -, hloop, -⟩ := heads_of_rule hr
  have hdepth := h.covers.depth_le
  have hloops := h.covers.loops_le
  refine ⟨?_, fun hnumber hnone => ?_⟩
  · rintro (hnumber | hnumber)
    · rw [hconditional hnumber] at hdepth
      simp at hdepth
      omega
    · rw [hloop hnumber] at hdepth
      simp at hdepth
      omega
  · rw [hloop hnumber, hnone] at hloops
    simp at hloops

end Nests

end ParseState

/-- The invariant holds when a parse of MGol begins. -/
theorem nests_of_startState {scanner : Scanner} {o : SyntaxOptions} {p₀ : ParseState} {j : Journal}
    (hstart : startState scanner (.mgol o.effectiveCapacity) o.effectiveCapacity = (.ok p₀, j)) :
    p₀.Nests [] := by
  obtain ⟨t, s, states, -, hitems, hcapacity, rfl⟩ := eq_of_startState hstart
  exact
    { follows :=
        { path := by rw [hitems]; exact .start
          values_length := rfl
          within := by rw [hitems, hcapacity]; exact o.effectiveCapacity_pos }
      actions_eq := rfl
      covers := ⟨⟨⟨[], rfl, rfl⟩, rfl⟩, Nat.le_refl _, Nat.le_refl _, fun _ => rfl, fun _ => rfl⟩ }

/-- **The lines of a program that a parse of MGol makes are nested**, as they are read from its
text. -/
theorem nested_of_parse {input : Input} {journal j : Journal} {options : ScanOptions}
    {o : SyntaxOptions} {outcome : ParseOutcome} {text : String}
    (hparse : parse (.ofInput input .mgol ⟨.reserved, journal⟩ options) .mgol o = (.ok outcome, j))
    (hprogram : outcome.program = some text) :
    ∃ lines, programLines? text = some lines ∧ Nested 0 lines := by
  obtain ⟨p, j', p', hstart, hrun, hsilent, hclean, htext⟩ := accepted_of_parse hparse hprogram
  -- the lines are laid out, whatever happened on the way
  have hlaid : p'.executor.work.code.Laid := by
    obtain ⟨q, ⟨symbols, hnests⟩, hended⟩ := ParseState.run_induction .mgol o
      (fun p => ∃ symbols, p.Nests symbols) (fun _ _ ⟨_, hnests⟩ hstep => hnests.step hstep)
      Limits.parseMoves ⟨[], nests_of_startState hstart⟩
    rw [hrun] at hended
    cases hended with
    | accepted last =>
      obtain rfl := ParseState.eq_of_accepted last
      exact hnests.covers.laid
  have hfluent := Scanner.fluent_ofInput input journal options
  obtain ⟨t, s, states, hfound, hitems, hcapacity, rfl⟩ := eq_of_startState hstart
  -- and they are those of the program that was read
  obtain ⟨program, hahead, hdeclared, hlines⟩ := ParseState.program_of_run
    (safe_of_startState hfluent.sound hfound hitems hcapacity)
    (ParseState.composes_of_start hfluent Registry.typeOf_reserved hfound) hrun hsilent hclean
  have hlines : p'.executor.work.code.lines.toList.map Line.body = program.lines := hlines
  refine ⟨p'.executor.work.code.allLines, ?_, (Nested.of_declarationLines 0 _).append ?_⟩
  · rw [← htext]
    exact program.programLines?_of_lines_eq hlines hdeclared hfluent hahead
  · rw [hlaid.lines_eq, hlines]
    exact program.nested_lines

/-- **Blocks are balanced, and loops compute their own conditions anew.**

Take any parse with the tables of MGol, with or without syntax errors. In every state that it comes
to, the program is at least as deep as there are heads of conditionals and loops among the symbols
that its states spell, and it keeps at least as many comparisons as there are heads of loops; as
long as nothing was recovered from, exactly as many. So no block is closed at depth zero, and the
depth is that of the blocks which were opened and not closed.

Every program that a parse of MGol makes can be read as C, line by line, and the lines stand in
blocks: each with one tab and one more for every block around it, each head with its own brace, and
each loop with the statement that computes its condition before it and at its end. -/
theorem blocks_balanced (o : SyntaxOptions) :
    (∀ scanner p₀ j, startState scanner (.mgol o.effectiveCapacity) o.effectiveCapacity =
        (.ok p₀, j) →
      (∀ p, ParseState.Configuration .mgol o p₀ p →
        ∃ symbols, (∀ other, RuleSet.mgol.Path p.states.items other ↔ other = symbols) ∧
          symbols.count "CAB" + symbols.count "CABR" ≤ p.executor.work.code.depth ∧
          symbols.count "CABR" ≤ p.executor.work.openLoops.length ∧
          (p.metrics.recoveries = 0 →
            p.executor.work.code.depth = symbols.count "CAB" + symbols.count "CABR" ∧
            p.executor.work.openLoops.length = symbols.count "CABR") ∧
          p.executor.work.code.depth + p.executor.work.code.lines.toList.countP Line.closes =
            p.executor.work.code.lines.toList.countP Line.opens) ∧
      ∀ p, Relation.ReflTransGen (fun p p' => p.step .mgol o = .next p') p₀ p →
        ∀ r, p.ReducesBy r →
          (r.number = 25 ∨ r.number = 33 → 0 < p.executor.work.code.depth) ∧
          (r.number = 33 → p.executor.work.openLoops ≠ [])) ∧
    ∀ input journal options outcome j text,
      parse (.ofInput input .mgol ⟨.reserved, journal⟩ options) .mgol o = (.ok outcome, j) →
      outcome.program = some text →
      ∃ lines, programLines? text = some lines ∧ InBlocks 0 lines := by
  refine ⟨fun scanner p₀ j hstart => ⟨fun p hp => ?_, fun p hmoves r hreduces => ?_⟩, ?_⟩
  · obtain ⟨symbols, hnests⟩ := (nests_of_startState hstart).configuration hp
    refine ⟨symbols, fun other => ⟨fun hother => ?_, fun heq => ?_⟩, hnests.covers.depth_le,
      hnests.covers.loops_le, fun hzero => ⟨hnests.covers.depth_eq hzero,
        hnests.covers.loops_eq hzero⟩, hnests.covers.laid.even⟩
    · exact hnests.follows.path.symbols_unique RuleSet.mgol_numbered hother
    · rw [heq]
      exact hnests.follows.path
  · obtain ⟨symbols, hnests⟩ := (nests_of_startState hstart).configuration (.reached hmoves)
    exact hnests.closing hreduces
  · intro input journal options outcome j text hparse hprogram
    obtain ⟨lines, hread, hnested⟩ := nested_of_parse hparse hprogram
    exact ⟨lines, hread, hnested.inBlocks⟩

/-- A program with a conditional in a loop. -/
def conditionalInLoop : String :=
  "inicio varinicio inteiro A; varfim; leia A; repita (A > 0) se (A <> 2) entao escreva A; fimse "
    ++ "A <- A - 1; fimrepita fim"

/-- How deep the lines of its program stand: three temporaries, the variable, the lines up to the
head of the loop, and the loop with the conditional inside. -/
def conditionalInLoopDepths : List Nat := [0, 0, 0, 0, 0, 0, 0, 1, 1, 2, 1, 1, 1, 1, 0]

/-- Its parse begins, its blocks are balanced on the way, and it makes a program in blocks. -/
theorem blocks_balanced_conditionalInLoop :
    (∃ p₀ j, startState (.ofInput ⟨Text.encode conditionalInLoop, none⟩)
        (.mgol (SyntaxOptions.effectiveCapacity {})) (SyntaxOptions.effectiveCapacity {}) =
          (.ok p₀, j) ∧
      ∀ p, ParseState.Configuration .mgol {} p₀ p → ∃ symbols,
        RuleSet.mgol.Path p.states.items symbols ∧
        symbols.count "CAB" + symbols.count "CABR" ≤ p.executor.work.code.depth) ∧
    ∃ text lines,
      (parse (.ofInput ⟨Text.encode conditionalInLoop, none⟩) .mgol {}).1.toOption.bind
        ParseOutcome.program = some text ∧
      programLines? text = some lines ∧ lines.map Line.depth = conditionalInLoopDepths ∧
      InBlocks 0 lines := by
  have hok : (startState (.ofInput ⟨Text.encode conditionalInLoop, none⟩)
      (.mgol (SyntaxOptions.effectiveCapacity {})) (SyntaxOptions.effectiveCapacity
        {})).1.toOption.isSome = true := by decide +kernel
  have hdepths : (((parse (.ofInput ⟨Text.encode conditionalInLoop, none⟩) .mgol {}).1.toOption.bind
      ParseOutcome.program).bind programLines?).map (fun lines => lines.map Line.depth) =
        some conditionalInLoopDepths := by decide +kernel
  obtain ⟨hparses, hprograms⟩ := blocks_balanced {}
  refine ⟨?_, ?_⟩
  · obtain ⟨p₀, hstarted⟩ := Option.isSome_iff_exists.mp hok
    obtain ⟨j, hstart⟩ := exists_start hstarted
    refine ⟨p₀, j, hstart, fun p hp => ?_⟩
    obtain ⟨symbols, hspells, hdepth, -⟩ := (hparses _ p₀ j hstart).1 p hp
    exact ⟨symbols, (hspells symbols).mpr rfl, hdepth⟩
  · obtain ⟨lines, hlines, heq⟩ := Option.map_eq_some_iff.mp hdepths
    obtain ⟨text, htext, hread⟩ := Option.bind_eq_some_iff.mp hlines
    refine ⟨text, lines, htext, hread, heq, ?_⟩
    rcases hparse : parse (.ofInput ⟨Text.encode conditionalInLoop, none⟩) .mgol {} with
      ⟨⟨e⟩ | ⟨outcome⟩, j⟩
    · rw [hparse] at htext
      cases htext
    · rw [hparse] at htext
      obtain ⟨lines', hread', hblocks⟩ := hprograms _ _ _ outcome j text hparse htext
      rw [hread] at hread'
      rw [Option.some.inj hread']
      exact hblocks

end Mgol
