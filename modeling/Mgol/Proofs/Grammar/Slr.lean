import Mgol.Grammar.Slr
import Mgol.Proofs.Grammar.Collection
import Mgol.Proofs.Grammar.Grid

/-! # What the constructed tables hold

If no conflict stops the construction, then every cell holds the move that the items of its state
admit, and an error slot where they admit none.

* **`RuleSet.Admits`** — the moves that the items of a state admit on a terminal.
* **`RuleSet.get?_actions_slrTables`, `RuleSet.get?_gotos_slrTables`** — the contents of the tables.
* **`RuleSet.start_not_expected`** — the left side of the start rule is expected nowhere. -/

namespace Mgol

namespace RuleSet

variable {g : RuleSet}

/-- **The moves that the items of a state admit.** -/
inductive Admits (g : RuleSet) (q : Nat) : GrammarSymbol → Action → Prop
  | shift {a : GrammarSymbol} {j : Nat} (edge : (a, j) ∈ g.edgesAt q)
      (terminal : g.isNonterminal a = false) : Admits g q a (.shift j)
  | accept (complete : ⟨g.start, g.start.right.length⟩ ∈ g.itemsAt q) :
      Admits g q endMarker .accept
  | reduce {r : Rule} {a : GrammarSymbol} (complete : ⟨r, r.right.length⟩ ∈ g.itemsAt q)
      (other : r ≠ g.start) (follows : a ∈ g.followSets.get r.left) :
      Admits g q a (.reduce r.number)

/-! ## Edges -/

/-- What one edge writes: a shift over a terminal, a target over a nonterminal. -/
theorem addEdge_spec {q : Nat} {t t' : SlrTables} {edge : GrammarSymbol × Nat}
    (h : g.addEdge q t edge = .ok t') :
    (g.isNonterminal edge.1 = true ∧ t'.actions = t.actions ∧
        t.gotos.put? q edge.1 edge.2 = some t'.gotos) ∨
      (g.isNonterminal edge.1 = false ∧ t'.gotos = t.gotos ∧
        t.actions.set q edge.1 (.shift edge.2) = .ok t'.actions) := by
  unfold addEdge at h
  split at h
  · next hnt =>
    unfold GotoTable.set at h
    cases hput : t.gotos.put? q edge.1 edge.2 with
    | none => simp [hput] at h
    | some gotos =>
      rw [hput] at h
      obtain rfl := Except.ok.inj h
      exact .inl ⟨hnt, rfl, rfl⟩
  · next hnt =>
    cases hset : t.actions.set q edge.1 (.shift edge.2) with
    | error e => simp [hset] at h
    | ok actions =>
      rw [hset] at h
      obtain rfl := Except.ok.inj h
      exact .inr ⟨by simpa using hnt, rfl, rfl⟩

/-- What the edges of one state write into a table of moves. -/
theorem actions_foldlM_addEdge {q : Nat} {edges : List (GrammarSymbol × Nat)} {t t' : SlrTables}
    (h : edges.foldlM (g.addEdge q) t = .ok t') (p : Nat) (a : GrammarSymbol) (x : Action) :
    t'.actions.get? p a = some x ↔ t.actions.get? p a = some x ∨
      p = q ∧ g.isNonterminal a = false ∧ ∃ j, (a, j) ∈ edges ∧ x = .shift j := by
  induction edges generalizing t with
  | nil =>
    obtain rfl : t = t' := by simpa [pure, Except.pure] using h
    simp
  | cons edge edges ih =>
    obtain ⟨b, k⟩ := edge
    rw [List.foldlM_cons] at h
    cases hedge : g.addEdge q t (b, k) with
    | error e => simp [hedge, bind, Except.bind] at h
    | ok t'' =>
      rw [ih (by simpa [hedge, bind, Except.bind] using h)]
      -- an edge over a nonterminal changes no action, one over a terminal adds a shift
      rcases addEdge_spec hedge with ⟨hnt, hact, _⟩ | ⟨hnt, _, hset⟩
      · rw [hact]
        simp only [List.mem_cons, Prod.mk.injEq]
        constructor
        · rintro (hx | ⟨hp, ha, j, hj, rfl⟩)
          · exact .inl hx
          · exact .inr ⟨hp, ha, j, .inr hj, rfl⟩
        · rintro (hx | ⟨hp, ha, j, ⟨rfl, rfl⟩ | hj, rfl⟩)
          · exact .inl hx
          · simp [hnt] at ha
          · exact .inr ⟨hp, ha, j, hj, rfl⟩
      · rw [ActionTable.get?_set_iff hset]
        simp only [List.mem_cons, Prod.mk.injEq]
        constructor
        · rintro ((hx | ⟨rfl, rfl, rfl⟩) | ⟨hp, ha, j, hj, rfl⟩)
          · exact .inl hx
          · exact .inr ⟨rfl, hnt, k, .inl ⟨rfl, rfl⟩, rfl⟩
          · exact .inr ⟨hp, ha, j, .inr hj, rfl⟩
        · rintro (hx | ⟨hp, ha, j, ⟨rfl, rfl⟩ | hj, rfl⟩)
          · exact .inl (.inl hx)
          · exact .inl (.inr ⟨hp, rfl, rfl⟩)
          · exact .inr ⟨hp, ha, j, hj, rfl⟩

/-- What the edges of one state write into a table of targets. A target may be overwritten, but only
by another edge over the same symbol. -/
theorem gotos_foldlM_addEdge {q : Nat} {edges : List (GrammarSymbol × Nat)} {t t' : SlrTables}
    (h : edges.foldlM (g.addEdge q) t = .ok t') :
    t'.gotos.columns = t.gotos.columns ∧
    (∀ p a j, t'.gotos.get? p a = some j → t.gotos.get? p a = some j ∨
      p = q ∧ g.isNonterminal a = true ∧ (a, j) ∈ edges) ∧
    (∀ p a, (t.gotos.get? p a).isSome = true → (t'.gotos.get? p a).isSome = true) ∧
    ∀ a j, (a, j) ∈ edges → g.isNonterminal a = true →
      (t'.gotos.get? q a).isSome = true ∧ a ∈ t.gotos.columns := by
  induction edges generalizing t with
  | nil =>
    obtain rfl : t = t' := by simpa [pure, Except.pure] using h
    refine ⟨rfl, fun p a j hj => .inl hj, fun p a ha => ha, by simp⟩
  | cons edge edges ih =>
    obtain ⟨b, k⟩ := edge
    rw [List.foldlM_cons] at h
    cases hedge : g.addEdge q t (b, k) with
    | error e => simp [hedge, bind, Except.bind] at h
    | ok t'' =>
      obtain ⟨hcols, hsound, hkeep, htotal⟩ := ih (by simpa [hedge, bind, Except.bind] using h)
      -- an edge over a nonterminal sets its cell, one over a terminal leaves all cells alone
      rcases addEdge_spec hedge with ⟨hnt, _, hput⟩ | ⟨hnt, hgoto, _⟩
      · have hget := Grid.get?_put? hput
        obtain ⟨hcols', hmem⟩ := Grid.columns_put? hput
        refine ⟨hcols.trans hcols', fun p a j hj => ?_, fun p a ha => ?_, fun a j haj ha => ?_⟩
        · rcases hsound p a j hj with hj | ⟨rfl, ha, hj⟩
          · rw [hget] at hj
            split at hj
            · next hpa =>
              obtain ⟨rfl, rfl⟩ := hpa
              obtain rfl := Option.some.inj hj
              exact .inr ⟨rfl, hnt, by simp⟩
            · exact .inl hj
          · exact .inr ⟨rfl, ha, List.mem_cons_of_mem _ hj⟩
        · refine hkeep p a ?_
          rw [hget]
          split
          · rfl
          · exact ha
        · rcases List.mem_cons.mp haj with haj | haj
          · obtain ⟨rfl, rfl⟩ := Prod.mk.inj haj
            exact ⟨hkeep q a (by rw [hget]; simp), hmem⟩
          · rw [← hcols']
            exact htotal a j haj ha
      · rw [hgoto] at hcols hsound hkeep htotal
        refine ⟨hcols, fun p a j hj => ?_, hkeep, fun a j haj ha => ?_⟩
        · rcases hsound p a j hj with hj | ⟨rfl, ha, hj⟩
          · exact .inl hj
          · exact .inr ⟨rfl, ha, List.mem_cons_of_mem _ hj⟩
        · rcases List.mem_cons.mp haj with haj | haj
          · obtain ⟨rfl, rfl⟩ := Prod.mk.inj haj
            simp [hnt] at ha
          · exact htotal a j haj ha

/-- Of rows that are numbered from a state on, the first one belongs to that state. -/
theorem row_cons_iff {α : Type} {P : Option α → Prop} {state p : Nat} {row : α} {rows : List α} :
    (state ≤ p ∧ P (row :: rows)[p - state]?) ↔
      (p = state ∧ P (some row)) ∨ state + 1 ≤ p ∧ P rows[p - (state + 1)]? := by
  rcases Nat.lt_trichotomy p state with hlt | rfl | hgt
  · have hbelow : ¬state ≤ p ∧ ¬state + 1 ≤ p ∧ p ≠ state := by omega
    simp [hbelow]
  · simp
  · have habove : state ≤ p ∧ state + 1 ≤ p ∧ p ≠ state := by omega
    have hindex : p - state = (p - (state + 1)) + 1 := by omega
    rw [hindex, List.getElem?_cons_succ]
    simp [habove]

/-- What the edges of all states write into a table of moves. -/
theorem actions_addEdges {state : Nat} {rows : List (List (GrammarSymbol × Nat))}
    {t t' : SlrTables} (h : g.addEdges state rows t = .ok t') (p : Nat) (a : GrammarSymbol)
    (x : Action) :
    t'.actions.get? p a = some x ↔ t.actions.get? p a = some x ∨
      state ≤ p ∧ g.isNonterminal a = false ∧
        ∃ j, (a, j) ∈ rows[p - state]?.getD [] ∧ x = .shift j := by
  induction rows generalizing state t with
  | nil =>
    obtain rfl : t = t' := by simpa [addEdges] using h
    simp
  | cons edges rows ih =>
    rw [addEdges] at h
    cases hedges : edges.foldlM (g.addEdge state) t with
    | error e => simp [hedges] at h
    | ok t'' =>
      rw [ih (by simpa [hedges] using h), actions_foldlM_addEdge hedges, row_cons_iff (P := fun row =>
        g.isNonterminal a = false ∧ ∃ j, (a, j) ∈ row.getD [] ∧ x = .shift j), or_assoc]
      rfl

/-- What the edges of all states write into a table of targets. -/
theorem gotos_addEdges {state : Nat} {rows : List (List (GrammarSymbol × Nat))} {t t' : SlrTables}
    (h : g.addEdges state rows t = .ok t') :
    (∀ p a j, t'.gotos.get? p a = some j → t.gotos.get? p a = some j ∨
      state ≤ p ∧ g.isNonterminal a = true ∧ (a, j) ∈ rows[p - state]?.getD []) ∧
    (∀ p a, (t.gotos.get? p a).isSome = true → (t'.gotos.get? p a).isSome = true) ∧
    ∀ p a j, state ≤ p → (a, j) ∈ rows[p - state]?.getD [] → g.isNonterminal a = true →
      (t'.gotos.get? p a).isSome = true ∧ a ∈ t.gotos.columns := by
  induction rows generalizing state t with
  | nil =>
    obtain rfl : t = t' := by simpa [addEdges] using h
    exact ⟨fun p a j hj => .inl hj, fun p a ha => ha, by simp⟩
  | cons edges rows ih =>
    rw [addEdges] at h
    cases hedges : edges.foldlM (g.addEdge state) t with
    | error e => simp [hedges] at h
    | ok t'' =>
      obtain ⟨hcols, hsound, hkeep, htotal⟩ := gotos_foldlM_addEdge hedges
      obtain ⟨hsound', hkeep', htotal'⟩ := ih (by simpa [hedges] using h)
      refine ⟨fun p a j hj => ?_, fun p a ha => hkeep' p a (hkeep p a ha), fun p a j hp hj ha => ?_⟩
      · rw [row_cons_iff (P := fun row => g.isNonterminal a = true ∧ (a, j) ∈ row.getD [])]
        rcases hsound' p a j hj with hj | hlater
        · rcases hsound p a j hj with hj | hhere
          · exact .inl hj
          · exact .inr (.inl hhere)
        · exact .inr (.inr hlater)
      · rcases (row_cons_iff (P := fun row => (a, j) ∈ row.getD [])).mp ⟨hp, hj⟩ with
          ⟨rfl, hhere⟩ | ⟨hlt, hlater⟩
        · obtain ⟨hsome, hmem⟩ := htotal a j hhere ha
          exact ⟨hkeep' _ _ hsome, hmem⟩
        · rw [← hcols]
          exact htotal' p a j hlt hlater ha

/-! ## Reductions -/

/-- What the completion of all rows writes. An error slot is no viable move. -/
theorem completeRows_spec {follow : SymbolFamily} {policy : ErrorPolicy} {state : Nat}
    {rows : List ItemSet} {t t' : ActionTable}
    (h : g.completeRows follow policy state rows t = .ok t') (p : Nat) (a : GrammarSymbol)
    {x : Action} (hx : x.isViable = true) :
    t'.get? p a = some x ↔ t.get? p a = some x ∨
      state ≤ p ∧ ∃ kernel, rows[p - state]? = some kernel ∧
        (a, x) ∈ (g.closure kernel).flatMap (g.itemActions follow) := by
  induction rows generalizing state t with
  | nil =>
    obtain rfl : t = t' := by simpa [completeRows] using h
    simp
  | cons kernel rows ih =>
    rw [completeRows] at h
    cases hred : g.addReductions follow state kernel t with
    | error e => simp [hred] at h
    | ok t'' =>
      have hset := ActionTable.get?_foldlM_set hred p a x
      -- what fills the blanks is an error, which is no viable move
      have hfill : (t''.fillBlanks state (.error (policy state kernel).number)).get? p a = some x
          ↔ t''.get? p a = some x := by
        refine ⟨fun hget => ?_, Grid.get?_fillBlanks_of_some⟩
        rcases Grid.get?_of_fillBlanks hget with hget | rfl
        · exact hget
        · simp [Action.isViable] at hx
      rw [ih (by simpa [hred] using h), hfill, hset, row_cons_iff (P := fun row =>
        ∃ kernel, row = some kernel ∧ (a, x) ∈ (g.closure kernel).flatMap (g.itemActions follow)),
        or_assoc]
      simp

/-- The moves that the completed items of a state allow. -/
theorem mem_itemActions_iff (hg : g.Numbered) {q : Nat} {a : GrammarSymbol} {x : Action} :
    (∃ i ∈ g.itemsAt q, (a, x) ∈ g.itemActions g.followSets i) ↔
      (⟨g.start, g.start.right.length⟩ ∈ g.itemsAt q ∧ a = endMarker ∧ x = .accept) ∨
        ∃ r, ⟨r, r.right.length⟩ ∈ g.itemsAt q ∧ r ≠ g.start ∧ a ∈ g.followSets.get r.left ∧
          x = .reduce r.number := by
  constructor
  · rintro ⟨i, hi, hmem⟩
    have hof := of_itemsAt hg hi
    unfold itemActions at hmem
    split at hmem
    · simp at hmem
    · next hdot =>
      -- the dot stands at the end
      have hcomplete : i = ⟨i.rule, i.rule.right.length⟩ := by
        have := hof.dot_le
        cases i
        simp only [Item.mk.injEq, true_and] at this hdot ⊢
        omega
      split at hmem
      · next hnum =>
        -- rules are told apart by their numbers, so this one is the start rule
        have hstart : i.rule = g.start := hg.eq_of_number hof.rule_mem start_mem_rules hnum
        obtain ⟨rfl, rfl⟩ := Prod.mk.inj (List.mem_singleton.mp hmem)
        rw [hcomplete, hstart] at hi
        exact .inl ⟨hi, rfl, rfl⟩
      · next hnum =>
        obtain ⟨b, hb, hbx⟩ := List.mem_map.mp hmem
        obtain ⟨rfl, rfl⟩ := Prod.mk.inj hbx
        rw [hcomplete] at hi
        exact .inr ⟨i.rule, hi, fun h => hnum (by rw [h]), hb, rfl⟩
  · rintro (⟨hi, rfl, rfl⟩ | ⟨r, hi, hne, ha, rfl⟩)
    · exact ⟨_, hi, by simp [itemActions]⟩
    · refine ⟨_, hi, ?_⟩
      have hnum : r.number ≠ g.start.number := fun h =>
        hne (hg.eq_of_number (of_itemsAt hg hi).rule_mem start_mem_rules h)
      simpa [itemActions, hnum] using ha

/-! ## The tables -/

/-- How tables come about: edges first, then the completed rows. -/
theorem slrTables_eq_ok {policy : ErrorPolicy} {t : SlrTables} (h : g.slrTables policy = .ok t) :
    ∃ edged : SlrTables,
      g.addEdges 0 g.collection.edges.toList
        ⟨.blank g.actionColumns g.collection.kernels.size,
          .blank g.gotoColumns g.collection.kernels.size⟩ = .ok edged ∧
      g.completeRows g.followSets policy 0 g.collection.kernels.toList edged.actions
        = .ok t.actions ∧ t.gotos = edged.gotos := by
  unfold slrTables at h
  dsimp only at h
  split at h
  · exact absurd h (by simp)
  · next edged hedged =>
    split at h
    · exact absurd h (by simp)
    · next actions hactions =>
      obtain rfl := Except.ok.inj h
      exact ⟨edged, hedged, hactions, rfl⟩

/-- **The cells hold exactly the moves that are admitted.** -/
theorem get?_actions_slrTables (hg : g.Numbered) {policy : ErrorPolicy} {t : SlrTables}
    (h : g.slrTables policy = .ok t) {q : Nat} {a : GrammarSymbol} {x : Action}
    (hx : x.isViable = true) : t.actions.get? q a = some x ↔ g.Admits q a x := by
  obtain ⟨edged, hedged, hrows, _⟩ := slrTables_eq_ok h
  have hedge := actions_addEdges hedged q a x
  simp only [Grid.get?_blank, Nat.zero_le, Nat.sub_zero, true_and, false_or, reduceCtorEq] at hedge
  -- what is completed at a state are the items of its closure
  have hitems : (∃ kernel, g.collection.kernels.toList[q]? = some kernel ∧
      (a, x) ∈ (g.closure kernel).flatMap (g.itemActions g.followSets)) ↔
      ∃ i ∈ g.itemsAt q, (a, x) ∈ g.itemActions g.followSets i := by
    unfold itemsAt
    cases g.collection.kernels.toList[q]? with
    | none => simp
    | some kernel => simp [List.mem_flatMap]
  rw [completeRows_spec hrows q a hx, hedge]
  simp only [Nat.zero_le, Nat.sub_zero, true_and]
  rw [hitems, mem_itemActions_iff hg]
  constructor
  · rintro (⟨hnt, j, hj, rfl⟩ | ⟨hi, rfl, rfl⟩ | ⟨r, hi, hne, ha, rfl⟩)
    · exact .shift hj hnt
    · exact .accept hi
    · exact .reduce hi hne ha
  · intro hadmits
    cases hadmits with
    | shift hj hnt => exact .inl ⟨hnt, _, hj, rfl⟩
    | accept hi => exact .inr (.inl ⟨hi, rfl, rfl⟩)
    | reduce hi hne ha => exact .inr (.inr ⟨_, hi, hne, ha, rfl⟩)

/-- **The targets are exactly the edges over nonterminals.** -/
theorem get?_gotos_slrTables (hg : g.Numbered) {policy : ErrorPolicy} {t : SlrTables}
    (h : g.slrTables policy = .ok t) {q j : Nat} {a : GrammarSymbol} :
    t.gotos.get? q a = some j ↔ (a, j) ∈ g.edgesAt q ∧ g.isNonterminal a = true := by
  obtain ⟨edged, hedged, _, hgotos⟩ := slrTables_eq_ok h
  obtain ⟨hsound, _, htotal⟩ := gotos_addEdges hedged
  have sound : ∀ k, t.gotos.get? q a = some k →
      (a, k) ∈ g.edgesAt q ∧ g.isNonterminal a = true := by
    intro k hk
    rw [hgotos] at hk
    rcases hsound q a k hk with hk | ⟨_, ha, hk⟩
    · simp at hk
    · exact ⟨by simpa [edgesAt] using hk, ha⟩
  refine ⟨sound j, ?_⟩
  rintro ⟨hj, ha⟩
  obtain ⟨hsome, _⟩ := htotal q a j (Nat.zero_le _) (by simpa [edgesAt] using hj) ha
  rw [← hgotos] at hsome
  obtain ⟨k, hk⟩ := Option.isSome_iff_exists.mp hsome
  rw [hk, edge_unique hg (sound k hk).1 hj]

/-- **The left side of the start rule is expected nowhere**: it has no column to go to. -/
theorem start_not_expected (hg : g.Numbered) {policy : ErrorPolicy} {t : SlrTables}
    (h : g.slrTables policy = .ok t) {q : Nat} {i : Item} (hi : i ∈ g.itemsAt q) :
    i.next? ≠ some g.start.left := by
  intro hnext
  obtain ⟨edged, hedged, _, _⟩ := slrTables_eq_ok h
  obtain ⟨_, _, htotal⟩ := gotos_addEdges hedged
  obtain ⟨j, hj⟩ := exists_edge_of_next? hg hi hnext
  obtain ⟨_, hmem⟩ := htotal q g.start.left j (Nat.zero_le _) (by simpa [edgesAt] using hj)
    (isNonterminal_left start_mem_rules)
  simp [Grid.blank, gotoColumns] at hmem

end RuleSet

end Mgol
