import Mgol.Proofs.Grammar.Slr

/-! # Constructed tables fit together

A construction writes into its tables nothing but rules of the grammar and states of the collection.
This is said of the cells themselves and not of what is looked up, since a column may stand twice
in a table and the check reads both.

* **`Grid.Fit`** — a grid of a given shape with a property of all that stands in it.
* **`RuleSet.fit_slrTables`** — the tables of a grammar have the shape of its collection.
* **`RuleSet.check_slrTables`** — constructed tables pass the check. -/

namespace Mgol

/-! ## Grids of a given shape -/

/-- **A grid of a given shape**, with a property of all that stands in its cells. -/
structure Grid.Fit {α : Type} (columns : List String) (states : Nat) (P : α → Prop) (g : Grid α) :
    Prop where
  columns_eq : g.columns = columns
  states_eq : g.rows.size = states
  width : ∀ row ∈ g.rows, row.size = columns.length
  cells : ∀ row ∈ g.rows, ∀ x, some x ∈ row → P x

namespace Grid.Fit

variable {α : Type} {columns : List String} {states : Nat} {P : α → Prop} {g : Grid α}

/-- In a blank grid nothing stands at all. -/
theorem blank : (Grid.blank columns states).Fit columns states P where
  columns_eq := rfl
  states_eq := Array.size_replicate
  width row hrow := by
    obtain ⟨_, rfl⟩ := Array.mem_replicate.mp hrow
    exact Array.size_replicate
  cells row hrow x hx := by
    obtain ⟨_, rfl⟩ := Array.mem_replicate.mp hrow
    exact absurd (Array.mem_replicate.mp hx).2 (by simp)

/-- An update keeps the shape, and the property if the new item has it. -/
theorem put? (h : g.Fit columns states P) {q : Nat} {a : String} {x : α} {g' : Grid α}
    (hput : g.put? q a x = some g') (hx : P x) : g'.Fit columns states P := by
  unfold Grid.put? at hput
  split at hput
  · next i row _ hrow =>
    split at hput
    · obtain rfl := Option.some.inj hput
      have hmem : row ∈ g.rows := Array.mem_of_getElem? hrow
      refine ⟨h.columns_eq, by simpa using h.states_eq, fun row' hrow' => ?_,
        fun row' hrow' y hy => ?_⟩
      · rcases Array.mem_or_eq_of_mem_setIfInBounds hrow' with hold | rfl
        · exact h.width row' hold
        · rw [Array.size_setIfInBounds]
          exact h.width row hmem
      · rcases Array.mem_or_eq_of_mem_setIfInBounds hrow' with hold | rfl
        · exact h.cells row' hold y hy
        · -- the row that was written to has one cell that is new
          rcases Array.mem_or_eq_of_mem_setIfInBounds hy with hy | hy
          · exact h.cells row hmem y hy
          · rw [Option.some.inj hy]
            exact hx
    · cases hput
  · cases hput

/-- Where the rows come from after blanks were filled. -/
theorem mem_fillBlanks {q : Nat} {x : α} {row : Array (Option α)}
    (hrow : row ∈ (g.fillBlanks q x).rows) :
    row ∈ g.rows ∨ ∃ old ∈ g.rows, row = old.map fun cell => some (cell.getD x) := by
  obtain ⟨p, hp⟩ := Array.mem_iff_getElem?.mp hrow
  simp only [Grid.fillBlanks, Array.getElem?_modify] at hp
  split at hp
  · obtain ⟨old, hold, rfl⟩ := Option.map_eq_some_iff.mp hp
    exact .inr ⟨old, Array.mem_of_getElem? hold, rfl⟩
  · exact .inl (Array.mem_of_getElem? hp)

/-- Filling blanks keeps the shape, and the property if the filling has it. -/
theorem fillBlanks (h : g.Fit columns states P) (q : Nat) {x : α} (hx : P x) :
    (g.fillBlanks q x).Fit columns states P := by
  refine ⟨h.columns_eq, by simpa [Grid.fillBlanks] using h.states_eq, fun row hrow => ?_,
    fun row hrow y hy => ?_⟩
  · rcases mem_fillBlanks hrow with hold | ⟨old, hold, rfl⟩
    · exact h.width row hold
    · rw [Array.size_map]
      exact h.width old hold
  · rcases mem_fillBlanks hrow with hold | ⟨old, hold, rfl⟩
    · exact h.cells row hold y hy
    · obtain ⟨cell, hcell, hy⟩ := Array.mem_map.mp hy
      cases cell with
      | none => rwa [← Option.some.inj hy]
      | some z =>
        rw [← Option.some.inj hy]
        exact h.cells old hold z hcell

/-- What is listed of a row stands in it. -/
theorem mem_of_mem_rowEntries {q : Nat} {names : List String} {cells : List (Option α)}
    {entry : Nat × String × α} (h : entry ∈ Grid.rowEntries q names cells) :
    some entry.2.2 ∈ cells := by
  fun_induction Grid.rowEntries q names cells with
  | case1 name names a cells ih =>
    rcases List.mem_cons.mp h with rfl | h
    · exact List.mem_cons_self
    · exact List.mem_cons_of_mem _ (ih h)
  | case2 name names cells ih => exact List.mem_cons_of_mem _ (ih h)
  | case3 => cases h

/-- What is listed of some rows stands in one of them. -/
theorem exists_row_of_mem_entriesFrom {names : List String} {q : Nat}
    {rows : List (Array (Option α))} {entry : Nat × String × α}
    (h : entry ∈ Grid.entriesFrom names q rows) : ∃ row ∈ rows, some entry.2.2 ∈ row := by
  induction rows generalizing q with
  | nil => cases h
  | cons row rows ih =>
    rcases List.mem_append.mp h with h | h
    · exact ⟨row, List.mem_cons_self, Array.mem_toList_iff.mp (mem_of_mem_rowEntries h)⟩
    · obtain ⟨row', hrow', hmem⟩ := ih h
      exact ⟨row', List.mem_cons_of_mem _ hrow', hmem⟩

/-- **Whatever is listed of a grid has the property.** -/
theorem of_mem_entries (h : g.Fit columns states P) {entry : Nat × String × α}
    (hentry : entry ∈ g.entries) : P entry.2.2 := by
  obtain ⟨row, hrow, hmem⟩ := exists_row_of_mem_entriesFrom hentry
  exact h.cells row (Array.mem_toList_iff.mp hrow) _ hmem

/-- Setting a move keeps the shape, and the property if the move has it. -/
theorem set {P : Action → Prop} {t t' : ActionTable} (h : t.Fit columns states P) {q : Nat}
    {a : GrammarSymbol} {x : Action} (hset : t.set q a x = .ok t') (hx : P x) :
    t'.Fit columns states P := by
  unfold ActionTable.set at hset
  split at hset
  · cases hset
  · split at hset
    · obtain rfl := Except.ok.inj hset
      exact h
    · cases hset
  · split at hset
    · next hput =>
      obtain rfl := Except.ok.inj hset
      exact h.put? hput hx
    · cases hset

/-- Setting several moves of a state keeps the shape. -/
theorem foldlM_set {P : Action → Prop} {q : Nat} {moves : List (GrammarSymbol × Action)}
    {t t' : ActionTable} (h : t.Fit columns states P)
    (hset : moves.foldlM (fun t (move : GrammarSymbol × Action) => t.set q move.1 move.2) t =
      .ok t') (hmoves : ∀ move ∈ moves, P move.2) : t'.Fit columns states P := by
  induction moves generalizing t with
  | nil =>
    obtain rfl : t = t' := by simpa [pure, Except.pure] using hset
    exact h
  | cons move moves ih =>
    rw [List.foldlM_cons] at hset
    cases hfirst : t.set q move.1 move.2 with
    | error e => simp [hfirst, bind, Except.bind] at hset
    | ok t'' =>
      refine ih (h.set hfirst (hmoves move List.mem_cons_self)) ?_ fun m hm =>
        hmoves m (List.mem_cons_of_mem _ hm)
      simpa [hfirst, bind, Except.bind] using hset

end Grid.Fit

/-! ## The construction -/

/-- **A move that fits a grammar with some states**: its rule, its state or its category exists. -/
def Action.Fits (g : RuleSet) (states : Nat) : Action → Prop
  | shift target => target < states
  | reduce n => (g.get? n).isSome = true
  | accept => True
  | error slot => ∃ c : Category, c.number = slot

/-- **Tables in the shape of a collection** with some states. -/
structure SlrTables.Fit (g : RuleSet) (states : Nat) (t : SlrTables) : Prop where
  actions : t.actions.Fit g.actionColumns states (Action.Fits g states)
  gotos : t.gotos.Fit g.gotoColumns states (· < states)

namespace RuleSet

variable {g : RuleSet} {states : Nat}

/-- An edge to a state that exists keeps the shape. -/
theorem fit_addEdge {q : Nat} {t t' : SlrTables} (h : t.Fit g states) {edge : GrammarSymbol × Nat}
    (hedge : g.addEdge q t edge = .ok t') (htarget : edge.2 < states) : t'.Fit g states := by
  rcases addEdge_spec hedge with ⟨_, hactions, hput⟩ | ⟨_, hgotos, hset⟩
  · exact ⟨hactions ▸ h.actions, h.gotos.put? hput htarget⟩
  · exact ⟨h.actions.set hset htarget, hgotos ▸ h.gotos⟩

/-- The edges of a state keep the shape. -/
theorem fit_foldlM_addEdge {q : Nat} {edges : List (GrammarSymbol × Nat)} {t t' : SlrTables}
    (h : t.Fit g states) (hedges : edges.foldlM (g.addEdge q) t = .ok t')
    (htargets : ∀ edge ∈ edges, edge.2 < states) : t'.Fit g states := by
  induction edges generalizing t with
  | nil =>
    obtain rfl : t = t' := by simpa [pure, Except.pure] using hedges
    exact h
  | cons edge edges ih =>
    rw [List.foldlM_cons] at hedges
    cases hfirst : g.addEdge q t edge with
    | error e => simp [hfirst, bind, Except.bind] at hedges
    | ok t'' =>
      refine ih (fit_addEdge h hfirst (htargets edge List.mem_cons_self)) ?_ fun e he =>
        htargets e (List.mem_cons_of_mem _ he)
      simpa [hfirst, bind, Except.bind] using hedges

/-- The edges of all states keep the shape. -/
theorem fit_addEdges {q : Nat} {rows : List (List (GrammarSymbol × Nat))} {t t' : SlrTables}
    (h : t.Fit g states) (hrows : g.addEdges q rows t = .ok t')
    (htargets : ∀ edges ∈ rows, ∀ edge ∈ edges, edge.2 < states) : t'.Fit g states := by
  induction rows generalizing q t with
  | nil =>
    obtain rfl : t = t' := by simpa [addEdges] using hrows
    exact h
  | cons edges rows ih =>
    rw [addEdges] at hrows
    cases hedges : edges.foldlM (g.addEdge q) t with
    | error e => simp [hedges] at hrows
    | ok t'' =>
      refine ih (fit_foldlM_addEdge h hedges (htargets edges List.mem_cons_self))
        (by simpa [hedges] using hrows) fun e he => htargets e (List.mem_cons_of_mem _ he)

/-- The moves that an item of the grammar allows name rules of the grammar. -/
theorem fits_itemActions (hg : g.Numbered) (follow : SymbolFamily) {i : Item} (hi : i.Of g)
    {move : GrammarSymbol × Action} (hmove : move ∈ g.itemActions follow i) :
    move.2.Fits g states := by
  unfold itemActions at hmove
  split at hmove
  · cases hmove
  · split at hmove
    · rw [List.mem_singleton.mp hmove]
      trivial
    · obtain ⟨a, _, rfl⟩ := List.mem_map.mp hmove
      have hget := hg.get?_number hi.rule_mem
      show (g.get? i.rule.number).isSome = true
      rw [hget]
      rfl

/-- Completing rows keeps the shape. -/
theorem fit_completeRows (hg : g.Numbered) {follow : SymbolFamily} {policy : ErrorPolicy} {q : Nat}
    {kernels : List ItemSet} {t t' : ActionTable}
    (h : t.Fit g.actionColumns states (Action.Fits g states))
    (hrows : g.completeRows follow policy q kernels t = .ok t')
    (hkernels : ∀ kernel ∈ kernels, kernel.Of g) :
    t'.Fit g.actionColumns states (Action.Fits g states) := by
  induction kernels generalizing q t with
  | nil =>
    obtain rfl : t = t' := by simpa [completeRows] using hrows
    exact h
  | cons kernel kernels ih =>
    rw [completeRows] at hrows
    cases hreductions : g.addReductions follow q kernel t with
    | error e => simp [hreductions] at hrows
    | ok t'' =>
      have hreduced : t''.Fit g.actionColumns states (Action.Fits g states) := by
        refine h.foldlM_set hreductions fun move hmove => ?_
        obtain ⟨i, hi, hmove⟩ := List.mem_flatMap.mp hmove
        have hclosure := of_closure hg (hkernels kernel List.mem_cons_self)
        exact fits_itemActions hg follow (hclosure.item i hi) hmove
      have hslot : (Action.error (policy q kernel).number).Fits g states := ⟨_, rfl⟩
      exact ih (hreduced.fillBlanks q hslot) (by simpa [hreductions] using hrows) fun k hk =>
        hkernels k (List.mem_cons_of_mem _ hk)

/-- **The edges of the collection lead to its states.** -/
theorem edges_lt_kernels (hg : g.Numbered) {edges : List (GrammarSymbol × Nat)}
    (hedges : edges ∈ g.collection.edges.toList) {edge : GrammarSymbol × Nat}
    (hedge : edge ∈ edges) : edge.2 < g.collection.kernels.size := by
  obtain ⟨q, hq⟩ := List.mem_iff_getElem?.mp hedges
  obtain ⟨kernel, _, hleaves⟩ := (explored_collection hg).leaves q edges hq
  have htarget := (hleaves.target edge.1 edge.2 hedge).2
  have hlt := (List.getElem?_eq_some_iff.mp htarget).1
  rwa [Array.length_toList] at hlt

/-- **The tables of a grammar have the shape of its collection.** -/
theorem fit_slrTables (hg : g.Numbered) {policy : ErrorPolicy} {t : SlrTables}
    (h : g.slrTables policy = .ok t) : t.Fit g g.collection.kernels.size := by
  obtain ⟨edged, hedged, hrows, hgotos⟩ := slrTables_eq_ok h
  have hfit : edged.Fit g g.collection.kernels.size :=
    fit_addEdges ⟨.blank, .blank⟩ hedged fun _ hedges _ hedge => edges_lt_kernels hg hedges hedge
  refine ⟨fit_completeRows hg hfit.actions hrows ?_, hgotos ▸ hfit.gotos⟩
  exact (explored_collection hg).itemSet

/-! ## The check -/

/-- Every terminal has a column. -/
theorem mem_actionColumns {a : GrammarSymbol} (h : a ∈ g.terminals) : a ∈ g.actionColumns := by
  obtain ⟨hright, hterminal⟩ := List.mem_filter.mp (SymbolSet.mem_ofList.mp h)
  obtain ⟨r, hr, ha⟩ := List.mem_flatMap.mp hright
  exact List.mem_append_left _
    (List.mem_filter.mpr ⟨mem_symbols_of_mem_right hr ha, hterminal⟩)

/-- Every nonterminal but the start has a column. -/
theorem mem_gotoColumns {a : GrammarSymbol} (h : a ∈ g.nonterminals) : a ∈ g.gotoColumns := by
  obtain ⟨hleft, hother⟩ := List.mem_filter.mp (SymbolSet.mem_ofList.mp h)
  obtain ⟨r, hr, rfl⟩ := List.mem_map.mp hleft
  have hsymbol : r.left ∈ g.symbols := by
    rw [symbols, List.mem_eraseDups, List.mem_flatMap]
    exact ⟨r, hr, List.mem_cons_self⟩
  exact List.mem_filter.mpr ⟨hsymbol, by simpa [isNonterminal_left hr] using hother⟩

/-- **Constructed tables pass the check.** -/
theorem check_slrTables (hg : g.Numbered) {policy : ErrorPolicy} {t : SlrTables}
    (h : g.slrTables policy = .ok t) :
    DecisionTables.check ⟨g, t.actions, t.gotos⟩ = .ok ⟨g, t.actions, t.gotos⟩ := by
  have hfit := fit_slrTables hg h
  let tables : DecisionTables := ⟨g, t.actions, t.gotos⟩
  have hstates : tables.stateCount = g.collection.kernels.size := hfit.actions.states_eq
  have hrow : tables.rowFault? = none :=
    if_pos (hfit.gotos.states_eq.trans hstates.symm)
  have hterminal : tables.terminalFault? = none := by
    rw [DecisionTables.terminalFault?, Option.map_eq_none_iff, List.find?_eq_none]
    intro a ha
    simpa [Grid.hasColumn, tables, hfit.actions.columns_eq] using mem_actionColumns ha
  have hnonterminal : tables.nonterminalFault? = none := by
    rw [DecisionTables.nonterminalFault?, Option.map_eq_none_iff, List.find?_eq_none]
    intro a ha
    simpa [Grid.hasColumn, tables, hfit.gotos.columns_eq] using mem_gotoColumns ha
  have haction : tables.actionFault? = none := by
    rw [DecisionTables.actionFault?, List.findSome?_eq_none_iff]
    rintro ⟨q, a, x⟩ hentry
    have hfits : x.Fits g g.collection.kernels.size := hfit.actions.of_mem_entries hentry
    cases x with
    | shift target =>
      rw [DecisionTables.cellFault?, if_pos (hstates ▸ hfits)]
    | reduce n =>
      obtain ⟨r, hr⟩ := Option.isSome_iff_exists.mp hfits
      simp only [DecisionTables.cellFault?, tables, hr]
    | accept => rfl
    | error slot => rfl
  have hgoto : tables.gotoFault? = none := by
    rw [DecisionTables.gotoFault?, Option.map_eq_none_iff, List.find?_eq_none]
    intro target htarget
    obtain ⟨entry, hentry, rfl⟩ := List.mem_map.mp htarget
    have hlt : entry.2.2 < g.collection.kernels.size := hfit.gotos.of_mem_entries hentry
    rw [hstates]
    simpa using hlt
  have hnone : tables.fault? = none := by
    rw [DecisionTables.fault?, hrow, hterminal, hnonterminal, haction, hgoto]
    rfl
  show tables.check = .ok tables
  rw [DecisionTables.check, hnone]

end RuleSet

end Mgol
