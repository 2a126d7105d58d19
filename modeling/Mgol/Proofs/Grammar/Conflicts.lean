import Mgol.Proofs.Grammar.Check
import Mgol.Proofs.Grammar.Follow

/-! # Conflicts are found exactly

A construction of tables fails exactly if some state admits two different moves on one terminal, and
the error names such a pair. Otherwise every cell holds the move that its state admits, or the
category of the state where none is admitted.

* **`RuleSet.LeadsTo`, `RuleSet.Allows`** — the successors of a state and the moves it allows, by
  the items of its closure.
* **`RuleSet.Completed`** — a table in the making holds nothing else.
* **`RuleSet.Exact`, `RuleSet.slrTables_exact`** — when tables are constructed, and what they
  hold. -/

namespace Mgol

/-! ## Computations that end well or badly -/

section Ends

variable {ε σ β : Type} {good : σ → Prop} {bad : ε → Prop}

/-- **A computation ends** in a good state, or with a bad error. -/
def EndsIn (good : σ → Prop) (bad : ε → Prop) : Except ε σ → Prop
  | .ok s => good s
  | .error e => bad e

/-- What a computation that ends well or badly comes to. -/
theorem EndsIn.cases {m : Except ε σ} (h : EndsIn good bad m) :
    (∃ s, m = .ok s ∧ good s) ∨ ∃ e, m = .error e ∧ bad e := by
  cases m with
  | ok s => exact .inl ⟨s, rfl, h⟩
  | error e => exact .inr ⟨e, rfl, h⟩

/-- Steps that end well or badly in a row do so as a whole. -/
theorem endsIn_foldlM {f : σ → β → Except ε σ} {l : List β} {s : σ}
    (hstep : ∀ b ∈ l, ∀ s, good s → EndsIn good bad (f s b)) (hs : good s) :
    EndsIn good bad (l.foldlM f s) := by
  induction l generalizing s with
  | nil => exact hs
  | cons b l ih =>
    rw [List.foldlM_cons]
    rcases (hstep b List.mem_cons_self s hs).cases with ⟨s', hb, hs'⟩ | ⟨e, hb, he⟩
    · rw [hb]
      exact ih (fun c hc => hstep c (List.mem_cons_of_mem _ hc)) hs'
    · rw [hb]
      exact he

end Ends

/-! ## Cells of a grid -/

namespace Grid

variable {α : Type} {g : Grid α}

/-- Every column is found somewhere. -/
theorem exists_columnIndex? {name : String} {columns : List String} (h : name ∈ columns) :
    ∃ i, columnIndex? name columns = some i := by
  induction columns with
  | nil => cases h
  | cons c columns ih =>
    rw [columnIndex?]
    cases hrest : columnIndex? name columns with
    | some i => exact ⟨i + 1, rfl⟩
    | none =>
      rcases List.mem_cons.mp h with rfl | h
      · exact ⟨0, if_pos rfl⟩
      · obtain ⟨i, hi⟩ := ih h
        cases hrest.symm.trans hi

/-- Among different columns, each one is found where it stands. -/
theorem columnIndex?_of_nodup {name : String} {columns : List String} (hnodup : columns.Nodup)
    {i : Nat} (h : columns[i]? = some name) : columnIndex? name columns = some i := by
  obtain ⟨j, hj⟩ := exists_columnIndex? (List.mem_of_getElem? h)
  obtain ⟨hilt, hi⟩ := List.getElem?_eq_some_iff.mp h
  obtain ⟨hjlt, hj'⟩ := List.getElem?_eq_some_iff.mp (getElem?_of_columnIndex? hj)
  rw [hj, (hnodup.getElem_inj_iff).mp (hj'.trans hi.symm)]

/-- A grid of a given shape has a cell for every state and column. -/
theorem Fit.exists_cell? {columns : List String} {states : Nat} {P : α → Prop}
    (h : g.Fit columns states P) {q : Nat} {a : String} (hq : q < states) (ha : a ∈ columns) :
    ∃ c, g.cell? q a = some c := by
  obtain ⟨i, hi⟩ := exists_columnIndex? ha
  have hlt := (List.getElem?_eq_some_iff.mp (getElem?_of_columnIndex? hi)).1
  have hrow : q < g.rows.size := by rw [h.states_eq]; exact hq
  have hwidth := h.width g.rows[q] (Array.getElem_mem hrow)
  refine ⟨g.rows[q][i], ?_⟩
  simp [cell?, h.columns_eq, hi, Array.getElem?_eq_getElem hrow,
    Array.getElem?_eq_getElem (show i < g.rows[q].size by omega)]

/-- A cell that exists can be filled. -/
theorem exists_put? {q : Nat} {a : String} {c : Option α} (h : g.cell? q a = some c) (x : α) :
    ∃ g', g.put? q a x = some g' := by
  unfold cell? at h
  unfold put?
  split at h
  · next i row hcol hrow =>
    have hlt := (Array.getElem?_eq_some_iff.mp h).1
    exact ⟨_, if_pos hlt⟩
  · cases h

end Grid

/-- **Setting a move** in a cell that exists succeeds, unless another move stands there. -/
theorem ActionTable.set_cases {t : ActionTable} {q : Nat} {a : GrammarSymbol} {c : Option Action}
    (h : t.cell? q a = some c) (x : Action) :
    (∃ t', t.set q a x = .ok t') ∨
      ∃ y, t.get? q a = some y ∧ y ≠ x ∧ t.set q a x = .error (.conflict q a y x) := by
  unfold set
  cases c with
  | none =>
    obtain ⟨t', hput⟩ := Grid.exists_put? h x
    simp only [h, hput]
    exact .inl ⟨t', rfl⟩
  | some y =>
    simp only [h]
    by_cases hyx : y = x
    · rw [if_pos hyx]
      exact .inl ⟨t, rfl⟩
    · rw [if_neg hyx]
      exact .inr ⟨y, Grid.get?_of_cell? h, hyx, rfl⟩

namespace RuleSet

variable {g : RuleSet} {q : Nat} {a : GrammarSymbol} {x : Action}

/-! ## Moves by the items of a state -/

/-- **One state leads to another** over a symbol: the kernel of the other one holds the items of
its closure that expect the symbol, after it. -/
def LeadsTo (g : RuleSet) (q : Nat) (a : GrammarSymbol) (target : Nat) : Prop :=
  ∃ kernel next, g.collection.kernels[q]? = some kernel ∧
    g.collection.kernels[target]? = some next ∧ next ≠ [] ∧
    ∀ j, j ∈ next ↔ ∃ i, g.InClosure kernel i ∧ i.next? = some a ∧ i.advance = j

/-- **The moves that a state allows**: a shift to the successor over a terminal; the acceptance at
the end of the input, if the start rule is complete; and a reduction by another complete rule, on
what can follow its left side. -/
inductive Allows (g : RuleSet) (q : Nat) : GrammarSymbol → Action → Prop
  | shift {a : GrammarSymbol} {target : Nat} (terminal : g.isNonterminal a = false)
      (successor : g.LeadsTo q a target) : Allows g q a (.shift target)
  | accept {kernel : ItemSet} (state : g.collection.kernels[q]? = some kernel)
      (complete : g.InClosure kernel ⟨g.start, g.start.right.length⟩) :
      Allows g q endMarker .accept
  | reduce {kernel : ItemSet} {r : Rule} {a : GrammarSymbol}
      (state : g.collection.kernels[q]? = some kernel)
      (complete : g.InClosure kernel ⟨r, r.right.length⟩) (other : r ≠ g.start)
      (follows : g.CanFollow r.left a) : Allows g q a (.reduce r.number)

/-- The successors of a state are where its edges lead. -/
theorem leadsTo_iff (hg : g.Numbered) {target : Nat} :
    g.LeadsTo q a target ↔ (a, target) ∈ g.edgesAt q := by
  have hexplored := explored_collection hg
  constructor
  · rintro ⟨kernel, next, hkernel, hnext, hne, hitems⟩
    rw [← Array.getElem?_toList] at hkernel hnext
    obtain ⟨j, hj⟩ := List.exists_mem_of_ne_nil _ hne
    obtain ⟨i, hi, hia, -⟩ := (hitems j).mp hj
    obtain ⟨target', hedge⟩ := exists_edge_of_next? hg ((mem_itemsAt hg hkernel).mpr hi) hia
    -- the edge leads to the same kernel, and no kernel is there twice
    obtain ⟨-, htarget⟩ := (edgesAt_spec hg hkernel).2.target a target' hedge
    have hsame : next = advanceOver a (g.itemsAt q) := by
      refine (hexplored.itemSet next (List.mem_of_getElem? hnext)).ordered.ext
        (hexplored.itemSet _ (List.mem_of_getElem? htarget)).ordered fun k => ?_
      rw [hitems, mem_advanceOver]
      simp only [mem_itemsAt hg hkernel]
    obtain ⟨hlt, heq⟩ := List.getElem?_eq_some_iff.mp hnext
    obtain ⟨hlt', heq'⟩ := List.getElem?_eq_some_iff.mp htarget
    obtain rfl : target = target' :=
      (hexplored.nodup.getElem_inj_iff).mp (heq.trans (hsame.trans heq'.symm))
    exact hedge
  · intro hedge
    obtain ⟨kernel, hkernel⟩ := exists_kernel_of_edge hg hedge
    obtain ⟨hne, htarget⟩ := (edgesAt_spec hg hkernel).2.target a target hedge
    refine ⟨kernel, _, by rwa [← Array.getElem?_toList], by rwa [← Array.getElem?_toList], hne,
      fun j => ?_⟩
    rw [mem_advanceOver]
    simp only [mem_itemsAt hg hkernel]

/-- The moves that a state allows are those that its items admit. -/
theorem allows_iff (hg : g.Numbered) : g.Allows q a x ↔ g.Admits q a x := by
  constructor
  · intro h
    cases h with
    | shift terminal successor => exact .shift ((leadsTo_iff hg).mp successor) terminal
    | accept state complete =>
      rw [← Array.getElem?_toList] at state
      exact .accept ((mem_itemsAt hg state).mpr complete)
    | reduce state complete other follows =>
      rw [← Array.getElem?_toList] at state
      have hitem := (mem_itemsAt hg state).mpr complete
      have hrule := (of_itemsAt hg hitem).rule_mem
      exact .reduce hitem other ((mem_followSets_iff (isNonterminal_left hrule)).mpr follows)
  · intro h
    cases h with
    | shift edge terminal => exact .shift terminal ((leadsTo_iff hg).mpr edge)
    | accept complete =>
      obtain ⟨kernel, hkernel⟩ := exists_kernel complete
      exact .accept (by rwa [← Array.getElem?_toList]) ((mem_itemsAt hg hkernel).mp complete)
    | reduce complete other follows =>
      obtain ⟨kernel, hkernel⟩ := exists_kernel complete
      exact .reduce (by rwa [← Array.getElem?_toList]) ((mem_itemsAt hg hkernel).mp complete) other
        (onlyFollowers_followSets g _ _ follows)

/-- What is admitted is a viable move. -/
theorem Admits.isViable (h : g.Admits q a x) : x.isViable = true := by
  cases h <;> rfl

/-- What follows is a terminal, or the end of the input. -/
theorem CanFollow.terminal {b : GrammarSymbol} (h : g.CanFollow a b) :
    b = endMarker ∨ g.isNonterminal b = false := by
  induction h with
  | ended => exact .inl rfl
  | begun _ _ begins => exact .inr begins.1
  | inherited _ _ _ _ ih => exact ih

/-- A state with a kernel is in the collection. -/
theorem lt_size_of_kernel {kernel : ItemSet}
    (h : g.collection.kernels.toList[q]? = some kernel) : q < g.collection.kernels.size := by
  simpa using (List.getElem?_eq_some_iff.mp h).1

/-- A state with an item is in the collection. -/
theorem lt_size_of_item {i : Item} (h : i ∈ g.itemsAt q) : q < g.collection.kernels.size := by
  obtain ⟨kernel, hkernel⟩ := exists_kernel h
  exact lt_size_of_kernel hkernel

/-- What is admitted has a cell in the table. -/
theorem Admits.cell (hg : g.Numbered) (h : g.Admits q a x) :
    q < g.collection.kernels.size ∧ a ∈ g.actionColumns := by
  cases h with
  | @shift _ j edge terminal =>
    obtain ⟨i, hi, hnext⟩ := exists_item_of_edge hg edge
    have hsymbol := mem_symbols_of_mem_right (of_itemsAt hg hi).rule_mem
      (List.mem_of_getElem? hnext)
    exact ⟨lt_size_of_item hi,
      List.mem_append_left _ (List.mem_filter.mpr ⟨hsymbol, by simp [terminal]⟩)⟩
  | accept complete => exact ⟨lt_size_of_item complete, List.mem_append_right _ (by simp)⟩
  | reduce complete _ follows =>
    refine ⟨lt_size_of_item complete, ?_⟩
    rcases (onlyFollowers_followSets g _ _ follows).terminal with rfl | hterminal
    · exact List.mem_append_right _ (by simp)
    · rcases List.mem_cons.mp (settled_followSets.1.get_subset _ follows) with rfl | hsymbol
      · exact List.mem_append_right _ (by simp)
      · exact List.mem_append_left _ (List.mem_filter.mpr ⟨hsymbol, by simp [hterminal]⟩)

/-! ## Tables in the making -/

/-- **A conflict**: the error names two different moves that a state admits on one terminal. -/
def Clash (g : RuleSet) (e : GrammarError) : Prop :=
  ∃ q a x y, e = .conflict q a x y ∧ g.Admits q a x ∧ g.Admits q a y ∧ x ≠ y

/-- **A table whose rows below `k` are complete**: it holds admitted moves, and the categories of
those rows; and they have no blank cell. -/
structure Completed (g : RuleSet) (policy : ErrorPolicy) (k : Nat) (t : ActionTable) : Prop where
  shape : t.Fit g.actionColumns g.collection.kernels.size fun _ => True
  sound : ∀ q a x, t.get? q a = some x → g.Admits q a x ∨
    ∃ kernel, q < k ∧ g.collection.kernels.toList[q]? = some kernel ∧
      x = .error (policy q kernel).number
  filled : ∀ q a, q < k → q < g.collection.kernels.size → a ∈ g.actionColumns →
    ∃ x, t.get? q a = some x

namespace Completed

variable {policy : ErrorPolicy} {k : Nat} {t : ActionTable}

/-- A blank table is complete below the first row. -/
theorem blank : Completed g policy 0 (.blank g.actionColumns g.collection.kernels.size) where
  shape := .blank
  sound q a x h := by rw [Grid.get?_blank] at h; cases h
  filled q a hq := absurd hq (Nat.not_lt_zero q)

/-- **Setting an admitted move** in a row that is not complete succeeds, or there is a conflict. -/
theorem set (hg : g.Numbered) (h : Completed g policy k t) (hq : k ≤ q) (hx : g.Admits q a x) :
    EndsIn (Completed g policy k) g.Clash (t.set q a x) := by
  obtain ⟨hstate, hcolumn⟩ := hx.cell hg
  obtain ⟨c, hcell⟩ := h.shape.exists_cell? hstate hcolumn
  rcases ActionTable.set_cases hcell x with ⟨t', hset⟩ | ⟨y, hy, hne, hset⟩
  · rw [hset]
    have hget := ActionTable.get?_set_iff hset
    refine ⟨h.shape.set hset trivial, fun p b z hz => ?_, fun p b hp hlt hb => ?_⟩
    · rcases (hget p b z).mp hz with hz | ⟨rfl, rfl, rfl⟩
      · exact h.sound p b z hz
      · exact .inl hx
    · obtain ⟨z, hz⟩ := h.filled p b hp hlt hb
      exact ⟨z, (hget p b z).mpr (.inl hz)⟩
  · rw [hset]
    refine ⟨q, a, y, x, rfl, ?_, hx, hne⟩
    rcases h.sound q a y hy with hadmits | ⟨_, hlt, _⟩
    · exact hadmits
    · omega

/-- Filling the blanks of a row completes it. -/
theorem fillBlanks (h : Completed g policy k t) {kernel : ItemSet}
    (hkernel : g.collection.kernels.toList[k]? = some kernel) :
    Completed g policy (k + 1) (t.fillBlanks k (.error (policy k kernel).number)) where
  shape := h.shape.fillBlanks k trivial
  sound q a x hx := by
    unfold Grid.get? at hx
    rw [Grid.cell?_fillBlanks] at hx
    by_cases hq : q = k
    · subst hq
      rw [if_pos rfl] at hx
      cases hcell : t.cell? q a with
      | none => simp [hcell] at hx
      | some c =>
        cases c with
        | none =>
          obtain rfl : Action.error (policy q kernel).number = x := by simpa [hcell] using hx
          exact .inr ⟨kernel, Nat.lt_succ_self q, hkernel, rfl⟩
        | some y =>
          obtain rfl : y = x := by simpa [hcell] using hx
          exact (h.sound q a y (Grid.get?_of_cell? hcell)).imp id fun ⟨_, hlt, _⟩ => by omega
    · rw [if_neg hq] at hx
      exact (h.sound q a x hx).imp id fun ⟨kernel', hlt, hrest⟩ =>
        ⟨kernel', Nat.lt_succ_of_lt hlt, hrest⟩
  filled q a hq hlt ha := by
    rcases Nat.lt_succ_iff_lt_or_eq.mp hq with hbelow | rfl
    · obtain ⟨x, hx⟩ := h.filled q a hbelow hlt ha
      exact ⟨x, Grid.get?_fillBlanks_of_some hx⟩
    · obtain ⟨c, hcell⟩ := h.shape.exists_cell? hlt ha
      refine ⟨c.getD (.error (policy q kernel).number), ?_⟩
      rw [Grid.get?, Grid.cell?_fillBlanks, if_pos rfl, hcell]
      rfl

end Completed

/-- **Tables in which edges are written**: no row is complete yet, and there is a place for every
target. -/
structure Edged (g : RuleSet) (policy : ErrorPolicy) (t : SlrTables) : Prop where
  actions : Completed g policy 0 t.actions
  gotos : t.gotos.Fit g.gotoColumns g.collection.kernels.size fun _ => True

/-- What an edge over a terminal or a nonterminal writes has a place. -/
theorem endsIn_addEdge (hg : g.Numbered) (hstart : ∀ r ∈ g.rules, g.start.left ∉ r.right)
    {policy : ErrorPolicy} {t : SlrTables} {edge : GrammarSymbol × Nat}
    (hedge : edge ∈ g.edgesAt q)
    (ht : Edged g policy t) : EndsIn (Edged g policy) g.Clash (g.addEdge q t edge) := by
  obtain ⟨b, j⟩ := edge
  obtain ⟨i, hi, hnext⟩ := exists_item_of_edge hg hedge
  have hrule := (of_itemsAt hg hi).rule_mem
  have hright := List.mem_of_getElem? hnext
  unfold addEdge
  by_cases hb : g.isNonterminal b = true
  · -- the start is in no right side, so there is a column to go to
    have hcolumn : b ∈ g.gotoColumns := by
      refine List.mem_filter.mpr ⟨mem_symbols_of_mem_right hrule hright, ?_⟩
      have hne : b ≠ g.start.left := by
        rintro rfl
        exact hstart i.rule hrule hright
      simp [hb, hne]
    obtain ⟨c, hcell⟩ := ht.gotos.exists_cell? (lt_size_of_item hi) hcolumn
    obtain ⟨gotos, hput⟩ := Grid.exists_put? hcell j
    simp only [hb, if_true, GotoTable.set, hput]
    exact ⟨ht.actions, ht.gotos.put? hput trivial⟩
  · have hset := ht.actions.set hg (Nat.zero_le q) (.shift hedge (by simpa using hb))
    simp only [hb]
    rcases hset.cases with ⟨actions, hactions, hcompleted⟩ | ⟨e, hactions, he⟩
    · rw [hactions]
      exact ⟨hcompleted, ht.gotos⟩
    · rw [hactions]
      exact he

/-- The edges of all states are written, or there is a conflict. -/
theorem endsIn_addEdges (hg : g.Numbered) (hstart : ∀ r ∈ g.rules, g.start.left ∉ r.right)
    {policy : ErrorPolicy} {rows : List (List (GrammarSymbol × Nat))} {t : SlrTables}
    (hrows : ∀ p edges, rows[p]? = some edges → edges = g.edgesAt (q + p))
    (ht : Edged g policy t) : EndsIn (Edged g policy) g.Clash (g.addEdges q rows t) := by
  induction rows generalizing q t with
  | nil => exact ht
  | cons edges rows ih =>
    have hedges : edges = g.edgesAt q := hrows 0 edges rfl
    have hrow := endsIn_foldlM (fun edge hedge t ht =>
      endsIn_addEdge (q := q) hg hstart (hedges ▸ hedge) ht) ht (l := edges)
    rw [addEdges]
    rcases hrow.cases with ⟨t', hfold, ht'⟩ | ⟨e, hfold, he⟩
    · rw [hfold]
      refine ih (fun p edges hp => ?_) ht'
      rw [hrows (p + 1) edges hp, Nat.add_assoc, Nat.add_comm 1]
    · rw [hfold]
      exact he

/-- All rows are completed, or there is a conflict. -/
theorem endsIn_completeRows (hg : g.Numbered) {policy : ErrorPolicy} {k : Nat}
    {rows : List ItemSet} {t : ActionTable} (hrows : g.collection.kernels.toList.drop k = rows)
    (ht : Completed g policy k t) :
    EndsIn (Completed g policy g.collection.kernels.size) g.Clash
      (g.completeRows g.followSets policy k rows t) := by
  induction rows generalizing k t with
  | nil =>
    have hk : g.collection.kernels.size ≤ k := by
      simpa using List.drop_eq_nil_iff.mp hrows
    exact
      { shape := ht.shape
        sound := fun q a x hx => (ht.sound q a x hx).imp id fun ⟨kernel, _, hkernel, hx⟩ =>
          ⟨kernel, lt_size_of_kernel hkernel, hkernel, hx⟩
        filled := fun q a hq hlt ha => ht.filled q a (by omega) hlt ha }
  | cons kernel rows ih =>
    have hkernel : g.collection.kernels.toList[k]? = some kernel := by
      rw [← Nat.add_zero k, ← List.getElem?_drop, hrows]
      rfl
    -- every move that is written is one that the state admits
    have hmoves : ∀ move ∈ (g.closure kernel).flatMap (g.itemActions g.followSets), ∀ t,
        Completed g policy k t →
        EndsIn (Completed g policy k) g.Clash (ActionTable.set t k move.1 move.2) := by
      rintro ⟨a, x⟩ hmove t ht
      obtain ⟨i, hi, hmove⟩ := List.mem_flatMap.mp hmove
      rw [← itemsAt_eq hkernel] at hi
      refine ht.set hg (Nat.le_refl k) ?_
      rcases (mem_itemActions_iff hg).mp ⟨i, hi, hmove⟩ with ⟨hcomplete, rfl, rfl⟩ |
        ⟨r, hcomplete, hother, hfollows, rfl⟩
      · exact .accept hcomplete
      · exact .reduce hcomplete hother hfollows
    have hreductions := endsIn_foldlM hmoves ht
    rw [completeRows, addReductions]
    rcases hreductions.cases with ⟨t', hfold, ht'⟩ | ⟨e, hfold, he⟩
    · rw [hfold]
      refine ih ?_ (ht'.fillBlanks hkernel)
      rw [← List.drop_drop, hrows]
      rfl
    · rw [hfold]
      exact he

/-- **Tables are completed, or there is a conflict.** -/
theorem endsIn_slrTables (hg : g.Numbered) (hstart : ∀ r ∈ g.rules, g.start.left ∉ r.right)
    (policy : ErrorPolicy) :
    EndsIn (fun t : SlrTables => Completed g policy g.collection.kernels.size t.actions) g.Clash
      (g.slrTables policy) := by
  have hedges : EndsIn (Edged g policy) g.Clash
      (g.addEdges 0 g.collection.edges.toList ⟨.blank g.actionColumns g.collection.kernels.size,
        .blank g.gotoColumns g.collection.kernels.size⟩) :=
    endsIn_addEdges hg hstart (fun p edges hp => by rw [Nat.zero_add, edgesAt, hp]; rfl)
      ⟨.blank, .blank⟩
  unfold slrTables
  rcases hedges.cases with ⟨t, hadd, hedged⟩ | ⟨e, hadd, he⟩
  · have hrows := endsIn_completeRows (k := 0) hg List.drop_zero hedged.actions
    rcases hrows.cases with ⟨actions, hcomplete, hcompleted⟩ | ⟨e, hcomplete, he⟩
    · simp only [hadd, hcomplete]
      exact hcompleted
    · simp only [hadd, hcomplete]
      exact he
  · simp only [hadd]
    exact he

/-! ## What tables hold -/

/-- No column of the action table is there twice, if no rule names the end of the input. -/
theorem nodup_actionColumns
    (hend : ∀ r ∈ g.rules, r.left ≠ endMarker ∧ endMarker ∉ r.right) : g.actionColumns.Nodup := by
  have hnot : endMarker ∉ g.symbols := by
    intro hmem
    obtain ⟨r, hr, h⟩ := List.mem_flatMap.mp (List.mem_eraseDups.mp hmem)
    rcases List.mem_cons.mp h with h | h
    · exact (hend r hr).1 h.symm
    · exact (hend r hr).2 h
  refine List.nodup_append'.mpr ⟨nodup_symbols.filter _, List.nodup_singleton _, ?_⟩
  rw [List.disjoint_singleton]
  exact fun hmem => hnot (List.mem_of_mem_filter hmem)

/-- **Tables that hold exactly what is allowed.** There is a row for every state and a column for
every terminal, and no cell is blank: it holds the one move that is allowed there, or the category
of the state if none is. A state goes to its successor over a nonterminal, and nowhere else. -/
structure Exact (g : RuleSet) (policy : ErrorPolicy) (t : SlrTables) : Prop where
  columns : t.actions.columns = g.actionColumns ∧ t.actions.columns.Nodup
  states : t.actions.rows.size = g.collection.kernels.size
  full : ∀ row ∈ t.actions.rows, row.size = t.actions.columns.length ∧ none ∉ row
  actions : ∀ q kernel, g.collection.kernels[q]? = some kernel → ∀ a ∈ t.actions.columns, ∀ x,
    t.actions.action q a = some x ↔
      g.Allows q a x ∨ (∀ y, ¬g.Allows q a y) ∧ x = .error (policy q kernel).number
  gotos : ∀ q a j, t.gotos.goto q a = some j ↔ g.isNonterminal a = true ∧ g.LeadsTo q a j

/-- A completed table has no blank cell. -/
theorem Completed.full {policy : ErrorPolicy} {t : ActionTable}
    (h : Completed g policy g.collection.kernels.size t) (hnodup : g.actionColumns.Nodup)
    {row : Array (Option Action)} (hrow : row ∈ t.rows) : none ∉ row := by
  intro hnone
  obtain ⟨q, hq, rfl⟩ := Array.mem_iff_getElem.mp hrow
  obtain ⟨i, hi, hcell⟩ := Array.mem_iff_getElem.mp hnone
  have hwidth : i < g.actionColumns.length := by
    rw [← h.shape.width _ hrow]
    exact hi
  have hindex := Grid.columnIndex?_of_nodup hnodup (List.getElem?_eq_getElem hwidth)
  have hstate : q < g.collection.kernels.size := by rwa [← h.shape.states_eq]
  obtain ⟨x, hx⟩ := h.filled q _ hstate hstate (List.getElem_mem hwidth)
  simp [Grid.get?, Grid.cell?, h.shape.columns_eq, hindex, hq, hi, hcell] at hx

/-- The cells of constructed tables hold what is allowed, and the category where nothing is. -/
theorem action_slrTables_iff (hg : g.Numbered) {policy : ErrorPolicy} {t : SlrTables}
    (h : g.slrTables policy = .ok t)
    (hcompleted : Completed g policy g.collection.kernels.size t.actions) {kernel : ItemSet}
    (hkernel : g.collection.kernels[q]? = some kernel) (ha : a ∈ g.actionColumns) :
    t.actions.action q a = some x ↔
      g.Allows q a x ∨ (∀ y, ¬g.Allows q a y) ∧ x = .error (policy q kernel).number := by
  rw [← Array.getElem?_toList] at hkernel
  have hallowed : ∀ {y}, g.Allows q a y → t.actions.get? q a = some y ∧ y.isViable = true := by
    intro y hy
    have hadmits := (allows_iff hg).mp hy
    exact ⟨(get?_actions_slrTables hg h hadmits.isViable).mpr hadmits, hadmits.isViable⟩
  have hfound : ∀ {y}, t.actions.get? q a = some y →
      g.Allows q a y ∨ y = .error (policy q kernel).number := by
    intro y hy
    rcases hcompleted.sound q a y hy with hadmits | ⟨kernel', -, hkernel', rfl⟩
    · exact .inl ((allows_iff hg).mpr hadmits)
    · rw [hkernel] at hkernel'
      obtain rfl := Option.some.inj hkernel'
      exact .inr rfl
  constructor
  · intro hx
    refine (hfound hx).imp id fun herror => ⟨fun y hy => ?_, herror⟩
    -- an allowed move would stand in this cell, where an error stands
    obtain ⟨hget, hviable⟩ := hallowed hy
    obtain rfl := Option.some.inj (hget.symm.trans hx)
    rw [herror] at hviable
    cases hviable
  · rintro (hx | ⟨hnone, rfl⟩)
    · exact (hallowed hx).1
    · have hstate := lt_size_of_kernel hkernel
      obtain ⟨y, hy⟩ := hcompleted.filled q a hstate hstate ha
      rcases hfound hy with hallows | rfl
      · exact absurd hallows (hnone y)
      · exact hy

/-- **Conflicts are found exactly, and cells hold exactly what is allowed.** Take rules of which
none names the start on its right side, nor the end of the input anywhere. No tables are constructed
exactly if some state allows two different moves on one terminal; then the error is a conflict of
two such moves, and otherwise the tables hold what is allowed and nothing else. -/
theorem slrTables_exact {rules : List Rule} {origin : String} {g : RuleSet}
    (hrules : ofRules rules origin = .ok g) (hstart : ∀ r ∈ g.rules, g.start.left ∉ r.right)
    (hend : ∀ r ∈ g.rules, r.left ≠ endMarker ∧ endMarker ∉ r.right) (policy : ErrorPolicy) :
    ((∃ e, g.slrTables policy = .error e) ↔
      ∃ q a x y, g.Allows q a x ∧ g.Allows q a y ∧ x ≠ y) ∧
    (∀ e, g.slrTables policy = .error e →
      ∃ q a x y, e = .conflict q a x y ∧ g.Allows q a x ∧ g.Allows q a y ∧ x ≠ y) ∧
    ∀ t, g.slrTables policy = .ok t → g.Exact policy t := by
  have hg := numbered_of_ofRules hrules
  have hends := endsIn_slrTables hg hstart policy
  have herror : ∀ e, g.slrTables policy = .error e →
      ∃ q a x y, e = .conflict q a x y ∧ g.Allows q a x ∧ g.Allows q a y ∧ x ≠ y := by
    intro e he
    rw [he] at hends
    obtain ⟨q, a, x, y, rfl, hx, hy, hne⟩ := hends
    exact ⟨q, a, x, y, rfl, (allows_iff hg).mpr hx, (allows_iff hg).mpr hy, hne⟩
  refine ⟨⟨?_, ?_⟩, herror, ?_⟩
  · rintro ⟨e, he⟩
    obtain ⟨q, a, x, y, -, hclash⟩ := herror e he
    exact ⟨q, a, x, y, hclash⟩
  · rintro ⟨q, a, x, y, hx, hy, hne⟩
    cases ht : g.slrTables policy with
    | error e => exact ⟨e, rfl⟩
    | ok t =>
      -- both moves would have to stand in one cell
      have hcell : ∀ {z}, g.Allows q a z → t.actions.get? q a = some z := fun hz =>
        have hadmits := (allows_iff hg).mp hz
        (get?_actions_slrTables hg ht hadmits.isViable).mpr hadmits
      exact absurd (Option.some.inj ((hcell hx).symm.trans (hcell hy))) hne
  · intro t ht
    rw [ht] at hends
    have hcolumns : t.actions.columns = g.actionColumns := hends.shape.columns_eq
    have hnodup := nodup_actionColumns hend
    exact
      { columns := ⟨hcolumns, hcolumns ▸ hnodup⟩
        states := hends.shape.states_eq
        full := fun row hrow =>
          ⟨(hends.shape.width row hrow).trans (by rw [hcolumns]), hends.full hnodup hrow⟩
        actions := fun q kernel hkernel a ha x =>
          action_slrTables_iff hg ht hends hkernel (hcolumns ▸ ha)
        gotos := fun q a j => by
          rw [GotoTable.goto, get?_gotos_slrTables hg ht, leadsTo_iff hg, and_comm] }

/-- Sums of names, with nothing that says how to group them. -/
def sumRules : List Rule := [⟨1, "S", ["E"]⟩, ⟨2, "E", ["E", "opm", "E"]⟩, ⟨3, "E", ["id"]⟩]

/-- Sums that can be grouped in two ways have a state that allows two moves. -/
theorem slrTables_exact_sums :
    ∃ g, ofRules sumRules "sums" = .ok g ∧ (∀ r ∈ g.rules, g.start.left ∉ r.right) ∧
      (∀ r ∈ g.rules, r.left ≠ endMarker ∧ endMarker ∉ r.right) ∧
      ∃ q a x y, g.slrTables .uniform = .error (.conflict q a x y) ∧
        g.Allows q a x ∧ g.Allows q a y ∧ x ≠ y := by
  let g : RuleSet := ⟨⟨1, "S", ["E"]⟩, [⟨2, "E", ["E", "opm", "E"]⟩, ⟨3, "E", ["id"]⟩]⟩
  have hrules : ofRules sumRules "sums" = .ok g := by rfl
  have hstart : ∀ r ∈ g.rules, g.start.left ∉ r.right := by decide
  have hend : ∀ r ∈ g.rules, r.left ≠ endMarker ∧ endMarker ∉ r.right := by decide
  refine ⟨g, hrules, hstart, hend, ?_⟩
  have hfails : (g.slrTables .uniform).toBool = false := by decide +kernel
  cases he : g.slrTables .uniform with
  | ok t =>
    rw [he] at hfails
    cases hfails
  | error e =>
    obtain ⟨q, a, x, y, rfl, hclash⟩ := (slrTables_exact hrules hstart hend .uniform).2.1 e he
    exact ⟨q, a, x, y, rfl, hclash⟩

end RuleSet

end Mgol
