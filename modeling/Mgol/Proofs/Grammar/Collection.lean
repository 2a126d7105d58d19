import Mathlib.Data.Finset.Powerset
import Mgol.Grammar.Collection
import Mgol.Proofs.Grammar.First
import Mgol.Proofs.Grammar.Item

/-! # The canonical collection is complete

Every state found has been looked at: there are no more sets of items than rounds allowed. So the
edges of the collection are all edges, and a state's items can be read off any path to it.

* **`Collection.Explored`** — what holds of a collection in the making.
* **`RuleSet.edges_size_collection`** — at the end every state has its edges.
* **`RuleSet.itemsAt`** — the items of a state, with what an edge does to them
  (`RuleSet.mem_itemsAt_of_edge`, `RuleSet.exists_edge_of_next?`). -/

namespace Mgol

/-! ## Advancing over a symbol -/

/-- The items after one more symbol. -/
theorem mem_advanceOver {a : GrammarSymbol} {items : ItemSet} {j : Item} :
    j ∈ advanceOver a items ↔ ∃ i ∈ items, i.next? = some a ∧ i.advance = j := by
  simp [advanceOver, and_assoc]

/-- Advancing keeps a set of items in order and inside the grammar. -/
theorem of_advanceOver {g : RuleSet} {a : GrammarSymbol} {items : ItemSet} (h : items.Of g) :
    (advanceOver a items).Of g := by
  constructor
  · refine List.pairwise_map.mpr ((h.ordered.filter _).imp ?_)
    intro i j hij
    rw [Item.before_iff] at hij ⊢
    simpa [Item.advance] using hij
  · intro j hj
    obtain ⟨i, hi, hnext, rfl⟩ := mem_advanceOver.mp hj
    obtain ⟨after, hafter⟩ := Item.next?_eq_some_iff.mp hnext
    refine ⟨(h.item i hi).rule_mem, ?_⟩
    have hlen := congrArg List.length hafter
    simp only [List.length_drop, List.length_cons] at hlen
    simp only [Item.advance]
    omega

/-! ## How many states there can be -/

namespace RuleSet

variable {g : RuleSet}

/-- All items of a grammar. -/
def allItems (g : RuleSet) : List Item :=
  g.rules.flatMap fun r => (List.range (r.right.length + 1)).map (Item.mk r)

/-- The items are counted rightly. -/
theorem length_allItems : g.allItems.length = g.itemCount := by
  unfold allItems itemCount
  generalize g.rules = rules
  induction rules with
  | nil => rfl
  | cons r rules ih => simp [List.flatMap_cons, ih]

/-- Every item of a grammar is listed. -/
theorem mem_allItems {i : Item} (h : i.Of g) : i ∈ g.allItems := by
  refine List.mem_flatMap.mpr ⟨i.rule, h.rule_mem, List.mem_map.mpr ⟨i.dot, ?_, rfl⟩⟩
  exact List.mem_range.mpr (Nat.lt_succ_of_le h.dot_le)

/-- **Different sets of items are no more than the subsets of all items.** -/
theorem length_le_two_pow {kernels : List ItemSet} (hnodup : kernels.Nodup)
    (hof : ∀ k ∈ kernels, ItemSet.Of g k) : kernels.length ≤ Nat.pow 2 g.itemCount := by
  -- kernels are ordered, so they are known by their items
  have hinj : (kernels.map List.toFinset).Nodup := by
    refine hnodup.map_on ?_
    intro s hs t ht hst
    refine (hof s hs).ordered.ext (hof t ht).ordered fun i => ?_
    rw [← List.mem_toFinset, hst, List.mem_toFinset]
  have hsub : (kernels.map List.toFinset).toFinset ⊆ g.allItems.toFinset.powerset := by
    intro s hs
    obtain ⟨k, hk, rfl⟩ := List.mem_map.mp (List.mem_toFinset.mp hs)
    refine Finset.mem_powerset.mpr fun i hi => ?_
    exact List.mem_toFinset.mpr (mem_allItems ((hof k hk).item i (List.mem_toFinset.mp hi)))
  calc kernels.length
      = (kernels.map List.toFinset).toFinset.card := by
        rw [List.toFinset_card_of_nodup hinj, List.length_map]
    _ ≤ g.allItems.toFinset.powerset.card := Finset.card_le_card hsub
    _ = 2 ^ g.allItems.toFinset.card := Finset.card_powerset _
    _ ≤ 2 ^ g.itemCount := by
        refine Nat.pow_le_pow_right (by omega) ?_
        rw [← length_allItems]
        exact List.toFinset_card_le _

end RuleSet

/-! ## The edges of one state -/

namespace Collection

variable {g : RuleSet}

/-- The edges that leave some items: each leads to what its symbol makes of the items, and every
symbol that makes something of them has one. -/
structure Leaves (kernels : List ItemSet) (items : ItemSet) (symbols : List GrammarSymbol)
    (edges : List (GrammarSymbol × Nat)) : Prop where
  target : ∀ a j, (a, j) ∈ edges →
    advanceOver a items ≠ [] ∧ kernels[j]? = some (advanceOver a items)
  complete : ∀ a ∈ symbols, advanceOver a items ≠ [] → ∃ j, (a, j) ∈ edges
  names : (edges.map Prod.fst).Sublist symbols

/-- Edges still lead to the same kernels when more kernels come after them. -/
theorem Leaves.append {kernels : List ItemSet} {items : ItemSet} {symbols : List GrammarSymbol}
    {edges : List (GrammarSymbol × Nat)} (h : Leaves kernels items symbols edges)
    (new : List ItemSet) : Leaves (kernels ++ new) items symbols edges where
  target a j he := by
    obtain ⟨hne, hj⟩ := h.target a j he
    refine ⟨hne, ?_⟩
    rw [List.getElem?_append_left (List.getElem?_eq_some_iff.mp hj).1, hj]
  complete := h.complete
  names := h.names

/-- The state found for a kernel has that kernel. -/
theorem stateOf?_eq_some {kernels : Array ItemSet} {kernel : ItemSet} {j : Nat}
    (h : stateOf? kernels kernel = some j) : kernels.toList[j]? = some kernel := by
  obtain ⟨hj, hk, _⟩ := List.findIdx?_eq_some_iff_getElem.mp h
  rw [List.getElem?_eq_getElem hj]
  simpa using hk

/-- A kernel without a state is new. -/
theorem stateOf?_eq_none {kernels : Array ItemSet} {kernel : ItemSet}
    (h : stateOf? kernels kernel = none) : kernel ∉ kernels.toList := by
  intro hmem
  have := List.findIdx?_eq_none_iff.mp h kernel hmem
  simp at this

/-- **What looking at one state finds**: its edges, and new kernels after the known ones. -/
theorem successors_spec (items : ItemSet) (symbols : List GrammarSymbol)
    {kernels : Array ItemSet} (hnodup : kernels.toList.Nodup) :
    ∃ new, (successors items symbols kernels).2.toList = kernels.toList ++ new ∧
      (kernels.toList ++ new).Nodup ∧
      (∀ k ∈ new, k ≠ [] ∧ ∃ a, k = advanceOver a items) ∧
      Leaves (kernels.toList ++ new) items symbols (successors items symbols kernels).1 := by
  induction symbols generalizing kernels with
  | nil =>
    refine ⟨[], by simp [successors], by simpa using hnodup, by simp, ?_⟩
    constructor <;> simp [successors]
  | cons a symbols ih =>
    unfold successors
    -- a symbol leads nowhere, to a kernel that is known, or to a new one behind the others
    by_cases hempty : (advanceOver a items).isEmpty = true
    · simp only [hempty, if_true]
      obtain ⟨new, hnew, hnd, hk, hl⟩ := ih hnodup
      refine ⟨new, hnew, hnd, hk, hl.target, ?_, hl.names.trans (List.sublist_cons_self a symbols)⟩
      intro b hb hne
      rcases List.mem_cons.mp hb with rfl | hb
      · exact absurd (List.isEmpty_iff.mp hempty) hne
      · exact hl.complete b hb hne
    · have hne : advanceOver a items ≠ [] := fun h => hempty (List.isEmpty_iff.mpr h)
      simp only [hempty]
      cases hstate : stateOf? kernels (advanceOver a items) with
      | some j =>
        obtain ⟨new, hnew, hnd, hk, hl⟩ := ih hnodup
        refine ⟨new, hnew, hnd, hk, ?_, ?_, hl.names.cons_cons a⟩
        · intro b k hb
          rcases List.mem_cons.mp hb with hb | hb
          · obtain ⟨rfl, rfl⟩ := Prod.mk.inj hb
            have hj := stateOf?_eq_some hstate
            refine ⟨hne, ?_⟩
            rw [List.getElem?_append_left (List.getElem?_eq_some_iff.mp hj).1, hj]
          · exact hl.target b k hb
        · intro b hb hbne
          rcases List.mem_cons.mp hb with rfl | hb
          · exact ⟨j, by simp⟩
          · obtain ⟨k, hk⟩ := hl.complete b hb hbne
            exact ⟨k, List.mem_cons_of_mem _ hk⟩
      | none =>
        -- the kernel is new, so there is still none twice
        have hfresh : (kernels.push (advanceOver a items)).toList.Nodup := by
          rw [Array.toList_push]
          exact List.nodup_append.mpr ⟨hnodup, by simp, by
            intro k hk l hl
            obtain rfl := List.mem_singleton.mp hl
            exact fun h => stateOf?_eq_none hstate (h ▸ hk)⟩
        obtain ⟨new, hnew, hnd, hk, hl⟩ := ih hfresh
        rw [Array.toList_push, List.append_assoc] at hnew hnd hl
        refine ⟨advanceOver a items :: new, hnew, hnd, ?_, ?_, ?_, hl.names.cons_cons a⟩
        · intro k hkn
          rcases List.mem_cons.mp hkn with rfl | hkn
          · exact ⟨hne, a, rfl⟩
          · exact hk k hkn
        · intro b k hb
          rcases List.mem_cons.mp hb with hb | hb
          · obtain ⟨rfl, rfl⟩ := Prod.mk.inj hb
            exact ⟨hne, by simp⟩
          · exact hl.target b k hb
        · intro b hb hbne
          rcases List.mem_cons.mp hb with rfl | hb
          · exact ⟨kernels.size, by simp⟩
          · obtain ⟨k, hk⟩ := hl.complete b hb hbne
            exact ⟨k, List.mem_cons_of_mem _ hk⟩

/-! ## The whole collection -/

/-- **What holds of a collection in the making**: its kernels are different sets of items, only the
first holds an item whose dot has not moved, and the states looked at have all their edges. -/
structure Explored (g : RuleSet) (c : Collection) : Prop where
  start : c.kernels.toList[0]? = some [g.startItem]
  nodup : c.kernels.toList.Nodup
  itemSet : ∀ k ∈ c.kernels.toList, ItemSet.Of g k
  moved : ∀ (j : Nat) (k : ItemSet), 0 < j → c.kernels.toList[j]? = some k → ∀ i ∈ k, 0 < i.dot
  size_le : c.edges.size ≤ c.kernels.size
  leaves : ∀ (q : Nat) (edges : List (GrammarSymbol × Nat)), c.edges.toList[q]? = some edges →
    ∃ k, c.kernels.toList[q]? = some k ∧
    Leaves c.kernels.toList (g.closure k) g.symbols edges

/-- Before any state was looked at. -/
theorem explored_start (g : RuleSet) : Explored g ⟨#[[g.startItem]], #[]⟩ where
  start := rfl
  nodup := by simp
  itemSet := by
    intro k hk
    obtain rfl := List.mem_singleton.mp hk
    refine ⟨by simp [ItemSet.Ordered], ?_⟩
    intro i hi
    obtain rfl := List.mem_singleton.mp hi
    exact ⟨RuleSet.start_mem_rules, Nat.zero_le _⟩
  moved := by
    intro j k hj hk
    have := (List.getElem?_eq_some_iff.mp hk).1
    simp only [List.length_cons, List.length_nil] at this
    omega
  size_le := by simp
  leaves := by simp

/-- **Looking at one more state** keeps what holds of a collection. -/
theorem Explored.step (hg : g.Numbered) {c : Collection} (h : Explored g c) {kernel : ItemSet}
    (hkernel : c.kernels[c.edges.size]? = some kernel) :
    Explored g ⟨(successors (g.closure kernel) g.symbols c.kernels).2,
      c.edges.push (successors (g.closure kernel) g.symbols c.kernels).1⟩ := by
  obtain ⟨new, hnew, hnd, hk, hl⟩ := successors_spec (g.closure kernel) g.symbols h.nodup
  have hlist : c.kernels.toList[c.edges.size]? = some kernel := by simpa using hkernel
  have hof : ItemSet.Of g (g.closure kernel) :=
    RuleSet.of_closure hg (h.itemSet kernel (List.mem_of_getElem? hlist))
  have hlt : c.edges.size < c.kernels.size := by
    have := (List.getElem?_eq_some_iff.mp hlist).1
    simpa using this
  constructor
  · rw [hnew, List.getElem?_append_left (List.getElem?_eq_some_iff.mp h.start).1, h.start]
  · rw [hnew]
    exact hnd
  · intro k hkm
    rw [hnew] at hkm
    rcases List.mem_append.mp hkm with hkm | hkm
    · exact h.itemSet k hkm
    · obtain ⟨_, a, rfl⟩ := hk k hkm
      exact of_advanceOver hof
  · intro j k hj hkj i hi
    rw [hnew] at hkj
    -- old kernels keep their numbers, new ones hold items that were moved
    rcases Nat.lt_or_ge j c.kernels.toList.length with hold | hnewj
    · rw [List.getElem?_append_left hold] at hkj
      exact h.moved j k hj hkj i hi
    · rw [List.getElem?_append_right hnewj] at hkj
      obtain ⟨_, a, rfl⟩ := hk k (List.mem_of_getElem? hkj)
      obtain ⟨i', _, _, rfl⟩ := mem_advanceOver.mp hi
      simp [Item.advance]
  · have hsize : (successors (g.closure kernel) g.symbols c.kernels).2.size
        = c.kernels.size + new.length := by
      rw [← Array.length_toList, hnew, List.length_append, Array.length_toList]
    rw [Array.size_push, hsize]
    omega
  · intro q edges hq
    rw [Array.toList_push] at hq
    rw [hnew]
    -- edges of earlier states stay as they are; those of the present one were just made
    rcases Nat.lt_or_ge q c.edges.toList.length with hold | hlast
    · rw [List.getElem?_append_left hold] at hq
      obtain ⟨k, hkq, hleaves⟩ := h.leaves q edges hq
      refine ⟨k, ?_, hleaves.append new⟩
      rw [List.getElem?_append_left (List.getElem?_eq_some_iff.mp hkq).1, hkq]
    · rw [List.getElem?_append_right hlast] at hq
      obtain ⟨hq0, rfl⟩ := List.getElem?_eq_some_iff.mp hq
      have hqe : q = c.edges.size := by
        simp only [List.length_singleton, Array.length_toList] at hq0 hlast
        omega
      subst hqe
      refine ⟨kernel, ?_, by simpa using hl⟩
      rw [List.getElem?_append_left (by simpa using hlt), hlist]

/-- **Exploring comes to an end**: with enough rounds every state has been looked at. -/
theorem Explored.explore (hg : g.Numbered) {n : Nat} {c : Collection} (h : Explored g c)
    (hn : Nat.pow 2 g.itemCount ≤ c.edges.size + n) :
    Explored g (explore g n c) ∧ (Collection.explore g n c).edges.size
      = (Collection.explore g n c).kernels.size := by
  induction n generalizing c with
  | zero =>
    have hbound := RuleSet.length_le_two_pow h.nodup h.itemSet
    rw [Array.length_toList] at hbound
    exact ⟨h, Nat.le_antisymm h.size_le (hbound.trans hn)⟩
  | succ n ih =>
    rw [Collection.explore]
    cases hkernel : c.kernels[c.edges.size]? with
    | none =>
      exact ⟨h, Nat.le_antisymm h.size_le (Array.getElem?_eq_none_iff.mp hkernel)⟩
    | some kernel =>
      exact ih (h.step hg hkernel) (by rw [Array.size_push]; omega)

end Collection

namespace RuleSet

variable {g : RuleSet}

/-- What holds of the whole collection. -/
theorem explored_collection (hg : g.Numbered) : Collection.Explored g g.collection :=
  ((Collection.explored_start g).explore hg (by simp)).1

/-- **Every state of the collection has its edges.** -/
theorem edges_size_collection (hg : g.Numbered) :
    g.collection.edges.size = g.collection.kernels.size :=
  ((Collection.explored_start g).explore hg (by simp)).2

/-- A state has the edges that its kernel leads to. -/
theorem leaves_collection (hg : g.Numbered) {q : Nat} {k : ItemSet}
    {edges : List (GrammarSymbol × Nat)} (hk : g.collection.kernels.toList[q]? = some k)
    (hedges : g.collection.edges.toList[q]? = some edges) :
    Collection.Leaves g.collection.kernels.toList (g.closure k) g.symbols edges := by
  obtain ⟨k', hk', hleaves⟩ := (explored_collection hg).leaves q edges hedges
  obtain rfl := Option.some.inj (hk.symm.trans hk')
  exact hleaves

/-- **The items of a state.** -/
def itemsAt (g : RuleSet) (q : Nat) : ItemSet :=
  match g.collection.kernels.toList[q]? with
  | some kernel => g.closure kernel
  | none => []

/-- **The edges of a state.** -/
def edgesAt (g : RuleSet) (q : Nat) : List (GrammarSymbol × Nat) :=
  g.collection.edges.toList[q]?.getD []

/-- The items of a state are the closure of its kernel. -/
theorem itemsAt_eq {q : Nat} {kernel : ItemSet}
    (h : g.collection.kernels.toList[q]? = some kernel) : g.itemsAt q = g.closure kernel := by
  rw [itemsAt, h]

/-- A state with items has a kernel. -/
theorem exists_kernel {q : Nat} {i : Item} (h : i ∈ g.itemsAt q) :
    ∃ kernel, g.collection.kernels.toList[q]? = some kernel := by
  unfold itemsAt at h
  split at h
  · next kernel hk => exact ⟨kernel, hk⟩
  · simp at h

/-- The items of a state are items of the grammar. -/
theorem of_itemsAt (hg : g.Numbered) {q : Nat} {i : Item} (h : i ∈ g.itemsAt q) : i.Of g := by
  obtain ⟨kernel, hk⟩ := exists_kernel h
  rw [itemsAt_eq hk] at h
  exact (of_closure hg ((explored_collection hg).itemSet _ (List.mem_of_getElem? hk))).item i h

/-- The items of a state, by its kernel. -/
theorem mem_itemsAt (hg : g.Numbered) {q : Nat} {kernel : ItemSet} {i : Item}
    (hk : g.collection.kernels.toList[q]? = some kernel) :
    i ∈ g.itemsAt q ↔ g.InClosure kernel i := by
  rw [itemsAt_eq hk,
    mem_closure hg ((explored_collection hg).itemSet _ (List.mem_of_getElem? hk)).toOver]

/-- The first state begins with the start rule. -/
theorem startItem_mem_itemsAt (hg : g.Numbered) : g.startItem ∈ g.itemsAt 0 :=
  (mem_itemsAt hg (explored_collection hg).start).mpr (.kernel (by simp))

/-- **With an item that expects a nonterminal come the items that begin its rules.** -/
theorem ofRule_mem_itemsAt (hg : g.Numbered) {q : Nat} {i : Item} {r : Rule}
    (hi : i ∈ g.itemsAt q) (hr : r ∈ g.rules) (hnext : i.next? = some r.left) :
    .ofRule r ∈ g.itemsAt q := by
  obtain ⟨kernel, hk⟩ := exists_kernel hi
  exact (mem_itemsAt hg hk).mpr (.expected ((mem_itemsAt hg hk).mp hi) hr hnext)

/-- **Where an item that has seen nothing comes from**: it is the start, or expected. -/
theorem expected_of_dot_eq_zero (hg : g.Numbered) {q : Nat} {i : Item} (hi : i ∈ g.itemsAt q)
    (hdot : i.dot = 0) :
    q = 0 ∧ i = g.startItem ∨ ∃ j ∈ g.itemsAt q, j.next? = some i.rule.left := by
  obtain ⟨kernel, hk⟩ := exists_kernel hi
  cases (mem_itemsAt hg hk).mp hi with
  | kernel hmem =>
    left
    have hq : q = 0 := by
      by_contra hne
      have := (explored_collection hg).moved q kernel (Nat.pos_of_ne_zero hne) hk i hmem
      omega
    subst hq
    rw [(explored_collection hg).start] at hk
    obtain rfl := Option.some.inj hk
    exact ⟨rfl, List.mem_singleton.mp hmem⟩
  | expected hj hr hnext => exact .inr ⟨_, (mem_itemsAt hg hk).mpr hj, hnext⟩

/-- In the first state nothing has been seen. -/
theorem dot_eq_zero_of_mem_itemsAt_zero (hg : g.Numbered) {i : Item} (hi : i ∈ g.itemsAt 0) :
    i.dot = 0 := by
  cases (mem_itemsAt hg (explored_collection hg).start).mp hi with
  | kernel hmem => rw [List.mem_singleton.mp hmem]; rfl
  | expected => rfl

/-- The edges of a state and the kernels they lead to. -/
theorem edgesAt_spec (hg : g.Numbered) {q : Nat} {kernel : ItemSet}
    (hk : g.collection.kernels.toList[q]? = some kernel) :
    g.collection.edges.toList[q]? = some (g.edgesAt q) ∧
      Collection.Leaves g.collection.kernels.toList (g.itemsAt q) g.symbols (g.edgesAt q) := by
  have hlt : q < g.collection.edges.toList.length := by
    have := (List.getElem?_eq_some_iff.mp hk).1
    rw [Array.length_toList] at this ⊢
    rw [edges_size_collection hg]
    exact this
  have hedges := List.getElem?_eq_getElem hlt
  rw [edgesAt, hedges, itemsAt_eq hk]
  exact ⟨rfl, leaves_collection hg hk hedges⟩

/-- A state with an edge has a kernel. -/
theorem exists_kernel_of_edge (hg : g.Numbered) {q j : Nat} {a : GrammarSymbol}
    (h : (a, j) ∈ g.edgesAt q) : ∃ kernel, g.collection.kernels.toList[q]? = some kernel := by
  unfold edgesAt at h
  cases he : g.collection.edges.toList[q]? with
  | none => simp [he] at h
  | some edges =>
    obtain ⟨k, hk, _⟩ := (explored_collection hg).leaves q edges he
    exact ⟨k, hk⟩

/-- **What an edge makes of the items of a state**: the moved items behind it are the items before
it that expected its symbol. -/
theorem mem_itemsAt_of_edge (hg : g.Numbered) {q q' : Nat} {a : GrammarSymbol} {j : Item}
    (h : (a, q') ∈ g.edgesAt q) :
    j ∈ g.itemsAt q' ∧ 0 < j.dot ↔ ∃ i ∈ g.itemsAt q, i.next? = some a ∧ i.advance = j := by
  obtain ⟨kernel, hk⟩ := exists_kernel_of_edge hg h
  obtain ⟨_, htarget⟩ := (edgesAt_spec hg hk).2.target a q' h
  rw [← mem_advanceOver]
  constructor
  · rintro ⟨hj, hdot⟩
    cases (mem_itemsAt hg htarget).mp hj with
    | kernel hmem => exact hmem
    | expected => simp [Item.ofRule] at hdot
  · intro hj
    refine ⟨(mem_itemsAt hg htarget).mpr (.kernel hj), ?_⟩
    obtain ⟨i, _, _, rfl⟩ := mem_advanceOver.mp hj
    exact Nat.succ_pos _

/-- An edge has an item that expects its symbol. -/
theorem exists_item_of_edge (hg : g.Numbered) {q q' : Nat} {a : GrammarSymbol}
    (h : (a, q') ∈ g.edgesAt q) : ∃ i ∈ g.itemsAt q, i.next? = some a := by
  obtain ⟨kernel, hk⟩ := exists_kernel_of_edge hg h
  obtain ⟨hne, _⟩ := (edgesAt_spec hg hk).2.target a q' h
  obtain ⟨j, hj⟩ := List.exists_mem_of_ne_nil _ hne
  obtain ⟨i, hi, hnext, _⟩ := mem_advanceOver.mp hj
  exact ⟨i, hi, hnext⟩

/-- **An item that expects a symbol has an edge over it.** -/
theorem exists_edge_of_next? (hg : g.Numbered) {q : Nat} {i : Item} {a : GrammarSymbol}
    (hi : i ∈ g.itemsAt q) (hnext : i.next? = some a) : ∃ q', (a, q') ∈ g.edgesAt q := by
  obtain ⟨kernel, hk⟩ := exists_kernel hi
  refine (edgesAt_spec hg hk).2.complete a ?_ ?_
  · refine mem_symbols_of_mem_right (of_itemsAt hg hi).rule_mem ?_
    exact List.mem_of_getElem? hnext
  · exact List.ne_nil_of_mem (mem_advanceOver.mpr ⟨i, hi, hnext, rfl⟩)

/-- Over one symbol there is one edge. -/
theorem edge_unique (hg : g.Numbered) {q j k : Nat} {a : GrammarSymbol}
    (hj : (a, j) ∈ g.edgesAt q) (hk : (a, k) ∈ g.edgesAt q) : j = k := by
  obtain ⟨kernel, hq⟩ := exists_kernel_of_edge hg hj
  obtain ⟨_, htj⟩ := (edgesAt_spec hg hq).2.target a j hj
  obtain ⟨_, htk⟩ := (edgesAt_spec hg hq).2.target a k hk
  obtain ⟨hlj, hej⟩ := List.getElem?_eq_some_iff.mp htj
  obtain ⟨hlk, hek⟩ := List.getElem?_eq_some_iff.mp htk
  exact ((explored_collection hg).nodup.getElem_inj_iff).mp (hej.trans hek.symm)

end RuleSet

end Mgol
