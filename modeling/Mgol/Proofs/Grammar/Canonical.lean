import Mathlib.Logic.Relation
import Mathlib.Order.CompleteLattice.Basic
import Mgol.Proofs.Grammar.Collection
import Mgol.Proofs.Grammar.Fixpoints

/-! # The collection is the canonical one

What is built is compared with what the sets of items are in themselves: the least closed set above
a kernel, and the kernels that gotos lead to from the start. Two loops build it, one inside the
other, over lists that grow while they are worked off; both end, also if nobody counts the rounds.

* **`RuleSet.ItemClosed`, `RuleSet.isLeast_closure`** — the closure is the least closed set.
* **`Closing.look`, `Closing.loopsTo_closure`** — the loop over the items of one state.
* **`Collection.look`, `RuleSet.loopsTo_collection`** — the loop over the states.
* **`Collection.Canonical`, `RuleSet.canonical_collection`** — kernels and edges by gotos.
* **`RuleSet.closure_least_collection_canonical`** — all of it, for every rule set. -/

namespace Mgol

/-! ## Least closed sets and gotos -/

namespace ItemSet

variable {g : RuleSet} {k l : ItemSet}

/-- The items of a list. -/
def toSet (k : ItemSet) : Set Item := {i | i ∈ k}

@[simp] theorem mem_toSet {i : Item} : i ∈ k.toSet ↔ i ∈ k := Iff.rfl

@[simp] theorem toSet_singleton {i : Item} : toSet [i] = {i} := by
  ext j
  simp

@[simp] theorem toSet_nonempty_iff : k.toSet.Nonempty ↔ k ≠ [] :=
  ⟨fun ⟨_, hi⟩ => List.ne_nil_of_mem hi, List.exists_mem_of_ne_nil k⟩

/-- Sets of items in their order are known by their items. -/
theorem Over.eq_of_toSet (hk : k.Over g) (hl : l.Over g) (h : k.toSet = l.toSet) : k = l :=
  hk.ordered.ext hl.ordered fun i => by rw [← mem_toSet, h, mem_toSet]

end ItemSet

namespace RuleSet

variable {g : RuleSet} {kernel : ItemSet}

/-- **Items that miss none they expect**: with an item that has a nonterminal after its dot come the
beginnings of the rules for it. -/
def ItemClosed (g : RuleSet) (s : Set Item) : Prop :=
  ∀ i ∈ s, ∀ r ∈ g.rules, i.next? = some r.left → Item.ofRule r ∈ s

/-- The least closed set of items above given ones. -/
def leastClosed (g : RuleSet) (s : Set Item) : Set Item := ⋂₀ {t | s ⊆ t ∧ g.ItemClosed t}

/-- **The goto** of some items over a symbol: the items of the least closed set above them that
expect the symbol, after it. -/
def gotoSet (g : RuleSet) (a : GrammarSymbol) (s : Set Item) : Set Item :=
  {j | ∃ i ∈ g.leastClosed s, i.next? = some a ∧ i.advance = j}

/-- **Sets of items that gotos lead to** from the start. -/
def Reached (g : RuleSet) : Set Item → Prop :=
  Relation.ReflTransGen (fun s t => ∃ a, g.gotoSet a s = t) {g.startItem}

/-- What is in the closure of a kernel is in every closed set above it. -/
theorem InClosure.mem_of_closed {i : Item} {s : Set Item} (h : g.InClosure kernel i)
    (hkernel : kernel.toSet ⊆ s) (hclosed : g.ItemClosed s) : i ∈ s := by
  induction h with
  | kernel hi => exact hkernel hi
  | expected _ hr hnext ih => exact hclosed _ ih _ hr hnext

/-- **The closure is the least closed set** above its kernel. -/
theorem isLeast_closure (hg : g.Numbered) (h : kernel.Over g) :
    IsLeast {s | kernel.toSet ⊆ s ∧ g.ItemClosed s} (ItemSet.toSet (g.closure kernel)) := by
  refine ⟨⟨fun i hi => (mem_closure hg h).mpr (.kernel hi), fun i hi r hr hnext => ?_⟩, ?_⟩
  · exact (mem_closure hg h).mpr (.expected ((mem_closure hg h).mp hi) hr hnext)
  · exact fun s hs i hi => ((mem_closure hg h).mp hi).mem_of_closed hs.1 hs.2

/-- What the closure holds, as a set. -/
theorem toSet_closure (hg : g.Numbered) (h : kernel.Over g) :
    ItemSet.toSet (g.closure kernel) = g.leastClosed kernel.toSet :=
  (isLeast_closure hg h).isGLB.sInf_eq.symm

/-- What advancing over a symbol makes of a closure is the goto of its kernel. -/
theorem toSet_advanceOver (hg : g.Numbered) (h : kernel.Over g) (a : GrammarSymbol) :
    ItemSet.toSet (advanceOver a (g.closure kernel)) = g.gotoSet a kernel.toSet := by
  ext j
  rw [ItemSet.mem_toSet, mem_advanceOver, gotoSet, ← toSet_closure hg h]
  rfl

/-- Nothing leads nowhere. -/
theorem gotoSet_empty (a : GrammarSymbol) : g.gotoSet a ∅ = ∅ := by
  have hempty : g.leastClosed ∅ = ∅ :=
    Set.subset_empty_iff.mp (Set.sInter_subset_of_mem ⟨Set.Subset.rfl, fun i hi => hi.elim⟩)
  rw [gotoSet, hempty]
  exact Set.eq_empty_of_forall_notMem fun j hj => hj.choose_spec.1.elim

end RuleSet

/-! ## The loop over the items of a state -/

/-- **A closure in the making**: the items found, and those that nobody has looked at, the last one
found first. -/
structure Closing where
  items : ItemSet
  pending : List Item

namespace Closing

variable {g : RuleSet} {kernel : ItemSet} {c d e : Closing} {r : Rule} {rules rules' : List Rule}

/-- Finds the beginning of a rule, unless it was found before. -/
def add (c : Closing) (r : Rule) : Closing :=
  if Item.ofRule r ∈ c.items then c
  else ⟨(Item.ofRule r).insert c.items, .ofRule r :: c.pending⟩

/-- **Looks at one item**: the beginnings of the rules for the symbol that it expects are found. -/
def look (g : RuleSet) (c : Closing) : Closing :=
  match c.pending with
  | [] => c
  | i :: pending =>
    (g.rules.filter fun r => i.next? = some r.left).foldl add ⟨c.items, pending⟩

/-- How many items there are still to find or to look at. -/
def workLeft (g : RuleSet) (c : Closing) : Nat :=
  {r ∈ g.rules.toFinset | Item.ofRule r ∉ c.items}.card + c.pending.length

/-- **What rules add** to a closure in the making: their beginnings, and the new ones are to be
looked at. -/
structure Adds (g : RuleSet) (rules : List Rule) (c d : Closing) : Prop where
  items_over : d.items.Over g
  mem_items : ∀ i, i ∈ d.items ↔ i ∈ c.items ∨ ∃ r ∈ rules, i = .ofRule r
  mem_pending : ∀ i, i ∈ d.pending ↔ i ∈ c.pending ∨ i ∈ d.items ∧ i ∉ c.items
  workLeft_le : d.workLeft g ≤ c.workLeft g

/-- What rules add in two parts. -/
theorem Adds.trans (h : Adds g rules c d) (h' : Adds g rules' d e) :
    Adds g (rules ++ rules') c e where
  items_over := h'.items_over
  mem_items i := by
    rw [h'.mem_items, h.mem_items]
    simp only [List.mem_append, or_and_right, exists_or, or_assoc]
  mem_pending i := by
    have hitems := h.mem_items i
    have hitems' := h'.mem_items i
    rw [h'.mem_pending, h.mem_pending]
    tauto
  workLeft_le := h'.workLeft_le.trans h.workLeft_le

/-- An item that is found leaves one less to find. -/
theorem card_insert_lt (hg : g.Numbered) (hc : c.items.Over g) (hr : r ∈ g.rules)
    (hnew : Item.ofRule r ∉ c.items) :
    {s ∈ g.rules.toFinset | Item.ofRule s ∉ (Item.ofRule r).insert c.items}.card <
      {s ∈ g.rules.toFinset | Item.ofRule s ∉ c.items}.card := by
  refine Finset.card_lt_card (Finset.ssubset_iff_of_subset ?_ |>.mpr ⟨r, ?_, ?_⟩)
  · refine Finset.monotone_filter_right _ fun s _ hs hmem => hs ?_
    exact (hc.mem_insert_ofRule hg hr).mpr (.inr hmem)
  · simp [hr, hnew]
  · simp [hc.mem_insert_ofRule hg hr]

/-- What one rule adds. -/
theorem adds_add (hg : g.Numbered) (hc : c.items.Over g) (hr : r ∈ g.rules) :
    Adds g [r] c (c.add r) := by
  unfold add
  split
  · next hfound =>
    refine ⟨hc, fun i => ?_, fun i => by simp, Nat.le_refl _⟩
    simp only [List.mem_singleton, exists_eq_left, iff_self_or]
    rintro rfl
    exact hfound
  · next hnew =>
    refine ⟨hc.insert_ofRule hg hr, fun i => ?_, fun i => ?_, ?_⟩
    · rw [hc.mem_insert_ofRule hg hr]
      simp only [List.mem_singleton, exists_eq_left, or_comm]
    · rw [hc.mem_insert_ofRule hg hr, List.mem_cons]
      constructor
      · rintro (rfl | hi)
        · exact .inr ⟨.inl rfl, hnew⟩
        · exact .inl hi
      · rintro (hi | ⟨rfl | hi, hnot⟩)
        · exact .inr hi
        · exact .inl rfl
        · exact absurd hi hnot
    · have := card_insert_lt hg hc hr hnew
      simp only [workLeft, List.length_cons]
      omega

/-- What several rules add. -/
theorem adds_foldl (hg : g.Numbered) (hrules : rules ⊆ g.rules) (hc : c.items.Over g) :
    Adds g rules c (rules.foldl add c) := by
  induction rules generalizing c with
  | nil => exact ⟨hc, by simp, by simp, Nat.le_refl _⟩
  | cons r rules ih =>
    obtain ⟨hr, hrest⟩ := List.cons_subset.mp hrules
    have hadd := adds_add hg hc hr
    exact hadd.trans (ih hrest hadd.items_over)

/-- **What holds of a closure in the making**: the kernel was found and nothing outside its closure,
and what an item expects was found, unless the item is still to be looked at. -/
structure Grown (g : RuleSet) (kernel : ItemSet) (c : Closing) : Prop where
  items_over : c.items.Over g
  kernel_mem : ∀ i ∈ kernel, i ∈ c.items
  found : ∀ i ∈ c.items, g.InClosure kernel i
  pending_mem : ∀ i ∈ c.pending, i ∈ c.items
  served : ∀ i ∈ c.items, i ∈ c.pending ∨
    ∀ r ∈ g.rules, i.next? = some r.left → Item.ofRule r ∈ c.items

/-- At first the whole kernel is to be looked at. -/
theorem grown_start (h : kernel.Over g) : Grown g kernel ⟨kernel, kernel.reverse⟩ where
  items_over := h
  kernel_mem _ hi := hi
  found _ hi := .kernel hi
  pending_mem _ hi := List.mem_reverse.mp hi
  served _ hi := .inl (List.mem_reverse.mpr hi)

/-- What looking at an item adds: the beginnings of the rules for the symbol that it expects. -/
theorem adds_look (hg : g.Numbered) (hc : c.items.Over g) {i : Item} {pending : List Item}
    (hpending : c.pending = i :: pending) :
    Adds g (g.rules.filter fun r => i.next? = some r.left) ⟨c.items, pending⟩ (c.look g) := by
  rw [look, hpending]
  exact adds_foldl hg (fun r hr => List.mem_of_mem_filter hr) hc

/-- **Looking at one item** keeps what holds of a closure in the making. -/
theorem Grown.look (hg : g.Numbered) (h : Grown g kernel c) {i : Item} {pending : List Item}
    (hpending : c.pending = i :: pending) : Grown g kernel (c.look g) := by
  have hadds := adds_look hg h.items_over hpending
  have mem_expected : ∀ r, r ∈ g.rules.filter (fun r => decide (i.next? = some r.left)) ↔
      r ∈ g.rules ∧ i.next? = some r.left := by simp
  have keeps : ∀ j ∈ c.items, j ∈ (c.look g).items := fun j hj =>
    (hadds.mem_items j).mpr (.inl hj)
  refine ⟨hadds.items_over, fun j hj => keeps j (h.kernel_mem j hj), ?found, ?pending, ?served⟩
  case found =>
    intro j hj
    rcases (hadds.mem_items j).mp hj with hj | ⟨r, hr, rfl⟩
    · exact h.found j hj
    · obtain ⟨hr, hnext⟩ := (mem_expected r).mp hr
      exact .expected (h.found i (h.pending_mem i (by simp [hpending]))) hr hnext
  case pending =>
    intro j hj
    rcases (hadds.mem_pending j).mp hj with hj | ⟨hj, -⟩
    · exact keeps j (h.pending_mem j (by simp [hpending, hj]))
    · exact hj
  case served =>
    intro j hj
    -- the item looked at is served now, the others as before; new ones are pending
    by_cases hold : j ∈ c.items
    · rcases h.served j hold with hwaits | hserved
      · rw [hpending, List.mem_cons] at hwaits
        rcases hwaits with rfl | hwaits
        · exact .inr fun r hr hnext =>
            (hadds.mem_items _).mpr (.inr ⟨r, (mem_expected r).mpr ⟨hr, hnext⟩, rfl⟩)
        · exact .inl ((hadds.mem_pending j).mpr (.inl hwaits))
      · exact .inr fun r hr hnext => keeps _ (hserved r hr hnext)
    · exact .inl ((hadds.mem_pending j).mpr (.inr ⟨hj, hold⟩))

/-- **Looking at one item** leaves less to do. -/
theorem workLeft_look_lt (hg : g.Numbered) (hc : c.items.Over g) {i : Item} {pending : List Item}
    (hpending : c.pending = i :: pending) : (c.look g).workLeft g < c.workLeft g := by
  refine Nat.lt_of_le_of_lt (adds_look hg hc hpending).workLeft_le ?_
  simp only [workLeft, hpending, List.length_cons]
  omega

/-- When nothing is left to look at, the closure is complete. -/
theorem Grown.eq_closure (hg : g.Numbered) (hkernel : kernel.Over g) (h : Grown g kernel c)
    (hpending : c.pending = []) : c = ⟨g.closure kernel, []⟩ := by
  have hitems : c.items = g.closure kernel := by
    refine h.items_over.ordered.ext (RuleSet.over_closure hg hkernel).ordered fun i => ?_
    rw [RuleSet.mem_closure hg hkernel]
    refine ⟨h.found i, fun hi => ?_⟩
    induction hi with
    | kernel hi => exact h.kernel_mem _ hi
    | @expected j r _ hr hnext ih =>
      rcases h.served j ih with hwaits | hserved
      · simp [hpending] at hwaits
      · exact hserved r hr hnext
  rw [← hitems, ← hpending]

/-- From every closure in the making the loop ends with the closure. -/
theorem Grown.loopsTo (hg : g.Numbered) (hkernel : kernel.Over g) (h : Grown g kernel c) :
    LoopsTo (Closing.look g) c ⟨g.closure kernel, []⟩ := by
  induction hn : c.workLeft g using Nat.strong_induction_on generalizing c with
  | _ n ih =>
    cases hpending : c.pending with
    | nil =>
      obtain rfl := h.eq_closure hg hkernel hpending
      exact .rest rfl
    | cons i pending =>
      have hless := workLeft_look_lt hg h.items_over hpending
      refine .round (fun hsame => ?_) (ih _ (hn ▸ hless) (h.look hg hpending) rfl)
      rw [hsame] at hless
      exact Nat.lt_irrefl _ hless

/-- **The loop over the items of a state ends with the closure**, and in no other way. -/
theorem loopsTo_closure (hg : g.Numbered) (hkernel : kernel.Over g) :
    LoopsTo (Closing.look g) ⟨kernel, kernel.reverse⟩ c ↔ c = ⟨g.closure kernel, []⟩ :=
  ((grown_start hkernel).loopsTo hg hkernel).iff_eq

end Closing

/-! ## The loop over the states -/

namespace Collection

variable {g : RuleSet} {c : Collection}

/-- **Looks at one state**: the kernels that it leads to are found, unless they were before. -/
def look (g : RuleSet) (c : Collection) : Collection :=
  match c.kernels[c.edges.size]? with
  | none => c
  | some kernel =>
    let (edges, kernels) := successors (g.closure kernel) g.symbols c.kernels
    ⟨kernels, c.edges.push edges⟩

/-- What looking at a state gives. -/
theorem look_of_kernel {kernel : ItemSet} (h : c.kernels[c.edges.size]? = some kernel) :
    look g c = ⟨(successors (g.closure kernel) g.symbols c.kernels).2,
      c.edges.push (successors (g.closure kernel) g.symbols c.kernels).1⟩ := by
  rw [look, h]

/-- Nothing changes when every state has been looked at. -/
theorem look_of_none (h : c.kernels[c.edges.size]? = none) : look g c = c := by
  rw [look, h]

/-- If counted rounds look at every state, then the loop that does not count them ends there. -/
theorem loopsTo_explore {n : Nat}
    (h : (explore g n c).edges.size = (explore g n c).kernels.size) :
    LoopsTo (look g) c (explore g n c) := by
  induction n generalizing c with
  | zero => exact .rest (look_of_none (Array.getElem?_eq_none_iff.mpr h.ge))
  | succ n ih =>
    rw [explore] at h ⊢
    cases hkernel : c.kernels[c.edges.size]? with
    | none => exact .rest (look_of_none hkernel)
    | some kernel =>
      simp only [hkernel] at h
      have hlook := look_of_kernel (g := g) hkernel
      refine .round (fun hsame => ?_) (hlook ▸ ih h)
      -- a round gives one more state its edges
      have hsize := congrArg (fun c => c.edges.size) (hlook.symm.trans hsame)
      simp only [Array.size_push] at hsize
      omega

/-! ## Kernels by gotos -/

/-- **What the kernels of a collection are**: sets of items, none of them empty, that gotos lead to
from the start. -/
structure Sound (g : RuleSet) (c : Collection) : Prop where
  explored : Explored g c
  reached : ∀ k ∈ c.kernels.toList, k ≠ [] ∧ g.Reached k.toSet

/-- Before any state was looked at there is the start. -/
theorem sound_start (g : RuleSet) : Sound g ⟨#[[g.startItem]], #[]⟩ where
  explored := explored_start g
  reached := by
    intro k hk
    obtain rfl := List.mem_singleton.mp hk
    rw [ItemSet.toSet_singleton]
    exact ⟨List.cons_ne_nil _ _, .refl⟩

/-- **Looking at a state** finds only what a goto leads to. -/
theorem Sound.look (hg : g.Numbered) (h : Sound g c) : Sound g (look g c) := by
  cases hkernel : c.kernels[c.edges.size]? with
  | none => rwa [look_of_none hkernel]
  | some kernel =>
    rw [look_of_kernel hkernel]
    refine ⟨h.explored.step hg hkernel, fun k hk => ?_⟩
    have hmem : kernel ∈ c.kernels.toList :=
      Array.mem_toList_iff.mpr (Array.mem_of_getElem? hkernel)
    obtain ⟨new, hnew, -, hfound, -⟩ :=
      successors_spec (g.closure kernel) g.symbols h.explored.nodup
    rw [hnew, List.mem_append] at hk
    rcases hk with hk | hk
    · exact h.reached k hk
    · obtain ⟨hne, a, rfl⟩ := hfound k hk
      refine ⟨hne, (h.reached kernel hmem).2.tail ⟨a, ?_⟩⟩
      exact (RuleSet.toSet_advanceOver hg (h.explored.itemSet kernel hmem).toOver a).symm

/-- **The canonical collection.** The start item alone is the first kernel. The kernels are
different sets, and they are the nonempty ones that gotos lead to. Every state has its edges: over a
symbol whose goto is not empty there is exactly one, to the state with that goto, and there are no
more. -/
structure Canonical (g : RuleSet) (c : Collection) : Prop where
  start : c.kernels[0]? = some [g.startItem]
  kernels_over : ∀ k ∈ c.kernels, k.Over g
  distinct : ∀ (i j : Nat) (k l : ItemSet), c.kernels[i]? = some k → c.kernels[j]? = some l →
    k.toSet = l.toSet → i = j
  reached : ∀ s, (∃ k ∈ c.kernels, k.toSet = s) ↔ s.Nonempty ∧ g.Reached s
  rows : c.edges.size = c.kernels.size
  edge : ∀ (i : Nat) (k : ItemSet) (edges : List (GrammarSymbol × Nat)),
    c.kernels[i]? = some k → c.edges[i]? = some edges →
    ∀ a, (g.gotoSet a k.toSet).Nonempty → (edges.map Prod.fst).count a = 1 ∧
      ∃ j l, (a, j) ∈ edges ∧ c.kernels[j]? = some l ∧ l.toSet = g.gotoSet a k.toSet
  no_other : ∀ (i : Nat) (k : ItemSet) (edges : List (GrammarSymbol × Nat)),
    c.kernels[i]? = some k → c.edges[i]? = some edges →
    ∀ a j, (a, j) ∈ edges → (g.gotoSet a k.toSet).Nonempty

end Collection

namespace RuleSet

variable {g : RuleSet}

/-- **The loop over the states ends with the collection**, and in no other way. -/
theorem loopsTo_collection (hg : g.Numbered) {c : Collection} :
    LoopsTo (Collection.look g) ⟨#[[g.startItem]], #[]⟩ c ↔ c = g.collection :=
  (Collection.loopsTo_explore (edges_size_collection hg)).iff_eq

/-- The kernels of the collection are sound. -/
theorem sound_collection (hg : g.Numbered) : Collection.Sound g g.collection :=
  ((loopsTo_collection hg).mpr rfl).keeps (fun _ => .look hg) (Collection.sound_start g)

/-- The kernels of the collection are items of the rules. -/
theorem over_kernel (hg : g.Numbered) {k : ItemSet} (hk : k ∈ g.collection.kernels.toList) :
    k.Over g :=
  ((explored_collection hg).itemSet k hk).toOver

/-- A symbol with a goto is a symbol of the grammar. -/
theorem mem_symbols_of_advanceOver (hg : g.Numbered) {k : ItemSet} (hk : k.Over g)
    {a : GrammarSymbol} (h : advanceOver a (g.closure k) ≠ []) : a ∈ g.symbols := by
  obtain ⟨j, hj⟩ := List.exists_mem_of_ne_nil _ h
  obtain ⟨i, hi, hnext, -⟩ := mem_advanceOver.mp hj
  exact mem_symbols_of_mem_right ((over_closure hg hk).rule_mem i hi) (List.mem_of_getElem? hnext)

/-- **Over a symbol with a goto there is one edge**, and it leads to the state with that goto. -/
theorem edge_of_gotoSet (hg : g.Numbered) {q : Nat} {k : ItemSet}
    {edges : List (GrammarSymbol × Nat)} (hk : g.collection.kernels.toList[q]? = some k)
    (hedges : g.collection.edges.toList[q]? = some edges) {a : GrammarSymbol}
    (hgoto : (g.gotoSet a k.toSet).Nonempty) :
    (edges.map Prod.fst).count a = 1 ∧
      ∃ j l, (a, j) ∈ edges ∧ g.collection.kernels.toList[j]? = some l ∧
        l.toSet = g.gotoSet a k.toSet := by
  have hover := over_kernel hg (List.mem_of_getElem? hk)
  have hleaves := leaves_collection hg hk hedges
  rw [← toSet_advanceOver hg hover, ItemSet.toSet_nonempty_iff] at hgoto
  obtain ⟨j, hj⟩ := hleaves.complete a (mem_symbols_of_advanceOver hg hover hgoto) hgoto
  -- symbols are listed once, so there is no second edge over one
  have hnodup : (edges.map Prod.fst).Nodup := nodup_symbols.sublist hleaves.names
  exact ⟨List.count_eq_one_of_mem hnodup (List.mem_map.mpr ⟨_, hj, rfl⟩), j, _, hj,
    (hleaves.target a j hj).2, toSet_advanceOver hg hover a⟩

/-- Every edge is over a symbol with a goto. -/
theorem gotoSet_of_edge (hg : g.Numbered) {q j : Nat} {k : ItemSet}
    {edges : List (GrammarSymbol × Nat)} (hk : g.collection.kernels.toList[q]? = some k)
    (hedges : g.collection.edges.toList[q]? = some edges) {a : GrammarSymbol}
    (h : (a, j) ∈ edges) : (g.gotoSet a k.toSet).Nonempty := by
  rw [← toSet_advanceOver hg (over_kernel hg (List.mem_of_getElem? hk)),
    ItemSet.toSet_nonempty_iff]
  exact ((leaves_collection hg hk hedges).target a j h).1

/-- **Every set that gotos lead to is a kernel**, unless it is empty. -/
theorem exists_kernel_of_reached (hg : g.Numbered) {s : Set Item} (h : g.Reached s) :
    s = ∅ ∨ ∃ k ∈ g.collection.kernels.toList, k.toSet = s := by
  induction h with
  | refl =>
    exact .inr ⟨_, List.mem_of_getElem? (explored_collection hg).start, ItemSet.toSet_singleton⟩
  | tail _ hgoto ih =>
    obtain ⟨a, rfl⟩ := hgoto
    rcases ih with rfl | ⟨k, hk, rfl⟩
    · exact .inl (gotoSet_empty a)
    · refine (Set.eq_empty_or_nonempty _).imp_right fun hne => ?_
      obtain ⟨q, hq⟩ := List.mem_iff_getElem?.mp hk
      obtain ⟨-, j, l, -, hl, hgoto⟩ := edge_of_gotoSet hg hq (edgesAt_spec hg hq).1 hne
      exact ⟨l, List.mem_of_getElem? hl, hgoto⟩

/-- **The collection of a grammar is the canonical one.** -/
theorem canonical_collection (hg : g.Numbered) : g.collection.Canonical g where
  start := by rw [← Array.getElem?_toList, (explored_collection hg).start]
  kernels_over k hk := over_kernel hg (Array.mem_toList_iff.mpr hk)
  distinct i j k l hk hl hsame := by
    rw [← Array.getElem?_toList] at hk hl
    obtain rfl := (over_kernel hg (List.mem_of_getElem? hk)).eq_of_toSet
      (over_kernel hg (List.mem_of_getElem? hl)) hsame
    obtain ⟨hi, hki⟩ := List.getElem?_eq_some_iff.mp hk
    obtain ⟨hj, hkj⟩ := List.getElem?_eq_some_iff.mp hl
    exact (explored_collection hg).nodup.getElem_inj_iff.mp (hki.trans hkj.symm)
  reached s := by
    simp only [← Array.mem_toList_iff]
    constructor
    · rintro ⟨k, hk, rfl⟩
      obtain ⟨hne, hreached⟩ := (sound_collection hg).reached k hk
      exact ⟨ItemSet.toSet_nonempty_iff.mpr hne, hreached⟩
    · rintro ⟨hne, hreached⟩
      exact (exists_kernel_of_reached hg hreached).resolve_left hne.ne_empty
  rows := edges_size_collection hg
  edge q k edges hk hedges a hgoto := by
    simp only [← Array.getElem?_toList] at hk hedges ⊢
    exact edge_of_gotoSet hg hk hedges hgoto
  no_other q k edges hk hedges a j h := by
    rw [← Array.getElem?_toList] at hk hedges
    exact gotoSet_of_edge hg hk hedges h

/-- **The collection is built completely.** Take the rules that a rule set was made of. The closure
of every set of their items is the least closed set above it, and the loop that looks at one item
after the other ends with it. The loop that looks at one state after the other ends as well, with
the canonical collection: the start is its first kernel, its kernels are all the nonempty sets that
gotos lead to, each once, and its edges are the gotos. -/
theorem closure_least_collection_canonical {rules : List Rule} {origin : String}
    (hrules : ofRules rules origin = .ok g) :
    (∀ kernel : ItemSet, kernel.Over g →
      (g.closure kernel).Over g ∧
      IsLeast {s | kernel.toSet ⊆ s ∧ g.ItemClosed s} (ItemSet.toSet (g.closure kernel)) ∧
      ∀ c, LoopsTo (Closing.look g) ⟨kernel, kernel.reverse⟩ c ↔ c = ⟨g.closure kernel, []⟩) ∧
    (∀ c, LoopsTo (Collection.look g) ⟨#[[g.startItem]], #[]⟩ c ↔ c = g.collection) ∧
    g.collection.Canonical g := by
  have hg := numbered_of_ofRules hrules
  refine ⟨fun kernel hkernel => ⟨over_closure hg hkernel, isLeast_closure hg hkernel, fun c => ?_⟩,
    fun c => loopsTo_collection hg, canonical_collection hg⟩
  exact Closing.loopsTo_closure hg hkernel

/-- Lists in brackets, which may be empty and hold lists again. -/
def nestedRules : List Rule :=
  [⟨1, "S", ["L"]⟩, ⟨2, "L", ["L", "vir", "E"]⟩, ⟨3, "L", []⟩, ⟨4, "E", ["ab_p", "L", "fc_p"]⟩,
   ⟨5, "E", ["id"]⟩]

/-- Nested lists: behind an opening bracket a list is expected, and a state that has seen a list in
brackets is reached. An item whose dot stands nowhere in its rule expects nothing. -/
theorem closure_least_collection_canonical_nested :
    ∃ g, ofRules nestedRules "nested" = .ok g ∧
      let kernel : ItemSet := [⟨⟨4, "E", ["ab_p", "L", "fc_p"]⟩, 1⟩, ⟨⟨5, "E", ["id"]⟩, 7⟩]
      let items : ItemSet := [⟨⟨2, "L", ["L", "vir", "E"]⟩, 0⟩, ⟨⟨3, "L", []⟩, 0⟩,
        ⟨⟨4, "E", ["ab_p", "L", "fc_p"]⟩, 1⟩, ⟨⟨5, "E", ["id"]⟩, 7⟩]
      kernel.Over g ∧ IsLeast {s | kernel.toSet ⊆ s ∧ g.ItemClosed s} items.toSet ∧
        LoopsTo (Closing.look g) ⟨kernel, kernel.reverse⟩ ⟨items, []⟩ ∧
        LoopsTo (Collection.look g) ⟨#[[g.startItem]], #[]⟩ g.collection ∧
        g.collection.kernels.size = 8 ∧ g.collection.Canonical g ∧
        g.Reached (ItemSet.toSet [⟨⟨2, "L", ["L", "vir", "E"]⟩, 1⟩,
          ⟨⟨4, "E", ["ab_p", "L", "fc_p"]⟩, 2⟩]) := by
  let g : RuleSet := ⟨⟨1, "S", ["L"]⟩, [⟨2, "L", ["L", "vir", "E"]⟩, ⟨3, "L", []⟩,
    ⟨4, "E", ["ab_p", "L", "fc_p"]⟩, ⟨5, "E", ["id"]⟩]⟩
  have hrules : ofRules nestedRules "nested" = .ok g := by rfl
  obtain ⟨hclosure, hloop, hcanonical⟩ := closure_least_collection_canonical hrules
  refine ⟨g, hrules, ?_⟩
  intro kernel items
  have hkernel : kernel.Over g := ⟨by decide, by decide⟩
  have hitems : g.closure kernel = items := by decide
  obtain ⟨-, hleast, hends⟩ := hclosure kernel hkernel
  rw [hitems] at hleast hends
  exact ⟨hkernel, hleast, (hends _).mpr rfl, (hloop _).mpr rfl, by decide +kernel, hcanonical,
    ((hcanonical.reached _).mp ⟨_, by decide +kernel, rfl⟩).2⟩

end RuleSet

end Mgol
