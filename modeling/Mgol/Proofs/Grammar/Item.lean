import Mathlib.Data.List.Nodup
import Mgol.Grammar.Item
import Mgol.Proofs.Grammar.Derivation

/-! # Items and their closure

Sets of items are kept in one order, so that equal sets are equal lists. The closure of a set is the
least set that has, with every item that expects a nonterminal, the items that begin its rules.

* **`RuleSet.Numbered`** — every rule has a number of its own, as the rules of `RuleSet.ofRules` do.
* **`ItemSet.Ordered`, `ItemSet.Over`** — the order in which the items of a set stand, and the sets
  of items of a grammar's rules.
* **`RuleSet.InClosure`, `RuleSet.mem_closure`** — what the closure holds. -/

namespace Mgol

/-! ## Numbers of rules -/

namespace RuleSet

variable {g : RuleSet}

/-- **Every rule has a number of its own.** -/
def Numbered (g : RuleSet) : Prop := (g.rules.map Rule.number).Nodup

/-- Rules that pass the check have numbers that differ from each other and from the earlier ones. -/
theorem nodup_of_firstFault? {rules : List Rule} {earlier : List Nat}
    (h : firstFault? earlier rules = none) :
    (rules.map Rule.number).Nodup ∧ ∀ r ∈ rules, r.number ∉ earlier := by
  induction rules generalizing earlier with
  | nil => simp
  | cons r rules ih =>
    unfold firstFault? at h
    cases hr : fault? earlier r with
    | some f => simp [hr] at h
    | none =>
      obtain ⟨hnodup, hlater⟩ := ih (by simpa [hr] using h)
      -- a number that came before would have been the fault
      have hnew : r.number ∉ earlier := by
        intro hmem
        unfold fault? at hr
        split at hr <;> simp_all
      refine ⟨List.nodup_cons.mpr ⟨?_, hnodup⟩, ?_⟩
      · intro hmem
        obtain ⟨s, hs, hsr⟩ := List.mem_map.mp hmem
        exact hlater s hs (by simp [hsr])
      · intro s hs
        rcases List.mem_cons.mp hs with rfl | hs
        · exact hnew
        · exact fun hmem => hlater s hs (List.mem_cons_of_mem _ hmem)

/-- **Rule sets that were let through are numbered.** -/
theorem numbered_of_ofRules {rules : List Rule} {origin : String}
    (h : ofRules rules origin = .ok g) : g.Numbered := by
  unfold ofRules at h
  split at h
  · exact absurd h (by simp)
  · split at h
    · exact absurd h (by simp)
    · next start others _ hfault =>
      obtain rfl := Except.ok.inj h
      exact (nodup_of_firstFault? hfault).1

/-- Rules with the same number are the same. -/
theorem Numbered.eq_of_number (hg : g.Numbered) {r s : Rule} (hr : r ∈ g.rules)
    (hs : s ∈ g.rules) (h : r.number = s.number) : r = s :=
  List.inj_on_of_nodup_map hg hr hs h

/-- A rule is found under its number. -/
theorem Numbered.get?_number (hg : g.Numbered) {r : Rule} (hr : r ∈ g.rules) :
    g.get? r.number = some r := by
  unfold get?
  cases hfind : g.rules.find? fun s => s.number = r.number with
  | none =>
    have := List.find?_eq_none.mp hfind r hr
    simp at this
  | some s =>
    have hs : s.number = r.number := by simpa using List.find?_some hfind
    rw [hg.eq_of_number (List.mem_of_find?_eq_some hfind) hr hs]

/-- A rule that is found is a rule with that number. -/
theorem mem_of_get? {n : Nat} {r : Rule} (h : g.get? n = some r) :
    r ∈ g.rules ∧ r.number = n :=
  ⟨List.mem_of_find?_eq_some h, by simpa using List.find?_some h⟩

end RuleSet

/-! ## The order of items -/

namespace Item

/-- An item of a grammar: one of its rules, with the dot in or after its right side. -/
structure Of (g : RuleSet) (i : Item) : Prop where
  rule_mem : i.rule ∈ g.rules
  dot_le : i.dot ≤ i.rule.right.length

/-- The order of items as a proposition. -/
theorem before_iff {i j : Item} :
    i.before j = true ↔
      i.rule.number < j.rule.number ∨ i.rule.number = j.rule.number ∧ i.dot < j.dot := by
  simp [before]

/-- The order is transitive. -/
theorem before_trans {i j k : Item} (hij : i.before j = true) (hjk : j.before k = true) :
    i.before k = true := by
  rw [before_iff] at hij hjk ⊢
  omega

/-- Of two different items one comes before the other. -/
theorem eq_of_not_before {g : RuleSet} (hg : g.Numbered) {i j : Item} (hi : i.rule ∈ g.rules)
    (hj : j.rule ∈ g.rules) (hij : ¬i.before j = true) (hji : ¬j.before i = true) : i = j := by
  rw [before_iff] at hij hji
  have hrule : i.rule = j.rule := hg.eq_of_number hi hj (by omega)
  have hdot : i.dot = j.dot := by
    rw [hrule] at hij hji
    omega
  cases i
  cases j
  simp_all

/-- The symbol after the dot of an item of a grammar stands in the right side. -/
theorem next?_eq_some_iff {i : Item} {a : GrammarSymbol} :
    i.next? = some a ↔ ∃ after, i.rule.right.drop i.dot = a :: after := by
  unfold next?
  rw [← List.head?_drop]
  cases i.rule.right.drop i.dot with
  | nil => simp
  | cons b rest => simp

end Item

namespace ItemSet

/-- **Every item comes before the items after it.** -/
def Ordered (items : ItemSet) : Prop := items.Pairwise fun i j => i.before j = true

instance (items : ItemSet) : Decidable (Ordered items) :=
  inferInstanceAs (Decidable (List.Pairwise _ items))

/-- Items of the rules of a grammar in their order, wherever their dots stand. -/
structure Over (g : RuleSet) (items : ItemSet) : Prop where
  ordered : Ordered items
  rule_mem : ∀ i ∈ items, i.rule ∈ g.rules

/-- The items of a set that belong to a grammar, in their order. -/
structure Of (g : RuleSet) (items : ItemSet) : Prop where
  ordered : Ordered items
  item : ∀ i ∈ items, i.Of g

/-- Items that belong to a grammar are items of its rules. -/
theorem Of.toOver {g : RuleSet} {items : ItemSet} (h : items.Of g) : items.Over g :=
  ⟨h.ordered, fun i hi => (h.item i hi).rule_mem⟩

/-- Inserting an item into a set of items of a grammar. -/
theorem mem_insert {g : RuleSet} (hg : g.Numbered) {i j : Item} {items : ItemSet}
    (hi : i.rule ∈ g.rules) (hs : ∀ k ∈ items, k.rule ∈ g.rules) :
    j ∈ i.insert items ↔ j = i ∨ j ∈ items := by
  induction items with
  | nil => simp [Item.insert]
  | cons k items ih =>
    have hs' : ∀ l ∈ items, l.rule ∈ g.rules := fun l hl => hs l (by simp [hl])
    unfold Item.insert
    by_cases hik : i.before k = true
    · rw [if_pos hik, List.mem_cons]
    · rw [if_neg hik]
      by_cases hki : k.before i = true
      · rw [if_pos hki, List.mem_cons, ih hs', List.mem_cons]
        exact or_left_comm
      · rw [if_neg hki, Item.eq_of_not_before hg hi (hs k (by simp)) hik hki]
        simp

/-- Inserting an item keeps the order. -/
theorem ordered_insert {g : RuleSet} (hg : g.Numbered) {i : Item} {items : ItemSet}
    (hi : i.rule ∈ g.rules) (hs : ∀ k ∈ items, k.rule ∈ g.rules) (h : Ordered items) :
    Ordered (i.insert items) := by
  induction items with
  | nil => simp [Item.insert, Ordered]
  | cons k items ih =>
    obtain ⟨hk, hitems⟩ := List.pairwise_cons.mp h
    have hs' : ∀ l ∈ items, l.rule ∈ g.rules := fun l hl => hs l (by simp [hl])
    unfold Item.insert
    by_cases hik : i.before k = true
    · rw [if_pos hik]
      refine List.pairwise_cons.mpr ⟨?_, h⟩
      intro l hl
      rcases List.mem_cons.mp hl with rfl | hl
      · exact hik
      · exact Item.before_trans hik (hk l hl)
    · rw [if_neg hik]
      by_cases hki : k.before i = true
      · rw [if_pos hki]
        refine List.pairwise_cons.mpr ⟨?_, ih hs' hitems⟩
        intro l hl
        rcases (mem_insert hg hi hs').mp hl with rfl | hl
        · exact hki
        · exact hk l hl
      · rw [if_neg hki]
        exact h

namespace Over

variable {g : RuleSet} {items : ItemSet} {r : Rule}

/-- The items with the beginning of one more rule. -/
theorem mem_insert_ofRule (hg : g.Numbered) (h : items.Over g) (hr : r ∈ g.rules) {i : Item} :
    i ∈ (Item.ofRule r).insert items ↔ i = .ofRule r ∨ i ∈ items :=
  mem_insert hg hr h.rule_mem

/-- With the beginning of one more rule they are still items of the rules, in their order. -/
theorem insert_ofRule (hg : g.Numbered) (h : items.Over g) (hr : r ∈ g.rules) :
    ItemSet.Over g ((Item.ofRule r).insert items) := by
  refine ⟨ordered_insert hg hr h.rule_mem h.ordered, fun i hi => ?_⟩
  rcases (h.mem_insert_ofRule hg hr).mp hi with rfl | hi
  · exact hr
  · exact h.rule_mem i hi

end Over

/-- Ordered sets with the same items are equal. -/
theorem Ordered.ext {s t : ItemSet} (hs : Ordered s) (ht : Ordered t)
    (h : ∀ i, i ∈ s ↔ i ∈ t) : s = t := by
  have irrefl : ∀ i : Item, ¬i.before i = true := by
    intro i hi
    rw [Item.before_iff] at hi
    omega
  have nodup : ∀ {u : ItemSet}, Ordered u → u.Nodup := by
    intro u hu
    refine List.Pairwise.imp ?_ hu
    intro i j hij hne
    exact irrefl j (hne ▸ hij)
  have hperm : s.Perm t := (List.perm_ext_iff_of_nodup (nodup hs) (nodup ht)).mpr h
  refine hperm.eq_of_pairwise ?_ hs ht
  intro i j _ _ hij hji
  exact absurd (Item.before_trans hij hji) (irrefl i)

end ItemSet

/-! ## The closure of a set of items -/

namespace RuleSet

variable {g : RuleSet}

/-- The rules found hold all rules for the pending symbols, and for what their own right sides begin
with, as far as these rules were among those left. -/
theorem reachable_closed {n : Nat} (pending : List GrammarSymbol) (left : List Rule)
    (hn : pending.length + left.length ≤ n) :
    (∀ r ∈ left, r.left ∈ pending → r ∈ reachable n pending left) ∧
      ∀ r ∈ reachable n pending left, ∀ s ∈ left, r.right.head? = some s.left →
        s ∈ reachable n pending left := by
  induction n generalizing pending left with
  | zero =>
    obtain rfl : left = [] := List.length_eq_zero_iff.mp (by omega)
    simp
  | succ n ih =>
    cases pending with
    | nil => simp [reachable]
    | cons a pending =>
      simp only [reachable, List.partition_eq_filter_filter]
      -- the rules for `a` are taken, and their first symbols wait in its place
      generalize htaken : left.filter (fun r => decide (r.left = a)) = taken
      generalize hrest : left.filter (not ∘ fun r => decide (r.left = a)) = rest
      have mem_taken : ∀ r, r ∈ taken ↔ r ∈ left ∧ r.left = a := by
        intro r
        simp [← htaken]
      have mem_rest : ∀ r, r ∈ rest ↔ r ∈ left ∧ r.left ≠ a := by
        intro r
        simp [← hrest]
      have hlen : taken.length + rest.length = left.length := by
        rw [← htaken, ← hrest]
        exact (List.length_eq_length_filter_add _).symm
      have hheads := List.length_filterMap_le (fun r : Rule => r.right.head?) taken
      obtain ⟨hpending, hheadsClosed⟩ :=
        ih (taken.filterMap (fun r => r.right.head?) ++ pending) rest
          (by simp only [List.length_append, List.length_cons] at hn ⊢; omega)
      -- a rule for `a` was taken, and every other rule is still left
      have add : ∀ s ∈ left, (s.left ≠ a → s ∈ reachable n
          (taken.filterMap (fun r => r.right.head?) ++ pending) rest) → s ∈ taken ++ reachable n
          (taken.filterMap (fun r => r.right.head?) ++ pending) rest := by
        intro s hs h
        by_cases hsa : s.left = a
        · exact List.mem_append_left _ ((mem_taken s).mpr ⟨hs, hsa⟩)
        · exact List.mem_append_right _ (h hsa)
      constructor
      · intro r hr hra
        refine add r hr fun hne => ?_
        refine hpending r ((mem_rest r).mpr ⟨hr, hne⟩) (List.mem_append_right _ ?_)
        exact (List.mem_cons.mp hra).resolve_left hne
      · intro r hr s hs hhead
        refine add s hs fun hne => ?_
        have hsrest : s ∈ rest := (mem_rest s).mpr ⟨hs, hne⟩
        rcases List.mem_append.mp hr with hr | hr
        · exact hpending s hsrest
            (List.mem_append_left _ (List.mem_filterMap.mpr ⟨r, hr, hhead⟩))
        · exact hheadsClosed r hr s hsrest hhead

/-- **The closure of a kernel**: its items, and with every item that expects a nonterminal the items
that begin its rules. -/
inductive InClosure (g : RuleSet) (kernel : ItemSet) : Item → Prop
  | kernel {i : Item} (h : i ∈ kernel) : InClosure g kernel i
  | expected {i : Item} {r : Rule} (h : InClosure g kernel i) (hr : r ∈ g.rules)
      (hnext : i.next? = some r.left) : InClosure g kernel (.ofRule r)

/-- The rules found are rules whose beginnings are in the closure. -/
theorem inClosure_of_reachable (kernel : ItemSet) {n : Nat} {pending : List GrammarSymbol}
    {left : List Rule} (hleft : left ⊆ g.rules)
    (hpending : ∀ a ∈ pending, ∃ i, g.InClosure kernel i ∧ i.next? = some a) :
    ∀ r ∈ reachable n pending left, r ∈ g.rules ∧ g.InClosure kernel (.ofRule r) := by
  induction n generalizing pending left with
  | zero => simp [reachable]
  | succ n ih =>
    cases pending with
    | nil => simp [reachable]
    | cons a pending =>
      obtain ⟨i, hi, hia⟩ := hpending a (by simp)
      -- the rules that are taken now are expected by an item of the closure
      have htaken : ∀ r ∈ left.filter (fun r => decide (r.left = a)),
          r ∈ g.rules ∧ g.InClosure kernel (.ofRule r) := by
        intro r hr
        obtain ⟨hrl, hra⟩ := List.mem_filter.mp hr
        have hra : r.left = a := by simpa using hra
        exact ⟨hleft hrl, .expected hi (hleft hrl) (by rw [hia, hra])⟩
      intro r hr
      simp only [reachable, List.partition_eq_filter_filter] at hr
      rcases List.mem_append.mp hr with hr | hr
      · exact htaken r hr
      · refine ih (fun s hs => hleft (List.mem_of_mem_filter hs)) ?_ r hr
        intro b hb
        rcases List.mem_append.mp hb with hb | hb
        · obtain ⟨s, hs, hsb⟩ := List.mem_filterMap.mp hb
          refine ⟨.ofRule s, (htaken s hs).2, ?_⟩
          simpa [Item.next?, Item.ofRule, List.head?_eq_getElem?] using hsb
        · exact hpending b (by simp [hb])

/-- Inserting the beginnings of rules one after the other. -/
theorem foldl_insert {rules : List Rule} (hg : g.Numbered) (hrules : rules ⊆ g.rules)
    {items : ItemSet} (h : items.Over g) :
    ItemSet.Over g (rules.foldl (fun items r => (Item.ofRule r).insert items) items) ∧
      ∀ i, i ∈ rules.foldl (fun items r => (Item.ofRule r).insert items) items ↔
        i ∈ items ∨ ∃ r ∈ rules, i = .ofRule r := by
  induction rules generalizing items with
  | nil => simpa using h
  | cons r rules ih =>
    obtain ⟨hr, hrest⟩ := List.cons_subset.mp hrules
    obtain ⟨hover, hmem⟩ := ih hrest (h.insert_ofRule hg hr)
    refine ⟨hover, fun i => ?_⟩
    rw [List.foldl_cons, hmem, h.mem_insert_ofRule hg hr]
    simp only [List.mem_cons, exists_eq_or_imp]
    tauto

/-- The rules that the closure of a kernel adds. -/
theorem closure_rules_subset (kernel : ItemSet) (n : Nat) :
    reachable n (kernel.filterMap Item.next?) g.rules ⊆ g.rules := by
  intro r hr
  refine (inClosure_of_reachable kernel (List.Subset.refl _) ?_ r hr).1
  intro a ha
  obtain ⟨i, hi, hia⟩ := List.mem_filterMap.mp ha
  exact ⟨i, .kernel hi, hia⟩

/-- The closure of items of the grammar's rules is one as well. -/
theorem over_closure (hg : g.Numbered) {kernel : ItemSet} (h : kernel.Over g) :
    (g.closure kernel).Over g :=
  (foldl_insert hg (closure_rules_subset kernel _) h).1

/-- **What the closure holds.** -/
theorem mem_closure (hg : g.Numbered) {kernel : ItemSet} (h : kernel.Over g) {i : Item} :
    i ∈ g.closure kernel ↔ g.InClosure kernel i := by
  have hmem := (foldl_insert hg
    (closure_rules_subset kernel ((kernel.filterMap Item.next?).length + g.rules.length)) h).2
  obtain ⟨hexpected, hheads⟩ :=
    reachable_closed (kernel.filterMap Item.next?) g.rules (Nat.le_refl _)
  constructor
  · intro hi
    rcases (hmem i).mp hi with hi | ⟨r, hr, rfl⟩
    · exact .kernel hi
    · refine (inClosure_of_reachable kernel (List.Subset.refl _) ?_ r hr).2
      intro a ha
      obtain ⟨j, hj, hja⟩ := List.mem_filterMap.mp ha
      exact ⟨j, .kernel hj, hja⟩
  · intro hi
    -- along the closure: an item is expected by the kernel or by a rule that was reached
    induction hi with
    | kernel hi => exact (hmem _).mpr (.inl hi)
    | @expected j r _ hr hnext ih =>
      refine (hmem _).mpr (.inr ⟨r, ?_, rfl⟩)
      rcases (hmem j).mp ih with hj | ⟨s, hs, rfl⟩
      · exact hexpected r hr (List.mem_filterMap.mpr ⟨j, hj, hnext⟩)
      · refine hheads s hs r hr ?_
        simpa [Item.next?, Item.ofRule, List.head?_eq_getElem?] using hnext

/-- The closure of items that belong to the grammar holds nothing else. -/
theorem of_closure (hg : g.Numbered) {kernel : ItemSet} (h : kernel.Of g) :
    (g.closure kernel).Of g := by
  refine ⟨(over_closure hg h.toOver).ordered, fun i hi => ?_⟩
  cases (mem_closure hg h.toOver).mp hi with
  | kernel hi => exact h.item i hi
  | expected _ hr => exact ⟨hr, Nat.zero_le _⟩

end RuleSet

end Mgol
