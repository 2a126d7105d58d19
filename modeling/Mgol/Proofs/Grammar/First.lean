import Mathlib.Algebra.GroupWithZero.Nat
import Mathlib.Algebra.Order.BigOperators.Group.List
import Mathlib.Data.List.Perm.Subperm
import Mathlib.Data.String.Basic
import Mgol.Grammar.First
import Mgol.Proofs.Grammar.Derivation

/-! # First and follow sets are closed

The three families of sets are grown until nothing changes. This module shows that the number of
rounds allowed is enough, so that what comes out is closed under every rule, and what closed sets
know about derivations.

* **`Grows`, `settle_fixed`** — a step that either changes nothing or makes something larger comes
  to rest within a bound.
* **`RuleSet.addRule_firstSets`, `RuleSet.addFollowTail_followSets`** — no rule adds to the sets.
* **`RuleSet.mem_first_of_forest`, `RuleSet.nullable_of_forest`** — first sets and nullable symbols
  cover every derivation.
* **`RuleSet.mem_follow_of_forest`, `RuleSet.mem_follow_of_nullable`** — what follow sets hold. -/

namespace Mgol

/-! ## Steps that come to rest -/

section Growth

variable {α β : Type} {inv : α → Prop} {size : α → Nat}

/-- **A step that grows**: it keeps an invariant, and changes nothing or makes the size larger. -/
def Grows (inv : α → Prop) (size : α → Nat) (f : α → α) : Prop :=
  ∀ x, inv x → inv (f x) ∧ (f x = x ∨ size x < size (f x))

/-- A growing step makes nothing smaller. -/
theorem Grows.le {f : α → α} (hf : Grows inv size f) {x : α} (hx : inv x) :
    size x ≤ size (f x) := by
  rcases (hf x hx).2 with h | h
  · rw [h]
  · exact h.le

/-- One growing step after the other. -/
theorem Grows.comp {f f' : α → α} (hf : Grows inv size f) (hf' : Grows inv size f') :
    Grows inv size fun x => f' (f x) := by
  intro x hx
  obtain ⟨hi, he⟩ := hf x hx
  obtain ⟨hi', he'⟩ := hf' (f x) hi
  refine ⟨hi', ?_⟩
  rcases he' with h' | h'
  · rcases he with h | h
    · exact .inl (h'.trans h)
    · exact .inr (h.trans_eq (congrArg size h'.symm))
  · exact .inr ((hf.le hx).trans_lt h')

/-- Growing steps in a row. -/
theorem Grows.foldl {f : α → β → α} {l : List β}
    (hf : ∀ b ∈ l, Grows inv size fun x => f x b) : Grows inv size fun x => l.foldl f x := by
  induction l with
  | nil => exact fun x hx => ⟨hx, .inl rfl⟩
  | cons b l ih =>
    exact (hf b (by simp)).comp (ih fun c hc => hf c (by simp [hc]))

/-- If growing steps end where they began, then the first one changed nothing. -/
theorem Grows.eq_of_comp_eq {f f' : α → α} (hf : Grows inv size f) (hf' : Grows inv size f')
    {x : α} (hx : inv x) (h : f' (f x) = x) : f x = x := by
  obtain ⟨hi, he⟩ := hf x hx
  rcases he with he | he
  · exact he
  -- what the first step adds is not taken away by the others
  · have hle : size (f x) ≤ size (f' (f x)) := hf'.le hi
    rw [h] at hle
    omega

/-- If a row of growing steps ends where it began, then each of them changes nothing. -/
theorem Grows.eq_of_foldl_eq {f : α → β → α} {l : List β}
    (hf : ∀ b ∈ l, Grows inv size fun x => f x b) {x : α} (hx : inv x) (h : l.foldl f x = x) :
    ∀ b ∈ l, f x b = x := by
  induction l with
  | nil => simp
  | cons b l ih =>
    have hl : ∀ c ∈ l, Grows inv size fun x => f x c := fun c hc => hf c (by simp [hc])
    have hb : f x b = x := (hf b (by simp)).eq_of_comp_eq (.foldl hl) hx h
    have hrest : l.foldl f x = x := by
      rw [List.foldl_cons, hb] at h
      exact h
    intro c hc
    rcases List.mem_cons.mp hc with rfl | hc
    · exact hb
    · exact ih hl hrest c hc

/-- **A growing step of bounded size comes to rest**, if it may be repeated often enough. -/
theorem settle_fixed [DecidableEq α] {f : α → α} {bound n : Nat} {x : α}
    (hf : Grows inv size f) (hbound : ∀ x, inv x → size x ≤ bound) (hx : inv x)
    (hn : bound < size x + n) : inv (settle f n x) ∧ f (settle f n x) = settle f n x := by
  induction n generalizing x with
  | zero =>
    have := hbound x hx
    omega
  | succ n ih =>
    rw [settle]
    -- a round that changes something leaves less room to grow
    by_cases h : f x = x
    · rw [if_pos h]
      exact ⟨hx, h⟩
    · rw [if_neg h]
      obtain ⟨hi, he⟩ := hf x hx
      rcases he with he | he
      · exact absurd he h
      · exact ih hi (by omega)

/-- What a step keeps, its repetition keeps. -/
theorem settle_induction [DecidableEq α] {p : α → Prop} {f : α → α} (hf : ∀ x, p x → p (f x))
    {n : Nat} {x : α} (hx : p x) : p (settle f n x) := by
  induction n generalizing x with
  | zero => exact hx
  | succ n ih =>
    rw [settle]
    split
    · exact hx
    · exact ih (hf x hx)

end Growth

/-! ## Sets in ascending order -/

namespace SymbolSet

/-- Every name comes before the names after it, so none is there twice. -/
def Ascending (s : SymbolSet) : Prop := s.Pairwise (· < ·)

/-- Inserting a symbol changes nothing or makes the set longer. -/
theorem insert_eq_or_lt (a : GrammarSymbol) (s : SymbolSet) :
    insert a s = s ∨ s.length < (insert a s).length := by
  induction s with
  | nil => simp [insert]
  | cons b s ih =>
    unfold insert
    split
    · exact .inl rfl
    · split
      · simp
      · rcases ih with ih | ih
        · exact .inl (by rw [ih])
        · exact .inr (by simpa using ih)

/-- Inserting keeps the order. -/
theorem ascending_insert {a : GrammarSymbol} {s : SymbolSet} (hs : Ascending s) :
    Ascending (insert a s) := by
  induction s with
  | nil => simp [insert, Ascending]
  | cons b s ih =>
    obtain ⟨hb, hs'⟩ := List.pairwise_cons.mp hs
    unfold insert
    split
    · exact hs
    · next hne =>
      split
      · next hlt =>
        refine List.pairwise_cons.mpr ⟨?_, hs⟩
        intro c hc
        rcases List.mem_cons.mp hc with rfl | hc
        · exact hlt
        · exact lt_trans hlt (hb c hc)
      · next hlt =>
        refine List.pairwise_cons.mpr ⟨?_, ih hs'⟩
        intro c hc
        rcases mem_insert.mp hc with rfl | hc
        · exact lt_of_le_of_ne (not_lt.mp hlt) (Ne.symm hne)
        · exact hb c hc

/-- Taking a union changes nothing or makes the set longer, and keeps the order. -/
theorem grows_union (t : SymbolSet) : Grows Ascending List.length fun s => union s t :=
  .foldl fun a _ s hs => ⟨ascending_insert hs, insert_eq_or_lt a s⟩

/-- An ascending set is no longer than a list with all of its symbols. -/
theorem Ascending.length_le {s : SymbolSet} {symbols : List GrammarSymbol} (hs : Ascending s)
    (h : s ⊆ symbols) : s.length ≤ symbols.length :=
  (List.subperm_of_subset (hs.imp ne_of_lt) h).length_le

end SymbolSet

/-! ## Families of sets -/

namespace SymbolFamily

/-- A family for the given names, of ascending sets over the given symbols. -/
structure Over (names symbols : List GrammarSymbol) (f : SymbolFamily) : Prop where
  names_eq : f.map Prod.fst = names
  ascending : ∀ e ∈ f, SymbolSet.Ascending e.2
  subset : ∀ e ∈ f, e.2 ⊆ symbols

/-- How many symbols the sets of a family have. -/
def size (f : SymbolFamily) : Nat := (f.map fun e => e.2.length).sum

/-- The sets of a family are no longer than the symbols they are taken from. -/
theorem Over.size_le {names symbols : List GrammarSymbol} {f : SymbolFamily}
    (h : f.Over names symbols) : f.size ≤ names.length * symbols.length := by
  have hall : ∀ n ∈ f.map fun e => e.2.length, n ≤ symbols.length := by
    intro n hn
    obtain ⟨e, he, rfl⟩ := List.mem_map.mp hn
    exact (h.ascending e he).length_le (h.subset e he)
  have hsum := List.sum_le_card_nsmul _ _ hall
  rw [List.length_map, ← List.length_map (f := Prod.fst), h.names_eq] at hsum
  exact hsum

/-- The family of empty sets. -/
theorem over_empty (names symbols : List GrammarSymbol) :
    (SymbolFamily.empty names).Over names symbols where
  names_eq := by simp [SymbolFamily.empty, Function.comp_def]
  ascending := by
    intro e he
    obtain ⟨a, _, rfl⟩ := List.mem_map.mp he
    exact .nil
  subset := by
    intro e he
    obtain ⟨a, _, rfl⟩ := List.mem_map.mp he
    exact List.nil_subset _

/-- A name of the family has a set. -/
theorem exists_get?_of_mem {f : SymbolFamily} {a : GrammarSymbol} (h : a ∈ f.map Prod.fst) :
    ∃ s, f.get? a = some s := by
  induction f with
  | nil => simp at h
  | cons e f ih =>
    obtain ⟨b, s⟩ := e
    unfold get?
    by_cases hb : b = a
    · exact ⟨s, if_pos hb⟩
    · rw [if_neg hb]
      exact ih (by simpa [Ne.symm hb] using h)

/-- The set that is looked up belongs to the family under its name. -/
theorem mem_of_get? {f : SymbolFamily} {a : GrammarSymbol} {s : SymbolSet}
    (h : f.get? a = some s) : (a, s) ∈ f := by
  induction f with
  | nil => simp [get?] at h
  | cons e f ih =>
    obtain ⟨b, t⟩ := e
    unfold get? at h
    by_cases hb : b = a
    · rw [if_pos hb] at h
      obtain rfl := Option.some.inj h
      simp [hb]
    · rw [if_neg hb] at h
      exact List.mem_cons_of_mem _ (ih h)

/-- The set of a name is taken from the symbols of the family. -/
theorem Over.get_subset {names symbols : List GrammarSymbol} {f : SymbolFamily}
    (h : f.Over names symbols) (a : GrammarSymbol) : f.get a ⊆ symbols := by
  unfold get
  cases ha : f.get? a with
  | none => exact List.nil_subset _
  | some s => exact h.subset _ (mem_of_get? ha)

/-- Extending a family by known symbols keeps its form and changes nothing or makes it larger. -/
theorem grows_extend {names symbols : List GrammarSymbol} (a : GrammarSymbol) {s : SymbolSet}
    (hs : s ⊆ symbols) : Grows (Over names symbols) size fun f => f.extend a s := by
  intro f hf
  induction f generalizing names with
  | nil => exact ⟨hf, .inl rfl⟩
  | cons e f ih =>
    obtain ⟨b, t⟩ := e
    have hrest : Over (f.map Prod.fst) symbols f :=
      ⟨rfl, fun e he => hf.ascending e (by simp [he]), fun e he => hf.subset e (by simp [he])⟩
    have ht : t ⊆ symbols := hf.subset (b, t) (by simp)
    simp only [extend]
    split
    · obtain ⟨hasc, hgrow⟩ := SymbolSet.grows_union s t (hf.ascending (b, t) (by simp))
      refine ⟨⟨by simpa using hf.names_eq, ?_, ?_⟩, ?_⟩
      · intro e he
        rcases List.mem_cons.mp he with rfl | he
        · exact hasc
        · exact hrest.ascending e he
      · intro e he
        rcases List.mem_cons.mp he with rfl | he
        · intro c hc
          rcases SymbolSet.mem_union.mp hc with hc | hc
          · exact ht hc
          · exact hs hc
        · exact hrest.subset e he
      · rcases hgrow with h | h
        · exact .inl (congrArg (fun u => (b, u) :: f) h)
        · exact .inr (by simpa [size] using h)
    · obtain ⟨hover, hgrow⟩ := ih hrest
      refine ⟨⟨?_, ?_, ?_⟩, ?_⟩
      · rw [List.map_cons, hover.names_eq, ← hf.names_eq]
        rfl
      · intro e he
        rcases List.mem_cons.mp he with rfl | he
        · exact hf.ascending (b, t) (by simp)
        · exact hover.ascending e he
      · intro e he
        rcases List.mem_cons.mp he with rfl | he
        · exact ht
        · exact hover.subset e he
      · rcases hgrow with h | h
        · exact .inl (congrArg ((b, t) :: ·) h)
        · exact .inr (by simpa [size] using h)

/-- Extending a family loses nothing. -/
theorem get_subset_get_extend (f : SymbolFamily) (a b : GrammarSymbol) (s : SymbolSet) :
    f.get a ⊆ (f.extend b s).get a := by
  induction f with
  | nil => exact List.Subset.refl _
  | cons e f ih =>
    obtain ⟨c, t⟩ := e
    unfold extend
    by_cases hb : c = b
    · rw [if_pos hb]
      by_cases ha : c = a
      · simp only [get, get?, ha, if_true, Option.getD_some]
        exact fun d hd => SymbolSet.mem_union.mpr (.inl hd)
      · simp only [get, get?, ha, if_false]
        exact List.Subset.refl _
    · rw [if_neg hb]
      by_cases ha : c = a
      · simp only [get, get?, ha, if_true]
        exact List.Subset.refl _
      · simpa only [get, get?, ha, if_false] using ih

/-- The symbols that a family is extended by are there afterwards. -/
theorem subset_get_extend {f : SymbolFamily} {a : GrammarSymbol} (h : a ∈ f.map Prod.fst)
    (s : SymbolSet) : s ⊆ (f.extend a s).get a := by
  induction f with
  | nil => simp at h
  | cons e f ih =>
    obtain ⟨b, t⟩ := e
    unfold extend
    by_cases hb : b = a
    · simp only [get, get?, hb, if_true, Option.getD_some]
      exact fun c hc => SymbolSet.mem_union.mpr (.inr hc)
    · simp only [get, get?, hb, if_false]
      exact ih (by simpa [Ne.symm hb] using h)

/-- If extending changes nothing, then the symbols were there. -/
theorem subset_of_extend_eq {f : SymbolFamily} {a : GrammarSymbol} {s t : SymbolSet}
    (h : f.extend a s = f) (ht : f.get? a = some t) : s ⊆ t := by
  induction f with
  | nil => simp [get?] at ht
  | cons e f ih =>
    obtain ⟨b, u⟩ := e
    unfold extend at h
    unfold get? at ht
    by_cases hb : b = a
    · rw [if_pos hb] at h ht
      obtain rfl := Option.some.inj ht
      have hu : SymbolSet.union u s = u := (Prod.mk.inj (List.cons.inj h).1).2
      intro c hc
      rw [← hu]
      exact SymbolSet.mem_union.mpr (.inr hc)
    · rw [if_neg hb] at h ht
      exact ih (List.cons.inj h).2 ht

end SymbolFamily

/-! ## Nullable nonterminals and first sets -/

namespace RuleSet

variable {g : RuleSet}

/-- The symbols of right sides are symbols. -/
theorem mem_symbols_of_mem_right {r : Rule} {a : GrammarSymbol} (hr : r ∈ g.rules)
    (ha : a ∈ r.right) : a ∈ g.symbols := by
  rw [symbols, List.mem_eraseDups, List.mem_flatMap]
  exact ⟨r, hr, List.mem_cons_of_mem _ ha⟩

/-- Erasing repetitions leaves every element once. -/
theorem nodup_eraseDups (l : List GrammarSymbol) : l.eraseDups.Nodup := by
  induction hn : l.length using Nat.strong_induction_on generalizing l with
  | _ n ih =>
    cases l with
    | nil => simp
    | cons a l =>
      rw [List.eraseDups_cons, List.nodup_cons, List.mem_eraseDups]
      refine ⟨by simp, ih _ ?_ _ rfl⟩
      have := List.length_filter_le (fun b => !b == a) l
      simp only [List.length_cons] at hn
      omega

/-- Every symbol is listed once. -/
theorem nodup_symbols : g.symbols.Nodup := nodup_eraseDups _

/-- The distinct left sides are the nonterminals. -/
theorem mem_distinctLefts {a : GrammarSymbol} :
    a ∈ g.distinctLefts ↔ g.isNonterminal a = true := by
  rw [distinctLefts, List.mem_eraseDups, isNonterminal, List.contains_iff_mem]

end RuleSet

namespace FirstSets

/-- First sets in the making: nullable left sides, and sets of symbols for the left sides. -/
structure Over (g : RuleSet) (f : FirstSets) : Prop where
  ascending : SymbolSet.Ascending f.nullable
  nullable_subset : f.nullable ⊆ g.distinctLefts
  first : f.first.Over g.distinctLefts g.symbols

/-- How much has been found. -/
def size (f : FirstSets) : Nat := f.nullable.length + f.first.size

variable {g : RuleSet} {f : FirstSets}

/-- No more can be found than there is room for. -/
theorem Over.size_lt (h : f.Over g) : f.size < g.growthBound := by
  have hn := h.ascending.length_le h.nullable_subset
  have hf := h.first.size_le
  unfold size RuleSet.growthBound
  rw [Nat.mul_add]
  omega

/-- The first set of symbols of the grammar holds symbols of the grammar. -/
theorem Over.ofSequence_subset (h : f.Over g) {seq : List GrammarSymbol} (hs : seq ⊆ g.symbols) :
    (f.ofSequence seq).1 ⊆ g.symbols := by
  induction seq with
  | nil => exact List.nil_subset _
  | cons a seq ih =>
    obtain ⟨ha, hseq⟩ := List.cons_subset.mp hs
    unfold ofSequence
    cases hf : f.first.get? a with
    | none => simpa using ha
    | some s =>
      have hsub : s ⊆ g.symbols := h.first.subset _ (SymbolFamily.mem_of_get? hf)
      by_cases hn : a ∈ f.nullable
      · simp only [hn, if_true]
        intro c hc
        rcases SymbolSet.mem_union.mp hc with hc | hc
        · exact hsub hc
        · exact ih hseq hc
      · simpa only [hn, if_false] using hsub

/-- A rule adds to the sets or changes nothing. -/
theorem grows_addRule {r : Rule} (hr : r ∈ g.rules) :
    Grows (Over g) size fun f => f.addRule r := by
  intro f hf
  have hright : r.right ⊆ g.symbols := fun a ha => RuleSet.mem_symbols_of_mem_right hr ha
  obtain ⟨hover, hgrow⟩ :=
    SymbolFamily.grows_extend r.left (hf.ofSequence_subset hright) f.first hf.first
  dsimp only at hgrow
  have hleft : r.left ∈ g.distinctLefts :=
    RuleSet.mem_distinctLefts.mpr (RuleSet.isNonterminal_left hr)
  simp only [addRule]
  by_cases hn : (f.ofSequence r.right).2 = true
  · simp only [hn, if_true]
    refine ⟨⟨SymbolSet.ascending_insert hf.ascending, ?_, hover⟩, ?_⟩
    · intro a ha
      rcases SymbolSet.mem_insert.mp ha with rfl | ha
      · exact hleft
      · exact hf.nullable_subset ha
    · have hle := (SymbolFamily.grows_extend r.left
        (hf.ofSequence_subset hright)).le hf.first
      rcases SymbolSet.insert_eq_or_lt r.left f.nullable with h | h
      · rcases hgrow with h' | h'
        · exact .inl (by rw [h, h'])
        · exact .inr (by simp only [size, h]; omega)
      · exact .inr (by simp only [size]; omega)
  · simp only [hn]
    refine ⟨⟨hf.ascending, hf.nullable_subset, hover⟩, ?_⟩
    rcases hgrow with h' | h'
    · exact .inl (by simp [h'])
    · exact .inr (by simpa [size] using h')

end FirstSets

namespace RuleSet

variable {g : RuleSet}

/-- Before anything was found. -/
theorem over_noFirstSets : g.noFirstSets.Over g :=
  ⟨.nil, List.nil_subset _, SymbolFamily.over_empty _ _⟩

/-- The loop over the rules grows the sets. -/
theorem grows_addFirst : Grows (FirstSets.Over g) FirstSets.size g.addFirst :=
  .foldl fun _ hr => FirstSets.grows_addRule hr

/-- What the loop comes to rest at. -/
theorem settled_firstSets : g.firstSets.Over g ∧ g.addFirst g.firstSets = g.firstSets := by
  have hbound : ∀ f : FirstSets, f.Over g → f.size ≤ g.growthBound - 1 := fun f hf =>
    Nat.le_sub_one_of_lt hf.size_lt
  exact settle_fixed grows_addFirst hbound over_noFirstSets (by simp only [growthBound]; omega)

/-- **No rule adds to the first sets.** -/
theorem addRule_firstSets {r : Rule} (hr : r ∈ g.rules) :
    g.firstSets.addRule r = g.firstSets :=
  Grows.eq_of_foldl_eq (fun _ hr => FirstSets.grows_addRule hr) settled_firstSets.1
    settled_firstSets.2 r hr

/-- A left side has a first set, which holds what its rules begin with. -/
theorem exists_first {r : Rule} (hr : r ∈ g.rules) :
    ∃ s, g.firstSets.first.get? r.left = some s ∧ (g.firstSets.ofSequence r.right).1 ⊆ s := by
  obtain ⟨s, hs⟩ : ∃ s, g.firstSets.first.get? r.left = some s := by
    apply SymbolFamily.exists_get?_of_mem
    rw [settled_firstSets.1.first.names_eq]
    exact mem_distinctLefts.mpr (isNonterminal_left hr)
  refine ⟨s, hs, SymbolFamily.subset_of_extend_eq ?_ hs⟩
  exact congrArg FirstSets.first (addRule_firstSets hr)

/-- The left side of a rule that can become nothing can become nothing. -/
theorem mem_nullable {r : Rule} (hr : r ∈ g.rules)
    (hn : (g.firstSets.ofSequence r.right).2 = true) : r.left ∈ g.firstSets.nullable := by
  have h := congrArg FirstSets.nullable (addRule_firstSets hr)
  simp only [FirstSets.addRule, hn, if_true] at h
  rw [← h]
  exact SymbolSet.mem_insert.mpr (.inl rfl)

/-- A terminal has no first set of its own. -/
theorem first_get?_of_terminal {a : GrammarSymbol} (ha : g.isNonterminal a = false) :
    g.firstSets.first.get? a = none := by
  cases h : g.firstSets.first.get? a with
  | none => rfl
  | some s =>
    have hmem : a ∈ g.firstSets.first.map Prod.fst :=
      List.mem_map.mpr ⟨_, SymbolFamily.mem_of_get? h, rfl⟩
    rw [settled_firstSets.1.first.names_eq, mem_distinctLefts, ha] at hmem
    exact absurd hmem (by simp)

/-- **What derives the empty word is found to be nullable.** -/
theorem nullable_of_forest {symbols : List GrammarSymbol} (h : g.Forest symbols []) :
    (g.firstSets.ofSequence symbols).2 = true := by
  generalize hw : ([] : List GrammarSymbol) = word at h
  induction h with
  | nil => rfl
  | terminal => simp at hw
  | @rule r symbols inner word hr body rest ihBody ihRest =>
    obtain ⟨rfl, rfl⟩ := List.append_eq_nil_iff.mp hw.symm
    obtain ⟨s, hs, _⟩ := exists_first hr
    simp only [FirstSets.ofSequence, hs, mem_nullable hr (ihBody rfl), if_true]
    exact ihRest rfl

/-- **A derived word begins with a symbol of the first set.** -/
theorem mem_first_of_forest {symbols word : List GrammarSymbol} {a : GrammarSymbol}
    (h : g.Forest symbols (a :: word)) : a ∈ (g.firstSets.ofSequence symbols).1 := by
  generalize hw : a :: word = whole at h
  induction h generalizing a word with
  | nil => simp at hw
  | terminal hb =>
    obtain ⟨rfl, _⟩ := List.cons.inj hw
    simp [FirstSets.ofSequence, first_get?_of_terminal hb]
  | @rule r symbols inner rest hr body _ ihBody ihRest =>
    obtain ⟨s, hs, hsub⟩ := exists_first hr
    simp only [FirstSets.ofSequence, hs]
    cases inner with
    | nil =>
      -- the first symbol derives nothing, so the word begins with the rest
      simp only [mem_nullable hr (nullable_of_forest body), if_true]
      exact SymbolSet.mem_union.mpr (.inr (ihRest hw))
    | cons b inner =>
      obtain ⟨rfl, _⟩ := List.cons.inj hw
      -- the word begins with what the first symbol derives
      have ha : a ∈ s := hsub (ihBody rfl)
      split
      · exact SymbolSet.mem_union.mpr (.inl ha)
      · exact ha

/-! ## Follow sets -/

/-- A family of sets of terminals and the end marker. -/
abbrev FollowOver (g : RuleSet) : SymbolFamily → Prop :=
  SymbolFamily.Over g.distinctLefts (endMarker :: g.symbols)

/-- The rest of a right side adds to the follow sets or changes nothing. -/
theorem grows_addFollowTail (left : GrammarSymbol) {tail : List GrammarSymbol}
    (ht : tail ⊆ g.symbols) :
    Grows g.FollowOver SymbolFamily.size (addFollowTail g.firstSets left tail) := by
  induction tail with
  | nil => exact fun f hf => ⟨hf, .inl rfl⟩
  | cons a tail ih =>
    have htail : tail ⊆ g.symbols := (List.cons_subset.mp ht).2
    intro f hf
    simp only [addFollowTail]
    refine Grows.comp (SymbolFamily.grows_extend a ?_) (ih htail) f hf
    -- what is added are first symbols of the rest, or what follows the left side
    have hfirst : (g.firstSets.ofSequence tail).1 ⊆ endMarker :: g.symbols := fun c hc =>
      List.mem_cons_of_mem _ (settled_firstSets.1.ofSequence_subset htail hc)
    split
    · intro c hc
      rcases SymbolSet.mem_union.mp hc with hc | hc
      · exact hfirst hc
      · exact hf.get_subset left hc
    · exact hfirst

/-- The rule's part of the loop grows the follow sets. -/
theorem grows_followRule {r : Rule} (hr : r ∈ g.rules) :
    Grows g.FollowOver SymbolFamily.size fun f => addFollowTail g.firstSets r.left r.right f :=
  grows_addFollowTail r.left fun _ ha => mem_symbols_of_mem_right hr ha

/-- Before anything but the end marker was found. -/
theorem over_startFollow : g.FollowOver g.startFollow :=
  (SymbolFamily.grows_extend g.start.left (by simp) _
    (SymbolFamily.over_empty g.distinctLefts (endMarker :: g.symbols))).1

/-- What the loop comes to rest at. -/
theorem settled_followSets :
    g.FollowOver g.followSets ∧ g.addFollow g.firstSets g.followSets = g.followSets := by
  have hbound : ∀ f : SymbolFamily, g.FollowOver f → f.size ≤ g.growthBound - 1 := by
    intro f hf
    have h := hf.size_le
    rw [List.length_cons] at h
    simp only [growthBound, Nat.mul_add] at h ⊢
    omega
  exact settle_fixed (.foldl fun _ hr => grows_followRule hr) hbound over_startFollow
    (by simp only [growthBound]; omega)

/-- **No rule adds to the follow sets.** -/
theorem addFollowTail_followSets {r : Rule} (hr : r ∈ g.rules) :
    addFollowTail g.firstSets r.left r.right g.followSets = g.followSets :=
  Grows.eq_of_foldl_eq (fun _ hr => grows_followRule hr) settled_followSets.1
    settled_followSets.2 r hr

/-- What a nonterminal before some symbols is followed by, in a rule of the given left side. -/
def followers (g : RuleSet) (left : GrammarSymbol) (after : List GrammarSymbol) : SymbolSet :=
  if (g.firstSets.ofSequence after).2 then
    SymbolSet.union (g.firstSets.ofSequence after).1 (g.followSets.get left)
  else (g.firstSets.ofSequence after).1

/-- If the rest of a right side adds nothing, then none of its symbols adds anything. -/
theorem extend_followSets {left : GrammarSymbol} {tail : List GrammarSymbol}
    (ht : tail ⊆ g.symbols)
    (h : addFollowTail g.firstSets left tail g.followSets = g.followSets)
    {before after : List GrammarSymbol} {a : GrammarSymbol} (hsplit : tail = before ++ a :: after) :
    g.followSets.extend a (g.followers left after) = g.followSets := by
  induction tail generalizing before with
  | nil => simp at hsplit
  | cons b tail ih =>
    have htail : tail ⊆ g.symbols := (List.cons_subset.mp ht).2
    have hover : g.FollowOver g.followSets := settled_followSets.1
    have hsub : g.followers left tail ⊆ endMarker :: g.symbols := by
      intro c hc
      unfold followers at hc
      have hfirst := settled_firstSets.1.ofSequence_subset htail (g := g)
      split at hc
      · rcases SymbolSet.mem_union.mp hc with hc | hc
        · exact List.mem_cons_of_mem _ (hfirst hc)
        · exact hover.get_subset left hc
      · exact List.mem_cons_of_mem _ (hfirst hc)
    -- the row of steps ends where it began, so its first step changes nothing
    have hb : g.followSets.extend b (g.followers left tail) = g.followSets :=
      Grows.eq_of_comp_eq (SymbolFamily.grows_extend b hsub) (grows_addFollowTail left htail)
        hover h
    cases before with
    | nil =>
      obtain ⟨rfl, rfl⟩ := List.cons.inj hsplit
      exact hb
    | cons c before =>
      obtain ⟨rfl, hrest⟩ := List.cons.inj hsplit
      refine ih htail ?_ hrest
      have hstep : addFollowTail g.firstSets left tail
          (g.followSets.extend b (g.followers left tail)) = g.followSets := h
      rwa [hb] at hstep

/-- **What can come after a nonterminal in a rule is in its follow set.** -/
theorem followers_subset {r : Rule} (hr : r ∈ g.rules) {before after : List GrammarSymbol}
    {a : GrammarSymbol} (hsplit : r.right = before ++ a :: after)
    (ha : g.isNonterminal a = true) : g.followers r.left after ⊆ g.followSets.get a := by
  have hext := extend_followSets (fun _ hc => mem_symbols_of_mem_right hr hc)
    (addFollowTail_followSets hr) hsplit
  obtain ⟨s, hs⟩ : ∃ s, g.followSets.get? a = some s := by
    apply SymbolFamily.exists_get?_of_mem
    rw [settled_followSets.1.names_eq]
    exact mem_distinctLefts.mpr ha
  rw [SymbolFamily.get, hs]
  exact SymbolFamily.subset_of_extend_eq hext hs

/-- A word that the rest of a rule derives begins with a terminal of the follow set. -/
theorem mem_follow_of_forest {r : Rule} (hr : r ∈ g.rules) {before after : List GrammarSymbol}
    {a b : GrammarSymbol} {word : List GrammarSymbol} (hsplit : r.right = before ++ a :: after)
    (ha : g.isNonterminal a = true) (h : g.Forest after (b :: word)) :
    b ∈ g.followSets.get a := by
  apply followers_subset hr hsplit ha
  unfold followers
  split
  · exact SymbolSet.mem_union.mpr (.inl (mem_first_of_forest h))
  · exact mem_first_of_forest h

/-- Where the rest of a rule derives nothing, what follows the left side follows too. -/
theorem mem_follow_of_nullable {r : Rule} (hr : r ∈ g.rules) {before after : List GrammarSymbol}
    {a b : GrammarSymbol} (hsplit : r.right = before ++ a :: after)
    (ha : g.isNonterminal a = true) (h : g.Forest after []) (hb : b ∈ g.followSets.get r.left) :
    b ∈ g.followSets.get a := by
  apply followers_subset hr hsplit ha
  rw [followers, nullable_of_forest h, if_pos rfl]
  exact SymbolSet.mem_union.mpr (.inr hb)

/-- A rule takes nothing away from a follow set. -/
theorem get_subset_addFollowTail (f : FirstSets) (left a : GrammarSymbol)
    (tail : List GrammarSymbol) (follow : SymbolFamily) :
    follow.get a ⊆ (addFollowTail f left tail follow).get a := by
  induction tail generalizing follow with
  | nil => exact List.Subset.refl _
  | cons b tail ih =>
    exact List.Subset.trans (SymbolFamily.get_subset_get_extend follow a b _) (ih _)

/-- The end of the input can follow the start. -/
theorem endMarker_mem_follow : endMarker ∈ g.followSets.get g.start.left := by
  apply settle_induction (p := fun follow => endMarker ∈ SymbolFamily.get follow g.start.left)
  · intro follow h
    unfold addFollow
    generalize g.rules = rules
    induction rules generalizing follow with
    | nil => exact h
    | cons r rules ih =>
      exact ih _ (get_subset_addFollowTail _ _ _ _ _ h)
  · refine SymbolFamily.subset_get_extend ?_ [endMarker] (by simp)
    rw [(SymbolFamily.over_empty g.distinctLefts []).names_eq]
    exact mem_distinctLefts.mpr (isNonterminal_left start_mem_rules)

end RuleSet

end Mgol
