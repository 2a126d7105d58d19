import Mathlib.Order.Bounds.Defs
import Mgol.Proofs.Grammar.Follow

/-! # First and follow sets are the least closed ones

The loops over the rules end, also if nobody counts their rounds, and what they end with is the
least that the rules ask for: nullable is what derives nothing, a first set is what derivations
begin with, and the follow sets are the least family that is closed under the rules.

* **`LoopsTo`** — a loop that runs until a round changes nothing.
* **`RuleSet.nullable_mem_iff`, `RuleSet.mem_first_get_iff`** — the sets of single symbols.
* **`RuleSet.FollowClosed`** — families that hold what the rules ask of follow sets.
* **`RuleSet.isLeast_followSets`** — the follow sets are the least of them.
* **`RuleSet.firstSets_followSets_least`** — all of it, for every rule set. -/

namespace Mgol

/-! ## Loops without a count -/

section Loops

variable {α : Type} {step : α → α} {x : α}

/-- **A loop that ends**: a step is repeated as long as it changes something. -/
inductive LoopsTo (step : α → α) : α → α → Prop
  | rest {x : α} (same : step x = x) : LoopsTo step x x
  | round {x y : α} (changed : step x ≠ x) (on : LoopsTo step (step x) y) : LoopsTo step x y

/-- A loop ends in one way. -/
theorem LoopsTo.unique {y z : α} (hy : LoopsTo step x y) (hz : LoopsTo step x z) : y = z := by
  induction hy with
  | rest same =>
    cases hz with
    | rest => rfl
    | round changed => exact absurd same changed
  | round changed _ ih =>
    cases hz with
    | rest same => exact absurd same changed
    | round _ on => exact ih on

/-- The one end of a loop. -/
theorem LoopsTo.iff_eq {y z : α} (hy : LoopsTo step x y) : LoopsTo step x z ↔ z = y := by
  refine ⟨fun hz => hz.unique hy, ?_⟩
  rintro rfl
  exact hy

/-- What every round keeps holds at the end. -/
theorem LoopsTo.keeps {p : α → Prop} {y : α} (h : LoopsTo step x y)
    (hround : ∀ x, p x → p (step x)) (hx : p x) : p y := by
  induction h with
  | rest => exact hx
  | round _ _ ih => exact ih (hround _ hx)

/-- If counted rounds come to rest, then so does the loop that does not count them. -/
theorem loopsTo_settle [DecidableEq α] {n : Nat} (h : step (settle step n x) = settle step n x) :
    LoopsTo step x (settle step n x) := by
  induction n generalizing x with
  | zero => exact .rest h
  | succ n ih =>
    rw [settle] at h ⊢
    by_cases hsame : step x = x
    · rw [if_pos hsame]
      exact .rest hsame
    · rw [if_neg hsame] at h ⊢
      exact .round hsame (ih h)

/-- If counted rounds come to rest, then the loop ends with what they come to rest at. -/
theorem loopsTo_iff_eq_settle [DecidableEq α] {n : Nat} {y : α}
    (h : step (settle step n x) = settle step n x) : LoopsTo step x y ↔ y = settle step n x :=
  (loopsTo_settle h).iff_eq

end Loops

namespace RuleSet

variable {g : RuleSet} {a b : GrammarSymbol}

/-! ## Single symbols -/

/-- The first set of one symbol is that of the sequence with nothing else. -/
theorem ofSequence_single {s : SymbolSet} (ha : g.firstSets.first.get? a = some s) :
    g.firstSets.ofSequence [a] = (s, decide (a ∈ g.firstSets.nullable)) := by
  rw [FirstSets.ofSequence, ha]
  by_cases hnullable : a ∈ g.firstSets.nullable
  · simp [hnullable, FirstSets.ofSequence, SymbolSet.union]
  · simp [hnullable]

/-- A nonterminal has a first set. -/
theorem exists_first_get? (ha : g.isNonterminal a = true) :
    ∃ s, g.firstSets.first.get? a = some s := by
  obtain ⟨r, hr, rfl⟩ := isNonterminal_iff.mp ha
  obtain ⟨s, hs, -⟩ := exists_first hr
  exact ⟨s, hs⟩

/-- **A symbol is found to be nullable exactly if it derives nothing.** -/
theorem nullable_mem_iff : a ∈ g.firstSets.nullable ↔ g.Derives [a] [] := by
  refine ⟨(sound_firstSets g).nullable a, fun h => ?_⟩
  rw [← nullable_iff] at h
  cases ha : g.firstSets.first.get? a with
  | none => simp [FirstSets.ofSequence, ha] at h
  | some s =>
    rw [ofSequence_single ha] at h
    exact of_decide_eq_true h

/-- **The first set of a nonterminal** holds what derivations from it begin with. -/
theorem mem_first_get_iff (ha : g.isNonterminal a = true) :
    b ∈ g.firstSets.first.get a ↔ g.CanBegin [a] b := by
  obtain ⟨s, hs⟩ := exists_first_get? ha
  rw [← mem_first_iff, ofSequence_single hs, SymbolFamily.get, hs, Option.getD_some]

/-! ## Families that are closed under the rules -/

/-- **A family of sets that holds what follows**: the end of the input is in the set of the start;
and where a nonterminal stands in a right side, its set holds what the rest can begin with, and what
the left side's set holds if the rest can become nothing. -/
structure FollowClosed (g : RuleSet) (follow : GrammarSymbol → Set GrammarSymbol) : Prop where
  ended : endMarker ∈ follow g.start.left
  begun : ∀ r ∈ g.rules, ∀ before after a, r.right = before ++ a :: after →
    g.isNonterminal a = true → {b | g.CanBegin after b} ⊆ follow a
  inherited : ∀ r ∈ g.rules, ∀ before after a, r.right = before ++ a :: after →
    g.isNonterminal a = true → g.Derives after [] → follow r.left ⊆ follow a

/-- What can follow a nonterminal is in every family that is closed under the rules. -/
theorem CanFollow.mem_of_closed {follow : GrammarSymbol → Set GrammarSymbol}
    (h : g.CanFollow a b) (hclosed : g.FollowClosed follow) (ha : g.isNonterminal a = true) :
    b ∈ follow a := by
  induction h with
  | ended => exact hclosed.ended
  | begun rule split begins => exact hclosed.begun _ rule _ _ _ split ha begins
  | inherited rule split nullable _ ih =>
    exact hclosed.inherited _ rule _ _ _ split ha nullable (ih (isNonterminal_left rule))

/-- Nothing is in the follow set of a terminal. -/
theorem followSets_of_terminal (ha : g.isNonterminal a = false) : g.followSets.get a = [] := by
  cases hset : g.followSets.get? a with
  | none => rw [SymbolFamily.get, hset, Option.getD_none]
  | some s =>
    have hname : a ∈ g.followSets.map Prod.fst :=
      List.mem_map.mpr ⟨_, SymbolFamily.mem_of_get? hset, rfl⟩
    rw [settled_followSets.1.names_eq, mem_distinctLefts, ha] at hname
    cases hname

/-- The follow sets are closed under the rules. -/
theorem followClosed_followSets : g.FollowClosed fun a => {b | b ∈ g.followSets.get a} where
  ended := endMarker_mem_follow
  begun _ hr _ _ _ split ha _ begins := (mem_followSets_iff ha).mpr (.begun hr split begins)
  inherited _ hr _ _ _ split ha nullable _ hb :=
    (mem_followSets_iff ha).mpr (.inherited hr split nullable
      ((mem_followSets_iff (isNonterminal_left hr)).mp hb))

/-- **The follow sets are the least family** that is closed under the rules. -/
theorem isLeast_followSets :
    IsLeast {follow | g.FollowClosed follow} fun a => {b | b ∈ g.followSets.get a} := by
  refine ⟨followClosed_followSets, fun follow hclosed a b hb => ?_⟩
  cases ha : g.isNonterminal a with
  | true => exact ((mem_followSets_iff ha).mp hb).mem_of_closed hclosed ha
  | false =>
    rw [Set.mem_ofPred_eq, followSets_of_terminal ha] at hb
    cases hb

/-! ## The loops and what they find -/

/-- **What the loops over the rules find.** Both loops end, in one way. A symbol is then nullable
exactly if it derives nothing, the first set of a nonterminal holds the terminals that what it
derives begins with, and the first set of every sequence of symbols says the same of the sequence.
The follow sets are the least family that has the end of the input after the start and is closed
under the rules. -/
theorem firstSets_followSets_least (g : RuleSet) :
    (∀ f, LoopsTo g.addFirst g.noFirstSets f ↔ f = g.firstSets) ∧
      (∀ f, LoopsTo (g.addFollow g.firstSets) g.startFollow f ↔ f = g.followSets) ∧
      (∀ a, a ∈ g.firstSets.nullable ↔ g.Derives [a] []) ∧
      (∀ a, g.isNonterminal a = true → ∀ b, b ∈ g.firstSets.first.get a ↔ g.CanBegin [a] b) ∧
      (∀ u, (∀ b, b ∈ (g.firstSets.ofSequence u).1 ↔ g.CanBegin u b) ∧
        ((g.firstSets.ofSequence u).2 = true ↔ g.Derives u [])) ∧
      IsLeast {follow | g.FollowClosed follow} fun a => {b | b ∈ g.followSets.get a} :=
  ⟨fun _ => loopsTo_iff_eq_settle settled_firstSets.2,
    fun _ => loopsTo_iff_eq_settle settled_followSets.2,
    fun _ => nullable_mem_iff,
    fun _ ha _ => mem_first_get_iff ha,
    fun _ => ⟨fun _ => mem_first_iff, nullable_iff⟩, isLeast_followSets⟩

/-- Rules with a chain of symbols that become nothing, and with two that call each other: what
follows the inner one, the loops find in more than one round. -/
theorem firstSets_followSets_least_chain :
    let g : RuleSet := ⟨⟨1, "S", ["A", "x"]⟩,
      [⟨2, "A", ["y", "B"]⟩, ⟨3, "B", ["A", "C"]⟩, ⟨4, "B", []⟩, ⟨5, "C", ["B"]⟩]⟩
    g.Derives ["C"] [] ∧ g.CanBegin ["B", "x"] "x" ∧ g.CanBegin ["C"] "y" ∧
      ∀ follow, g.FollowClosed follow → "x" ∈ follow "C" ∧ "y" ∈ follow "A" := by
  intro g
  obtain ⟨-, -, hnullable, hfirst, hsequence, -, hleast⟩ := firstSets_followSets_least g
  refine ⟨(hnullable "C").mp (by decide +kernel), ((hsequence ["B", "x"]).1 "x").mp
    (by decide +kernel), (hfirst "C" (by decide +kernel) "y").mp (by decide +kernel), ?_⟩
  intro follow hclosed
  have hbelow := hleast hclosed
  have hx : "x" ∈ g.followSets.get "C" := by decide +kernel
  have hy : "y" ∈ g.followSets.get "A" := by decide +kernel
  exact ⟨hbelow "C" hx, hbelow "A" hy⟩

end RuleSet

end Mgol
