import Mathlib.Logic.Relation
import Mgol.Grammar.Rule

/-! # Derivations

What a grammar generates, once as rewriting and once as a forest of derivation trees.

* **`RuleSet.Produces`, `RuleSet.Derives`** — one rewriting step, and any number of them.
* **`RuleSet.Forest`** — a word of terminals read off symbol by symbol, from left to right. The
  parser follows this form, so soundness and completeness go through it.
* **`RuleSet.forest_iff_derives`** — the two agree on words of terminals. -/

namespace Mgol

namespace RuleSet

variable {g : RuleSet}

/-- A symbol is a nonterminal exactly if some rule replaces it. -/
theorem isNonterminal_iff {a : GrammarSymbol} :
    g.isNonterminal a = true ↔ ∃ r ∈ g.rules, r.left = a := by
  simp [isNonterminal, lefts]

/-- The left side of a rule is a nonterminal. -/
theorem isNonterminal_left {r : Rule} (hr : r ∈ g.rules) : g.isNonterminal r.left = true :=
  isNonterminal_iff.mpr ⟨r, hr, rfl⟩

/-- The start rule is a rule. -/
theorem start_mem_rules : g.start ∈ g.rules := by simp [rules]

/-- **One rewriting step**: a left side somewhere is replaced by the right side of its rule. -/
def Produces (g : RuleSet) (u v : List GrammarSymbol) : Prop :=
  ∃ r ∈ g.rules, ∃ before after, u = before ++ r.left :: after ∧ v = before ++ r.right ++ after

/-- **Any number of rewriting steps.** -/
def Derives (g : RuleSet) : List GrammarSymbol → List GrammarSymbol → Prop :=
  Relation.ReflTransGen g.Produces

/-- **A word of terminals derived from symbols**, one symbol after the other. -/
inductive Forest (g : RuleSet) : List GrammarSymbol → List GrammarSymbol → Prop
  | nil : Forest g [] []
  | terminal {a : GrammarSymbol} {symbols word : List GrammarSymbol}
      (ha : g.isNonterminal a = false) (rest : Forest g symbols word) :
      Forest g (a :: symbols) (a :: word)
  | rule {r : Rule} {symbols inner word : List GrammarSymbol} (hr : r ∈ g.rules)
      (body : Forest g r.right inner) (rest : Forest g symbols word) :
      Forest g (r.left :: symbols) (inner ++ word)

namespace Forest

/-- Forests stand side by side. -/
theorem append {u v x y : List GrammarSymbol} (hu : g.Forest u x) (hv : g.Forest v y) :
    g.Forest (u ++ v) (x ++ y) := by
  induction hu with
  | nil => exact hv
  | terminal ha _ ih => exact .terminal ha ih
  | rule hr body _ _ ih =>
    rw [List.append_assoc]
    exact .rule hr body ih

/-- A forest over two sequences splits into one for each. -/
theorem split {u v word : List GrammarSymbol} (h : g.Forest (u ++ v) word) :
    ∃ x y, word = x ++ y ∧ g.Forest u x ∧ g.Forest v y := by
  -- the forest is followed symbol by symbol; its first symbol belongs to `u` unless `u` is empty
  generalize hs : u ++ v = symbols at h
  induction h generalizing u with
  | nil =>
    obtain ⟨rfl, rfl⟩ := List.append_eq_nil_iff.mp hs
    exact ⟨[], [], rfl, .nil, .nil⟩
  | @terminal a symbols word ha rest ih =>
    cases u with
    | nil =>
      obtain rfl : v = a :: symbols := hs
      exact ⟨[], _, rfl, .nil, .terminal ha rest⟩
    | cons b u =>
      obtain ⟨rfl, tail⟩ := List.cons.inj hs
      obtain ⟨x, y, rfl, hx, hy⟩ := ih tail
      exact ⟨b :: x, y, rfl, .terminal ha hx, hy⟩
  | @rule r symbols inner word hr body rest _ ih =>
    cases u with
    | nil =>
      obtain rfl : v = r.left :: symbols := hs
      exact ⟨[], _, rfl, .nil, .rule hr body rest⟩
    | cons b u =>
      obtain ⟨rfl, tail⟩ := List.cons.inj hs
      obtain ⟨x, y, rfl, hx, hy⟩ := ih tail
      exact ⟨inner ++ x, y, (List.append_assoc ..).symm, .rule hr body hx, hy⟩

/-- A terminal derives only itself. -/
theorem of_terminals {word : List GrammarSymbol} (h : ∀ a ∈ word, g.isNonterminal a = false) :
    g.Forest word word := by
  induction word with
  | nil => exact .nil
  | cons a word ih =>
    exact .terminal (h a (by simp)) (ih fun b hb => h b (by simp [hb]))

/-- The word of a forest has terminals only. -/
theorem word_terminal {symbols word : List GrammarSymbol} (h : g.Forest symbols word) :
    ∀ a ∈ word, g.isNonterminal a = false := by
  induction h with
  | nil => simp
  | terminal ha _ ih =>
    intro b hb
    rcases List.mem_cons.mp hb with rfl | hb
    · exact ha
    · exact ih b hb
  | rule _ _ _ ihBody ihRest =>
    intro b hb
    rcases List.mem_append.mp hb with hb | hb
    · exact ihBody b hb
    · exact ihRest b hb

end Forest

/-- Rewriting goes on to the right of anything. -/
theorem Derives.append_left {u v : List GrammarSymbol} (h : g.Derives u v)
    (x : List GrammarSymbol) : g.Derives (x ++ u) (x ++ v) := by
  induction h with
  | refl => exact .refl
  | tail _ step ih =>
    obtain ⟨r, hr, before, after, rfl, rfl⟩ := step
    exact ih.tail ⟨r, hr, x ++ before, after, by simp, by simp⟩

/-- Rewriting goes on to the left of anything. -/
theorem Derives.append_right {u v : List GrammarSymbol} (h : g.Derives u v)
    (x : List GrammarSymbol) : g.Derives (u ++ x) (v ++ x) := by
  induction h with
  | refl => exact .refl
  | tail _ step ih =>
    obtain ⟨r, hr, before, after, rfl, rfl⟩ := step
    exact ih.tail ⟨r, hr, before, after ++ x, by simp, by simp⟩

/-- The word of a forest can be derived from its symbols. -/
theorem Forest.derives {symbols word : List GrammarSymbol} (h : g.Forest symbols word) :
    g.Derives symbols word := by
  induction h with
  | nil => exact .refl
  | terminal _ _ ih => exact ih.append_left [_]
  | @rule r symbols inner word hr _ _ ihBody ihRest =>
    -- the left side is replaced first, then its right side and the rest are derived apart
    have first : g.Produces (r.left :: symbols) (r.right ++ symbols) :=
      ⟨r, hr, [], symbols, rfl, rfl⟩
    have body : g.Derives (r.right ++ symbols) (inner ++ symbols) := ihBody.append_right symbols
    exact (Relation.ReflTransGen.head first body).trans (ihRest.append_left inner)

/-- A rewriting step can be undone in a forest. -/
theorem Forest.of_produces {u v word : List GrammarSymbol} (step : g.Produces u v)
    (h : g.Forest v word) : g.Forest u word := by
  obtain ⟨r, hr, before, after, rfl, rfl⟩ := step
  rw [List.append_assoc] at h
  obtain ⟨x, y, rfl, hx, hy⟩ := h.split
  obtain ⟨inner, z, rfl, hi, hz⟩ := hy.split
  exact hx.append (.rule hr hi hz)

/-- **Forests are derivations of words of terminals.** -/
theorem forest_iff_derives {symbols word : List GrammarSymbol}
    (hw : ∀ a ∈ word, g.isNonterminal a = false) :
    g.Forest symbols word ↔ g.Derives symbols word := by
  refine ⟨Forest.derives, fun h => ?_⟩
  -- from the word backwards: every step that led to it is undone in the forest
  induction h using Relation.ReflTransGen.head_induction_on with
  | refl => exact .of_terminals hw
  | head step _ ih => exact ih.of_produces step

end RuleSet

end Mgol
