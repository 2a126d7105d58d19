import Mgol.Grammar.Item

/-! # The canonical collection

All sets of items that the parser can come to, numbered in the order in which they are found.

* **`Collection`** — the kernels of the states and the edges between them.
* **`RuleSet.collection`** — the collection of a grammar. -/

namespace Mgol

/-- **States and edges found so far.** States without edges of their own yet have not been looked
at; they are the last ones. -/
structure Collection where
  kernels : Array ItemSet
  edges : Array (List (GrammarSymbol × Nat))

namespace Collection

/-- The number of the state with a kernel. -/
def stateOf? (kernels : Array ItemSet) (kernel : ItemSet) : Option Nat :=
  kernels.toList.findIdx? fun k => k = kernel

/-- The edges that leave some items over the given symbols, and the kernels with the new ones. -/
def successors (items : ItemSet) :
    List GrammarSymbol → Array ItemSet → List (GrammarSymbol × Nat) × Array ItemSet
  | [], kernels => ([], kernels)
  | a :: rest, kernels =>
    let next := advanceOver a items
    if next.isEmpty then successors items rest kernels
    else
      match stateOf? kernels next with
      | some target =>
        let (edges, kernels) := successors items rest kernels
        ((a, target) :: edges, kernels)
      | none =>
        let (edges, found) := successors items rest (kernels.push next)
        ((a, kernels.size) :: edges, found)

/-- Looks at one state after the other, at most `n` of them. -/
def explore (g : RuleSet) : Nat → Collection → Collection
  | 0, c => c
  | n + 1, c =>
    match c.kernels[c.edges.size]? with
    | none => c
    | some kernel =>
      let (edges, kernels) := successors (g.closure kernel) g.symbols c.kernels
      explore g n ⟨kernels, c.edges.push edges⟩

end Collection

namespace RuleSet

/-- How many items the rules have. -/
def itemCount (g : RuleSet) : Nat := (g.rules.map fun r => r.right.length + 1).foldr (· + ·) 0

/-- **The canonical collection of a grammar.** There are no more states than sets of items. -/
def collection (g : RuleSet) : Collection :=
  Collection.explore g (Nat.pow 2 g.itemCount) ⟨#[[g.startItem]], #[]⟩

end RuleSet

end Mgol
