import Mgol.Grammar.First

/-! # Items

A rule of which a part has been seen. The items that the parser may be in the middle of make up its
state.

* **`Item`, `Item.next?`, `Item.advance`** — a rule with a dot in its right side.
* **`RuleSet.closure`** — the items that can begin where some items stand.
* **`advanceOver`** — the items after one more symbol. -/

namespace Mgol

/-- **A rule with a dot**: the symbols before the dot have been seen. -/
structure Item where
  rule : Rule
  dot : Nat
  deriving DecidableEq, Repr

namespace Item

/-- The symbol after the dot. -/
def next? (i : Item) : Option GrammarSymbol := i.rule.right[i.dot]?

/-- The item with the dot one symbol further. -/
def advance (i : Item) : Item := { i with dot := i.dot + 1 }

/-- The item that has seen nothing of a rule. -/
def ofRule (r : Rule) : Item := ⟨r, 0⟩

/-- Whether an item comes before another: by the numbers of their rules, then by their dots. -/
def before (i j : Item) : Bool :=
  i.rule.number < j.rule.number || (i.rule.number = j.rule.number && i.dot < j.dot)

/-- Puts an item in its place, unless it is there. -/
def insert (i : Item) : List Item → List Item
  | [] => [i]
  | j :: rest =>
    if i.before j then i :: j :: rest
    else if j.before i then j :: insert i rest
    else j :: rest

end Item

/-- **A set of items**, in ascending order. -/
abbrev ItemSet := List Item

/-- The items of a set that expect `a`, after it. -/
def advanceOver (a : GrammarSymbol) (items : ItemSet) : ItemSet :=
  (items.filter fun i => i.next? = some a).map Item.advance

namespace RuleSet

/-- The rules that symbols can be replaced by, and by what these begin with in turn. Rules move
from `left` to the result, so each is taken at most once; `n` bounds the symbols looked at. -/
def reachable : Nat → List GrammarSymbol → List Rule → List Rule
  | 0, _, _ => []
  | _ + 1, [], _ => []
  | n + 1, a :: pending, left =>
    let (taken, left) := left.partition fun r => r.left = a
    taken ++ reachable n (taken.filterMap (fun r => r.right.head?) ++ pending) left

/-- **The closure of a set of items**: with an item that expects a nonterminal come the items that
begin its rules. -/
def closure (g : RuleSet) (kernel : ItemSet) : ItemSet :=
  let expected := kernel.filterMap Item.next?
  (reachable (expected.length + g.rules.length) expected g.rules).foldl
    (fun items r => (Item.ofRule r).insert items) kernel

/-- The item that the parser begins with. -/
def startItem (g : RuleSet) : Item := .ofRule g.start

end RuleSet

end Mgol
