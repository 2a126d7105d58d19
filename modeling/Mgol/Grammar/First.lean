import Mgol.Grammar.Tables

/-! # First and follow sets

Which terminals can begin what a symbol becomes, which symbols can become nothing, and which
terminals can come after a nonterminal. Each of the three is grown from nothing, rule by rule, until
no rule adds to it any more.

* **`FirstSets`, `RuleSet.firstSets`** — nullable nonterminals and first sets.
* **`FirstSets.ofSequence`** — the first set of a sequence of symbols.
* **`RuleSet.followSets`** — follow sets. -/

namespace Mgol

/-- **Repeats a step until it changes nothing**, at most `n` times. -/
def settle {α : Type} [DecidableEq α] (step : α → α) : Nat → α → α
  | 0, x => x
  | n + 1, x =>
    let y := step x
    if y = x then x else settle step n y

/-- **A set of symbols for every nonterminal.** -/
abbrev SymbolFamily := List (GrammarSymbol × SymbolSet)

namespace SymbolFamily

/-- The set of a symbol, if it has one. -/
def get? (f : SymbolFamily) (a : GrammarSymbol) : Option SymbolSet :=
  match f with
  | [] => none
  | (b, s) :: rest => if b = a then some s else get? rest a

/-- The set of a symbol; it is empty for a symbol that has none. -/
def get (f : SymbolFamily) (a : GrammarSymbol) : SymbolSet := (f.get? a).getD []

/-- Adds symbols to the set of a nonterminal. -/
def extend (f : SymbolFamily) (a : GrammarSymbol) (s : SymbolSet) : SymbolFamily :=
  match f with
  | [] => []
  | (b, t) :: rest => if b = a then (b, SymbolSet.union t s) :: rest else (b, t) :: extend rest a s

/-- The family of empty sets. -/
def empty (symbols : List GrammarSymbol) : SymbolFamily := symbols.map fun a => (a, [])

end SymbolFamily

/-- **Nullable nonterminals and first sets.** -/
structure FirstSets where
  nullable : SymbolSet
  first : SymbolFamily
  deriving DecidableEq, Repr

namespace FirstSets

/-- **The first set of a sequence**, and whether all of it can become nothing. A symbol without a
set is a terminal. -/
def ofSequence (f : FirstSets) : List GrammarSymbol → SymbolSet × Bool
  | [] => ([], true)
  | a :: rest =>
    match f.first.get? a with
    | none => ([a], false)
    | some s =>
      if a ∈ f.nullable then
        let (t, nullable) := ofSequence f rest
        (SymbolSet.union s t, nullable)
      else (s, false)

/-- What one rule adds. -/
def addRule (f : FirstSets) (r : Rule) : FirstSets :=
  let (s, nullable) := f.ofSequence r.right
  { nullable := if nullable then SymbolSet.insert r.left f.nullable else f.nullable
    first := f.first.extend r.left s }

end FirstSets

namespace RuleSet

/-- All symbols, in the order in which the rules first name them. -/
def symbols (g : RuleSet) : List GrammarSymbol :=
  (g.rules.flatMap fun r => r.left :: r.right).eraseDups

/-- The left sides, each once. -/
def distinctLefts (g : RuleSet) : List GrammarSymbol := g.lefts.eraseDups

/-- More often than this no family of sets of symbols can grow. -/
def growthBound (g : RuleSet) : Nat := g.distinctLefts.length * (g.symbols.length + 2) + 1

/-- Nothing is nullable and every set is empty. -/
def noFirstSets (g : RuleSet) : FirstSets := ⟨[], .empty g.distinctLefts⟩

/-- What all rules add, one after the other. -/
def addFirst (g : RuleSet) (f : FirstSets) : FirstSets := g.rules.foldl FirstSets.addRule f

/-- **The nullable nonterminals and the first sets.** -/
def firstSets (g : RuleSet) : FirstSets := settle g.addFirst g.growthBound g.noFirstSets

/-- What a rule adds to the follow sets, for the nonterminals in a tail of its right side: what can
begin the rest, and if the rest can become nothing what follows the left side. -/
def addFollowTail (f : FirstSets) (left : GrammarSymbol) :
    List GrammarSymbol → SymbolFamily → SymbolFamily
  | [], follow => follow
  | a :: rest, follow =>
    let (s, nullable) := f.ofSequence rest
    let s := if nullable then SymbolSet.union s (follow.get left) else s
    addFollowTail f left rest (follow.extend a s)

/-- What all rules add to the follow sets, one after the other. -/
def addFollow (g : RuleSet) (f : FirstSets) (follow : SymbolFamily) : SymbolFamily :=
  g.rules.foldl (fun follow r => addFollowTail f r.left r.right follow) follow

/-- Only the end of the input follows, and only the start. -/
def startFollow (g : RuleSet) : SymbolFamily :=
  (SymbolFamily.empty g.distinctLefts).extend g.start.left [endMarker]

/-- **The follow sets.** -/
def followSets (g : RuleSet) : SymbolFamily :=
  settle (g.addFollow g.firstSets) g.growthBound g.startFollow

end RuleSet

end Mgol
