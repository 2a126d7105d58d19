import Mgol.Grammar.Error
import Mgol.Grammar.SymbolSet
import Mgol.Text.Blank

/-! # Rules and rule sets

A grammar as numbered rules. The rule with the lowest number is the start rule.

* **`Rule`** — a left side and the symbols it may become.
* **`RuleSet`, `RuleSet.ofRules`** — rules in the order of their numbers, each number once.
* **`RuleSet.terminals`, `RuleSet.nonterminals`** — the symbols, in ascending order. -/

namespace Mgol

/-- **A rule of a grammar.** -/
structure Rule where
  number : Nat
  left : GrammarSymbol
  right : List GrammarSymbol
  deriving DecidableEq, Repr

namespace Rule

/-- How many symbols a reduction by the rule takes off. -/
def arity (r : Rule) : Nat := r.right.length

/-- The rule in one line. -/
def text (r : Rule) : String := r.left ++ " -> " ++ " ".intercalate r.right

/-- Puts a rule before the first one with a greater number. -/
def insertByNumber (r : Rule) : List Rule → List Rule
  | [] => [r]
  | s :: rest => if r.number < s.number then r :: s :: rest else s :: insertByNumber r rest

/-- Rules in the order of their numbers; those with the same number keep their order. -/
def sortByNumber (rules : List Rule) : List Rule :=
  rules.foldl (fun sorted r => insertByNumber r sorted) []

end Rule

/-- **A rule set**: the start rule, and the others in the order of their numbers. -/
structure RuleSet where
  start : Rule
  others : List Rule
  deriving DecidableEq, Repr

namespace RuleSet

/-- The rules in the order of their numbers. -/
def rules (g : RuleSet) : List Rule := g.start :: g.others

/-- What is wrong with a rule that follows rules with the numbers `earlier`. -/
def fault? (earlier : List Nat) (r : Rule) : Option RulesFault :=
  if (Text.trim r.left.toList).isEmpty then some (.emptyLeft r.number)
  else if r.number ∈ earlier then some (.duplicate r.number)
  else none

/-- The first thing wrong with rules that follow rules with the numbers `earlier`. -/
def firstFault? (earlier : List Nat) : List Rule → Option RulesFault
  | [] => none
  | r :: rest =>
    match fault? earlier r with
    | some f => some f
    | none => firstFault? (r.number :: earlier) rest

/-- **Makes a rule set of rules in any order**, or says what is wrong with them. -/
def ofRules (rules : List Rule) (origin : String) : Except GrammarError RuleSet :=
  match Rule.sortByNumber rules with
  | [] => .error (.rulesFormat origin .noRules)
  | start :: others =>
    match firstFault? [] (start :: others) with
    | some f => .error (.rulesFormat origin f)
    | none => .ok ⟨start, others⟩

/-- The rule with a number. -/
def get? (g : RuleSet) (number : Nat) : Option Rule :=
  g.rules.find? fun r => r.number = number

/-- The rule with a number, or the error that there is none. -/
def rule (g : RuleSet) (number : Nat) : Except GrammarError Rule :=
  match g.get? number with
  | some r => .ok r
  | none => .error (.unknownRule number)

/-- How many rules there are. -/
def size (g : RuleSet) : Nat := g.rules.length

/-- The left sides, with repetitions. -/
def lefts (g : RuleSet) : List GrammarSymbol := g.rules.map Rule.left

/-- Whether a symbol is a left side. -/
def isNonterminal (g : RuleSet) (a : GrammarSymbol) : Bool := g.lefts.contains a

/-- **The nonterminals** other than the left side of the start rule. -/
def nonterminals (g : RuleSet) : SymbolSet :=
  .ofList (g.lefts.filter fun a => a ≠ g.start.left)

/-- **The terminals**: the symbols of right sides that are no left side. -/
def terminals (g : RuleSet) : SymbolSet :=
  .ofList ((g.rules.flatMap Rule.right).filter fun a => !g.isNonterminal a)

end RuleSet

end Mgol
