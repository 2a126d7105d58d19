import Mgol.Grammar.Category
import Mgol.Grammar.Collection

/-! # Table construction

Decision tables for a grammar that needs one symbol of lookahead: a completed rule is reduced on the
terminals that can follow its left side.

* **`ErrorPolicy`** — what is said in a state of a token that has no place there.
* **`RuleSet.slrTables`** — the tables of a grammar, or a conflict. -/

namespace Mgol

/-- **The category of a state**, by its number and its kernel. -/
abbrev ErrorPolicy := Nat → ItemSet → Category

namespace ErrorPolicy

/-- Every token without a place is unexpected. -/
def uniform : ErrorPolicy := fun _ _ => .unexpectedToken

/-- The categories of MGol by the left sides that a state is in the middle of. -/
def byLeftSide : List (Category × List GrammarSymbol) :=
  [(.malformedDeclaration, ["V", "LV", "D", "L", "TIPO"]),
   (.malformedLoop, ["R", "CABR", "CPR"]),
   (.malformedConditional, ["COND", "CAB", "CP", "EXP_R"]),
   (.malformedIo, ["ES", "ARG"]),
   (.malformedAssignment, ["CMD", "LD", "OPRD"])]

/-- **The categories of MGol**: a missing bracket or semicolon where one is expected, and otherwise
the construct that the state is in the middle of. -/
def mgol : ErrorPolicy := fun state kernel =>
  if kernel.any fun i => i.next? = some "fc_p" then .unbalancedParentheses
  else if kernel.any fun i => i.next? = some "pt_v" then .missingSemicolon
  else
    match byLeftSide.find? fun e => kernel.any fun i => e.2.contains i.rule.left with
    | some (category, _) => category
    | none => if state = 0 then .missingProgramStart else .unexpectedToken

end ErrorPolicy

/-- The tables of a grammar. -/
structure SlrTables where
  actions : ActionTable
  gotos : GotoTable
  deriving DecidableEq, Repr

namespace RuleSet

/-- The columns of the action table: the terminals as the rules name them, then the end. -/
def actionColumns (g : RuleSet) : List GrammarSymbol :=
  (g.symbols.filter fun a => !g.isNonterminal a) ++ [endMarker]

/-- The columns of the goto table: the nonterminals as the rules name them, but the start. -/
def gotoColumns (g : RuleSet) : List GrammarSymbol :=
  g.symbols.filter fun a => g.isNonterminal a && a ≠ g.start.left

/-- Writes one edge of the collection into the tables. -/
def addEdge (g : RuleSet) (state : Nat) (t : SlrTables) (edge : GrammarSymbol × Nat) :
    Except GrammarError SlrTables :=
  if g.isNonterminal edge.1 then
    match t.gotos.set state edge.1 edge.2 with
    | .ok gotos => .ok { t with gotos }
    | .error e => .error e
  else
    match t.actions.set state edge.1 (.shift edge.2) with
    | .ok actions => .ok { t with actions }
    | .error e => .error e

/-- Writes the edges of the states from `state` on. -/
def addEdges (g : RuleSet) (state : Nat) :
    List (List (GrammarSymbol × Nat)) → SlrTables → Except GrammarError SlrTables
  | [], t => .ok t
  | edges :: rest, t =>
    match edges.foldlM (g.addEdge state) t with
    | .ok t => addEdges g (state + 1) rest t
    | .error e => .error e

/-- The moves that a completed item allows. -/
def itemActions (g : RuleSet) (follow : SymbolFamily) (i : Item) :
    List (GrammarSymbol × Action) :=
  if i.dot < i.rule.right.length then []
  else if i.rule.number = g.start.number then [(endMarker, .accept)]
  else (follow.get i.rule.left).map fun a => (a, .reduce i.rule.number)

/-- Writes the moves of a state's completed items. -/
def addReductions (g : RuleSet) (follow : SymbolFamily) (state : Nat) (kernel : ItemSet)
    (actions : ActionTable) : Except GrammarError ActionTable :=
  ((g.closure kernel).flatMap (g.itemActions follow)).foldlM
    (fun t (move : GrammarSymbol × Action) => ActionTable.set t state move.1 move.2) actions

/-- Completes the rows of the states from `state` on: moves first, then the category of the state
in every blank cell. -/
def completeRows (g : RuleSet) (follow : SymbolFamily) (policy : ErrorPolicy) (state : Nat) :
    List ItemSet → ActionTable → Except GrammarError ActionTable
  | [], t => .ok t
  | kernel :: rest, t =>
    match g.addReductions follow state kernel t with
    | .ok t =>
      completeRows g follow policy (state + 1) rest
        (t.fillBlanks state (.error (policy state kernel).number))
    | .error e => .error e

/-- **The tables of a grammar**, or the first conflict in them. -/
def slrTables (g : RuleSet) (policy : ErrorPolicy) : Except GrammarError SlrTables :=
  let c := g.collection
  let blank : SlrTables :=
    ⟨.blank g.actionColumns c.kernels.size, .blank g.gotoColumns c.kernels.size⟩
  match g.addEdges 0 c.edges.toList blank with
  | .error e => .error e
  | .ok t =>
    match g.completeRows g.followSets policy 0 c.kernels.toList t.actions with
    | .error e => .error e
    | .ok actions => .ok { t with actions }

end RuleSet

/-- **Checked tables of a grammar.** -/
def DecisionTables.ofRules (g : RuleSet) (policy : ErrorPolicy) :
    Except GrammarError DecisionTables :=
  match g.slrTables policy with
  | .error e => .error e
  | .ok t => DecisionTables.check ⟨g, t.actions, t.gotos⟩

end Mgol
