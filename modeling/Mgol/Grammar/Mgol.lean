import Mgol.Grammar.Slr

/-! # The grammar of MGol

The rules of the language and its decision tables. The tables are written out, so that looking
something up costs nothing; they are the ones that `RuleSet.slrTables` makes from the rules.

* **`RuleSet.mgol`** — the rules.
* **`DecisionTables.mgol`** — the rules with their tables. -/

namespace Mgol

/-- **The rules of MGol.** -/
def RuleSet.mgol : RuleSet where
  start := ⟨1, "P'", ["P"]⟩
  others :=
   [⟨2, "P", ["inicio", "V", "A"]⟩,
   ⟨3, "V", ["varinicio", "LV"]⟩,
   ⟨4, "LV", ["D", "LV"]⟩,
   ⟨5, "LV", ["varfim", "pt_v"]⟩,
   ⟨6, "D", ["TIPO", "L", "pt_v"]⟩,
   ⟨7, "L", ["id", "vir", "L"]⟩,
   ⟨8, "L", ["id"]⟩,
   ⟨9, "TIPO", ["inteiro"]⟩,
   ⟨10, "TIPO", ["real"]⟩,
   ⟨11, "TIPO", ["literal"]⟩,
   ⟨12, "A", ["ES", "A"]⟩,
   ⟨13, "ES", ["leia", "id", "pt_v"]⟩,
   ⟨14, "ES", ["escreva", "ARG", "pt_v"]⟩,
   ⟨15, "ARG", ["lit"]⟩,
   ⟨16, "ARG", ["num"]⟩,
   ⟨17, "ARG", ["id"]⟩,
   ⟨18, "A", ["CMD", "A"]⟩,
   ⟨19, "CMD", ["id", "rcb", "LD", "pt_v"]⟩,
   ⟨20, "LD", ["OPRD", "opm", "OPRD"]⟩,
   ⟨21, "LD", ["OPRD"]⟩,
   ⟨22, "OPRD", ["id"]⟩,
   ⟨23, "OPRD", ["num"]⟩,
   ⟨24, "A", ["COND", "A"]⟩,
   ⟨25, "COND", ["CAB", "CP"]⟩,
   ⟨26, "CAB", ["se", "ab_p", "EXP_R", "fc_p", "entao"]⟩,
   ⟨27, "EXP_R", ["OPRD", "opr", "OPRD"]⟩,
   ⟨28, "CP", ["ES", "CP"]⟩,
   ⟨29, "CP", ["CMD", "CP"]⟩,
   ⟨30, "CP", ["COND", "CP"]⟩,
   ⟨31, "CP", ["fimse"]⟩,
   ⟨32, "A", ["R", "A"]⟩,
   ⟨33, "R", ["CABR", "CPR"]⟩,
   ⟨34, "CABR", ["repita", "ab_p", "EXP_R", "fc_p"]⟩,
   ⟨35, "CPR", ["ES", "CPR"]⟩,
   ⟨36, "CPR", ["CMD", "CPR"]⟩,
   ⟨37, "CPR", ["COND", "CPR"]⟩,
   ⟨38, "CPR", ["fimrepita"]⟩,
   ⟨39, "A", ["fim"]⟩]

namespace MgolTables

/-- A cell that shifts to a state. -/
abbrev sh (state : Nat) : Option Action := some (.shift state)

/-- A cell that reduces by a rule. -/
abbrev re (rule : Nat) : Option Action := some (.reduce rule)

/-- A cell that holds the number of an error category. -/
abbrev er (slot : Nat) : Option Action := some (.error slot)

/-- The cell that accepts the program. -/
abbrev acc : Option Action := some .accept

/-- A cell that goes to a state. -/
abbrev go (state : Nat) : Option Nat := some state

/-- A blank cell. -/
abbrev no : Option Nat := none

/-- The columns of the action table. -/
def actionColumns : List GrammarSymbol :=
  ["inicio", "varinicio", "varfim", "pt_v", "id", "vir", "inteiro", "real", "literal", "leia",
   "escreva", "lit", "num", "rcb", "opm", "se", "ab_p", "fc_p", "entao", "opr", "fimse", "repita",
   "fimrepita", "fim", "$"]

/-- The columns of the goto table. -/
def gotoColumns : List GrammarSymbol :=
  ["P", "V", "A", "LV", "D", "TIPO", "L", "ES", "ARG", "CMD", "LD", "OPRD", "COND", "CAB", "CP",
   "EXP_R", "R", "CABR", "CPR"]

/-- The rows of the action table. -/
def actionRows : Array (Array (Option Action)) :=
  #[#[sh 2, er 2, er 2, er 2, er 2, er 2, er 2, er 2, er 2, er 2, er 2, er 2, er 2, er 2, er 2,
     er 2, er 2, er 2, er 2, er 2, er 2, er 2, er 2, er 2, er 2],
    #[er 1, er 1, er 1, er 1, er 1, er 1, er 1, er 1, er 1, er 1, er 1, er 1, er 1, er 1, er 1,
     er 1, er 1, er 1, er 1, er 1, er 1, er 1, er 1, er 1, acc],
    #[er 1, sh 4, er 1, er 1, er 1, er 1, er 1, er 1, er 1, er 1, er 1, er 1, er 1, er 1, er 1,
     er 1, er 1, er 1, er 1, er 1, er 1, er 1, er 1, er 1, er 1],
    #[er 1, er 1, er 1, er 1, sh 6, er 1, er 1, er 1, er 1, sh 8, sh 9, er 1, er 1, er 1, er 1,
     sh 13, er 1, er 1, er 1, er 1, er 1, sh 16, er 1, sh 17, er 1],
    #[er 3, er 3, sh 20, er 3, er 3, er 3, sh 22, sh 23, sh 24, er 3, er 3, er 3, er 3, er 3, er 3,
     er 3, er 3, er 3, er 3, er 3, er 3, er 3, er 3, er 3, er 3],
    #[er 1, er 1, er 1, er 1, er 1, er 1, er 1, er 1, er 1, er 1, er 1, er 1, er 1, er 1, er 1,
     er 1, er 1, er 1, er 1, er 1, er 1, er 1, er 1, er 1, re 2],
    #[er 4, er 4, er 4, er 4, er 4, er 4, er 4, er 4, er 4, er 4, er 4, er 4, er 4, sh 25, er 4,
     er 4, er 4, er 4, er 4, er 4, er 4, er 4, er 4, er 4, er 4],
    #[er 1, er 1, er 1, er 1, sh 6, er 1, er 1, er 1, er 1, sh 8, sh 9, er 1, er 1, er 1, er 1,
     sh 13, er 1, er 1, er 1, er 1, er 1, sh 16, er 1, sh 17, er 1],
    #[er 5, er 5, er 5, er 5, sh 27, er 5, er 5, er 5, er 5, er 5, er 5, er 5, er 5, er 5, er 5,
     er 5, er 5, er 5, er 5, er 5, er 5, er 5, er 5, er 5, er 5],
    #[er 5, er 5, er 5, er 5, sh 28, er 5, er 5, er 5, er 5, er 5, er 5, sh 30, sh 31, er 5, er 5,
     er 5, er 5, er 5, er 5, er 5, er 5, er 5, er 5, er 5, er 5],
    #[er 1, er 1, er 1, er 1, sh 6, er 1, er 1, er 1, er 1, sh 8, sh 9, er 1, er 1, er 1, er 1,
     sh 13, er 1, er 1, er 1, er 1, er 1, sh 16, er 1, sh 17, er 1],
    #[er 1, er 1, er 1, er 1, sh 6, er 1, er 1, er 1, er 1, sh 8, sh 9, er 1, er 1, er 1, er 1,
     sh 13, er 1, er 1, er 1, er 1, er 1, sh 16, er 1, sh 17, er 1],
    #[er 6, er 6, er 6, er 6, sh 6, er 6, er 6, er 6, er 6, sh 8, sh 9, er 6, er 6, er 6, er 6,
     sh 13, er 6, er 6, er 6, er 6, sh 38, er 6, er 6, er 6, er 6],
    #[er 6, er 6, er 6, er 6, er 6, er 6, er 6, er 6, er 6, er 6, er 6, er 6, er 6, er 6, er 6,
     er 6, sh 39, er 6, er 6, er 6, er 6, er 6, er 6, er 6, er 6],
    #[er 1, er 1, er 1, er 1, sh 6, er 1, er 1, er 1, er 1, sh 8, sh 9, er 1, er 1, er 1, er 1,
     sh 13, er 1, er 1, er 1, er 1, er 1, sh 16, er 1, sh 17, er 1],
    #[er 7, er 7, er 7, er 7, sh 6, er 7, er 7, er 7, er 7, sh 8, sh 9, er 7, er 7, er 7, er 7,
     sh 13, er 7, er 7, er 7, er 7, er 7, er 7, sh 45, er 7, er 7],
    #[er 7, er 7, er 7, er 7, er 7, er 7, er 7, er 7, er 7, er 7, er 7, er 7, er 7, er 7, er 7,
     er 7, sh 46, er 7, er 7, er 7, er 7, er 7, er 7, er 7, er 7],
    #[er 1, er 1, er 1, er 1, er 1, er 1, er 1, er 1, er 1, er 1, er 1, er 1, er 1, er 1, er 1,
     er 1, er 1, er 1, er 1, er 1, er 1, er 1, er 1, er 1, re 39],
    #[er 3, er 3, er 3, er 3, re 3, er 3, er 3, er 3, er 3, re 3, re 3, er 3, er 3, er 3, er 3,
     re 3, er 3, er 3, er 3, er 3, er 3, re 3, er 3, re 3, er 3],
    #[er 3, er 3, sh 20, er 3, er 3, er 3, sh 22, sh 23, sh 24, er 3, er 3, er 3, er 3, er 3, er 3,
     er 3, er 3, er 3, er 3, er 3, er 3, er 3, er 3, er 3, er 3],
    #[er 9, er 9, er 9, sh 48, er 9, er 9, er 9, er 9, er 9, er 9, er 9, er 9, er 9, er 9, er 9,
     er 9, er 9, er 9, er 9, er 9, er 9, er 9, er 9, er 9, er 9],
    #[er 3, er 3, er 3, er 3, sh 50, er 3, er 3, er 3, er 3, er 3, er 3, er 3, er 3, er 3, er 3,
     er 3, er 3, er 3, er 3, er 3, er 3, er 3, er 3, er 3, er 3],
    #[er 3, er 3, er 3, er 3, re 9, er 3, er 3, er 3, er 3, er 3, er 3, er 3, er 3, er 3, er 3,
     er 3, er 3, er 3, er 3, er 3, er 3, er 3, er 3, er 3, er 3],
    #[er 3, er 3, er 3, er 3, re 10, er 3, er 3, er 3, er 3, er 3, er 3, er 3, er 3, er 3, er 3,
     er 3, er 3, er 3, er 3, er 3, er 3, er 3, er 3, er 3, er 3],
    #[er 3, er 3, er 3, er 3, re 11, er 3, er 3, er 3, er 3, er 3, er 3, er 3, er 3, er 3, er 3,
     er 3, er 3, er 3, er 3, er 3, er 3, er 3, er 3, er 3, er 3],
    #[er 4, er 4, er 4, er 4, sh 51, er 4, er 4, er 4, er 4, er 4, er 4, er 4, sh 52, er 4, er 4,
     er 4, er 4, er 4, er 4, er 4, er 4, er 4, er 4, er 4, er 4],
    #[er 1, er 1, er 1, er 1, er 1, er 1, er 1, er 1, er 1, er 1, er 1, er 1, er 1, er 1, er 1,
     er 1, er 1, er 1, er 1, er 1, er 1, er 1, er 1, er 1, re 12],
    #[er 9, er 9, er 9, sh 55, er 9, er 9, er 9, er 9, er 9, er 9, er 9, er 9, er 9, er 9, er 9,
     er 9, er 9, er 9, er 9, er 9, er 9, er 9, er 9, er 9, er 9],
    #[er 5, er 5, er 5, re 17, er 5, er 5, er 5, er 5, er 5, er 5, er 5, er 5, er 5, er 5, er 5,
     er 5, er 5, er 5, er 5, er 5, er 5, er 5, er 5, er 5, er 5],
    #[er 9, er 9, er 9, sh 56, er 9, er 9, er 9, er 9, er 9, er 9, er 9, er 9, er 9, er 9, er 9,
     er 9, er 9, er 9, er 9, er 9, er 9, er 9, er 9, er 9, er 9],
    #[er 5, er 5, er 5, re 15, er 5, er 5, er 5, er 5, er 5, er 5, er 5, er 5, er 5, er 5, er 5,
     er 5, er 5, er 5, er 5, er 5, er 5, er 5, er 5, er 5, er 5],
    #[er 5, er 5, er 5, re 16, er 5, er 5, er 5, er 5, er 5, er 5, er 5, er 5, er 5, er 5, er 5,
     er 5, er 5, er 5, er 5, er 5, er 5, er 5, er 5, er 5, er 5],
    #[er 1, er 1, er 1, er 1, er 1, er 1, er 1, er 1, er 1, er 1, er 1, er 1, er 1, er 1, er 1,
     er 1, er 1, er 1, er 1, er 1, er 1, er 1, er 1, er 1, re 18],
    #[er 1, er 1, er 1, er 1, er 1, er 1, er 1, er 1, er 1, er 1, er 1, er 1, er 1, er 1, er 1,
     er 1, er 1, er 1, er 1, er 1, er 1, er 1, er 1, er 1, re 24],
    #[er 6, er 6, er 6, er 6, sh 6, er 6, er 6, er 6, er 6, sh 8, sh 9, er 6, er 6, er 6, er 6,
     sh 13, er 6, er 6, er 6, er 6, sh 38, er 6, er 6, er 6, er 6],
    #[er 6, er 6, er 6, er 6, sh 6, er 6, er 6, er 6, er 6, sh 8, sh 9, er 6, er 6, er 6, er 6,
     sh 13, er 6, er 6, er 6, er 6, sh 38, er 6, er 6, er 6, er 6],
    #[er 6, er 6, er 6, er 6, sh 6, er 6, er 6, er 6, er 6, sh 8, sh 9, er 6, er 6, er 6, er 6,
     sh 13, er 6, er 6, er 6, er 6, sh 38, er 6, er 6, er 6, er 6],
    #[er 6, er 6, er 6, er 6, re 25, er 6, er 6, er 6, er 6, re 25, re 25, er 6, er 6, er 6, er 6,
     re 25, er 6, er 6, er 6, er 6, re 25, re 25, re 25, re 25, er 6],
    #[er 6, er 6, er 6, er 6, re 31, er 6, er 6, er 6, er 6, re 31, re 31, er 6, er 6, er 6, er 6,
     re 31, er 6, er 6, er 6, er 6, re 31, re 31, re 31, re 31, er 6],
    #[er 6, er 6, er 6, er 6, sh 51, er 6, er 6, er 6, er 6, er 6, er 6, er 6, sh 52, er 6, er 6,
     er 6, er 6, er 6, er 6, er 6, er 6, er 6, er 6, er 6, er 6],
    #[er 1, er 1, er 1, er 1, er 1, er 1, er 1, er 1, er 1, er 1, er 1, er 1, er 1, er 1, er 1,
     er 1, er 1, er 1, er 1, er 1, er 1, er 1, er 1, er 1, re 32],
    #[er 7, er 7, er 7, er 7, sh 6, er 7, er 7, er 7, er 7, sh 8, sh 9, er 7, er 7, er 7, er 7,
     sh 13, er 7, er 7, er 7, er 7, er 7, er 7, sh 45, er 7, er 7],
    #[er 7, er 7, er 7, er 7, sh 6, er 7, er 7, er 7, er 7, sh 8, sh 9, er 7, er 7, er 7, er 7,
     sh 13, er 7, er 7, er 7, er 7, er 7, er 7, sh 45, er 7, er 7],
    #[er 7, er 7, er 7, er 7, sh 6, er 7, er 7, er 7, er 7, sh 8, sh 9, er 7, er 7, er 7, er 7,
     sh 13, er 7, er 7, er 7, er 7, er 7, er 7, sh 45, er 7, er 7],
    #[er 7, er 7, er 7, er 7, re 33, er 7, er 7, er 7, er 7, re 33, re 33, er 7, er 7, er 7, er 7,
     re 33, er 7, er 7, er 7, er 7, er 7, re 33, er 7, re 33, er 7],
    #[er 7, er 7, er 7, er 7, re 38, er 7, er 7, er 7, er 7, re 38, re 38, er 7, er 7, er 7, er 7,
     re 38, er 7, er 7, er 7, er 7, er 7, re 38, er 7, re 38, er 7],
    #[er 7, er 7, er 7, er 7, sh 51, er 7, er 7, er 7, er 7, er 7, er 7, er 7, sh 52, er 7, er 7,
     er 7, er 7, er 7, er 7, er 7, er 7, er 7, er 7, er 7, er 7],
    #[er 3, er 3, er 3, er 3, re 4, er 3, er 3, er 3, er 3, re 4, re 4, er 3, er 3, er 3, er 3,
     re 4, er 3, er 3, er 3, er 3, er 3, re 4, er 3, re 4, er 3],
    #[er 3, er 3, er 3, er 3, re 5, er 3, er 3, er 3, er 3, re 5, re 5, er 3, er 3, er 3, er 3,
     re 5, er 3, er 3, er 3, er 3, er 3, re 5, er 3, re 5, er 3],
    #[er 9, er 9, er 9, sh 66, er 9, er 9, er 9, er 9, er 9, er 9, er 9, er 9, er 9, er 9, er 9,
     er 9, er 9, er 9, er 9, er 9, er 9, er 9, er 9, er 9, er 9],
    #[er 3, er 3, er 3, re 8, er 3, sh 67, er 3, er 3, er 3, er 3, er 3, er 3, er 3, er 3, er 3,
     er 3, er 3, er 3, er 3, er 3, er 3, er 3, er 3, er 3, er 3],
    #[er 4, er 4, er 4, re 22, er 4, er 4, er 4, er 4, er 4, er 4, er 4, er 4, er 4, er 4, re 22,
     er 4, er 4, re 22, er 4, re 22, er 4, er 4, er 4, er 4, er 4],
    #[er 4, er 4, er 4, re 23, er 4, er 4, er 4, er 4, er 4, er 4, er 4, er 4, er 4, er 4, re 23,
     er 4, er 4, re 23, er 4, re 23, er 4, er 4, er 4, er 4, er 4],
    #[er 9, er 9, er 9, sh 68, er 9, er 9, er 9, er 9, er 9, er 9, er 9, er 9, er 9, er 9, er 9,
     er 9, er 9, er 9, er 9, er 9, er 9, er 9, er 9, er 9, er 9],
    #[er 4, er 4, er 4, re 21, er 4, er 4, er 4, er 4, er 4, er 4, er 4, er 4, er 4, er 4, sh 69,
     er 4, er 4, er 4, er 4, er 4, er 4, er 4, er 4, er 4, er 4],
    #[er 5, er 5, er 5, er 5, re 13, er 5, er 5, er 5, er 5, re 13, re 13, er 5, er 5, er 5, er 5,
     re 13, er 5, er 5, er 5, er 5, re 13, re 13, re 13, re 13, er 5],
    #[er 5, er 5, er 5, er 5, re 14, er 5, er 5, er 5, er 5, re 14, re 14, er 5, er 5, er 5, er 5,
     re 14, er 5, er 5, er 5, er 5, re 14, re 14, re 14, re 14, er 5],
    #[er 6, er 6, er 6, er 6, re 28, er 6, er 6, er 6, er 6, re 28, re 28, er 6, er 6, er 6, er 6,
     re 28, er 6, er 6, er 6, er 6, re 28, re 28, re 28, re 28, er 6],
    #[er 6, er 6, er 6, er 6, re 29, er 6, er 6, er 6, er 6, re 29, re 29, er 6, er 6, er 6, er 6,
     re 29, er 6, er 6, er 6, er 6, re 29, re 29, re 29, re 29, er 6],
    #[er 6, er 6, er 6, er 6, re 30, er 6, er 6, er 6, er 6, re 30, re 30, er 6, er 6, er 6, er 6,
     re 30, er 6, er 6, er 6, er 6, re 30, re 30, re 30, re 30, er 6],
    #[er 6, er 6, er 6, er 6, er 6, er 6, er 6, er 6, er 6, er 6, er 6, er 6, er 6, er 6, er 6,
     er 6, er 6, er 6, er 6, sh 70, er 6, er 6, er 6, er 6, er 6],
    #[er 8, er 8, er 8, er 8, er 8, er 8, er 8, er 8, er 8, er 8, er 8, er 8, er 8, er 8, er 8,
     er 8, er 8, sh 71, er 8, er 8, er 8, er 8, er 8, er 8, er 8],
    #[er 7, er 7, er 7, er 7, re 35, er 7, er 7, er 7, er 7, re 35, re 35, er 7, er 7, er 7, er 7,
     re 35, er 7, er 7, er 7, er 7, er 7, re 35, er 7, re 35, er 7],
    #[er 7, er 7, er 7, er 7, re 36, er 7, er 7, er 7, er 7, re 36, re 36, er 7, er 7, er 7, er 7,
     re 36, er 7, er 7, er 7, er 7, er 7, re 36, er 7, re 36, er 7],
    #[er 7, er 7, er 7, er 7, re 37, er 7, er 7, er 7, er 7, re 37, re 37, er 7, er 7, er 7, er 7,
     re 37, er 7, er 7, er 7, er 7, er 7, re 37, er 7, re 37, er 7],
    #[er 8, er 8, er 8, er 8, er 8, er 8, er 8, er 8, er 8, er 8, er 8, er 8, er 8, er 8, er 8,
     er 8, er 8, sh 72, er 8, er 8, er 8, er 8, er 8, er 8, er 8],
    #[er 3, er 3, re 6, er 3, er 3, er 3, re 6, re 6, re 6, er 3, er 3, er 3, er 3, er 3, er 3,
     er 3, er 3, er 3, er 3, er 3, er 3, er 3, er 3, er 3, er 3],
    #[er 3, er 3, er 3, er 3, sh 50, er 3, er 3, er 3, er 3, er 3, er 3, er 3, er 3, er 3, er 3,
     er 3, er 3, er 3, er 3, er 3, er 3, er 3, er 3, er 3, er 3],
    #[er 4, er 4, er 4, er 4, re 19, er 4, er 4, er 4, er 4, re 19, re 19, er 4, er 4, er 4, er 4,
     re 19, er 4, er 4, er 4, er 4, re 19, re 19, re 19, re 19, er 4],
    #[er 4, er 4, er 4, er 4, sh 51, er 4, er 4, er 4, er 4, er 4, er 4, er 4, sh 52, er 4, er 4,
     er 4, er 4, er 4, er 4, er 4, er 4, er 4, er 4, er 4, er 4],
    #[er 6, er 6, er 6, er 6, sh 51, er 6, er 6, er 6, er 6, er 6, er 6, er 6, sh 52, er 6, er 6,
     er 6, er 6, er 6, er 6, er 6, er 6, er 6, er 6, er 6, er 6],
    #[er 6, er 6, er 6, er 6, er 6, er 6, er 6, er 6, er 6, er 6, er 6, er 6, er 6, er 6, er 6,
     er 6, er 6, er 6, sh 76, er 6, er 6, er 6, er 6, er 6, er 6],
    #[er 7, er 7, er 7, er 7, re 34, er 7, er 7, er 7, er 7, re 34, re 34, er 7, er 7, er 7, er 7,
     re 34, er 7, er 7, er 7, er 7, er 7, er 7, re 34, er 7, er 7],
    #[er 3, er 3, er 3, re 7, er 3, er 3, er 3, er 3, er 3, er 3, er 3, er 3, er 3, er 3, er 3,
     er 3, er 3, er 3, er 3, er 3, er 3, er 3, er 3, er 3, er 3],
    #[er 4, er 4, er 4, re 20, er 4, er 4, er 4, er 4, er 4, er 4, er 4, er 4, er 4, er 4, er 4,
     er 4, er 4, er 4, er 4, er 4, er 4, er 4, er 4, er 4, er 4],
    #[er 6, er 6, er 6, er 6, er 6, er 6, er 6, er 6, er 6, er 6, er 6, er 6, er 6, er 6, er 6,
     er 6, er 6, re 27, er 6, er 6, er 6, er 6, er 6, er 6, er 6],
    #[er 6, er 6, er 6, er 6, re 26, er 6, er 6, er 6, er 6, re 26, re 26, er 6, er 6, er 6, er 6,
     re 26, er 6, er 6, er 6, er 6, re 26, er 6, er 6, er 6, er 6]]

/-- The rows of the goto table. -/
def gotoRows : Array (Array (Option Nat)) :=
  #[#[go 1, no, no, no, no, no, no, no, no, no, no, no, no, no, no, no, no, no, no],
    #[no, no, no, no, no, no, no, no, no, no, no, no, no, no, no, no, no, no, no],
    #[no, go 3, no, no, no, no, no, no, no, no, no, no, no, no, no, no, no, no, no],
    #[no, no, go 5, no, no, no, no, go 7, no, go 10, no, no, go 11, go 12, no, no, go 14, go 15, no],
    #[no, no, no, go 18, go 19, go 21, no, no, no, no, no, no, no, no, no, no, no, no, no],
    #[no, no, no, no, no, no, no, no, no, no, no, no, no, no, no, no, no, no, no],
    #[no, no, no, no, no, no, no, no, no, no, no, no, no, no, no, no, no, no, no],
    #[no, no, go 26, no, no, no, no, go 7, no, go 10, no, no, go 11, go 12, no, no, go 14, go 15,
     no],
    #[no, no, no, no, no, no, no, no, no, no, no, no, no, no, no, no, no, no, no],
    #[no, no, no, no, no, no, no, no, go 29, no, no, no, no, no, no, no, no, no, no],
    #[no, no, go 32, no, no, no, no, go 7, no, go 10, no, no, go 11, go 12, no, no, go 14, go 15,
     no],
    #[no, no, go 33, no, no, no, no, go 7, no, go 10, no, no, go 11, go 12, no, no, go 14, go 15,
     no],
    #[no, no, no, no, no, no, no, go 34, no, go 35, no, no, go 36, go 12, go 37, no, no, no, no],
    #[no, no, no, no, no, no, no, no, no, no, no, no, no, no, no, no, no, no, no],
    #[no, no, go 40, no, no, no, no, go 7, no, go 10, no, no, go 11, go 12, no, no, go 14, go 15,
     no],
    #[no, no, no, no, no, no, no, go 41, no, go 42, no, no, go 43, go 12, no, no, no, no, go 44],
    #[no, no, no, no, no, no, no, no, no, no, no, no, no, no, no, no, no, no, no],
    #[no, no, no, no, no, no, no, no, no, no, no, no, no, no, no, no, no, no, no],
    #[no, no, no, no, no, no, no, no, no, no, no, no, no, no, no, no, no, no, no],
    #[no, no, no, go 47, go 19, go 21, no, no, no, no, no, no, no, no, no, no, no, no, no],
    #[no, no, no, no, no, no, no, no, no, no, no, no, no, no, no, no, no, no, no],
    #[no, no, no, no, no, no, go 49, no, no, no, no, no, no, no, no, no, no, no, no],
    #[no, no, no, no, no, no, no, no, no, no, no, no, no, no, no, no, no, no, no],
    #[no, no, no, no, no, no, no, no, no, no, no, no, no, no, no, no, no, no, no],
    #[no, no, no, no, no, no, no, no, no, no, no, no, no, no, no, no, no, no, no],
    #[no, no, no, no, no, no, no, no, no, no, go 53, go 54, no, no, no, no, no, no, no],
    #[no, no, no, no, no, no, no, no, no, no, no, no, no, no, no, no, no, no, no],
    #[no, no, no, no, no, no, no, no, no, no, no, no, no, no, no, no, no, no, no],
    #[no, no, no, no, no, no, no, no, no, no, no, no, no, no, no, no, no, no, no],
    #[no, no, no, no, no, no, no, no, no, no, no, no, no, no, no, no, no, no, no],
    #[no, no, no, no, no, no, no, no, no, no, no, no, no, no, no, no, no, no, no],
    #[no, no, no, no, no, no, no, no, no, no, no, no, no, no, no, no, no, no, no],
    #[no, no, no, no, no, no, no, no, no, no, no, no, no, no, no, no, no, no, no],
    #[no, no, no, no, no, no, no, no, no, no, no, no, no, no, no, no, no, no, no],
    #[no, no, no, no, no, no, no, go 34, no, go 35, no, no, go 36, go 12, go 57, no, no, no, no],
    #[no, no, no, no, no, no, no, go 34, no, go 35, no, no, go 36, go 12, go 58, no, no, no, no],
    #[no, no, no, no, no, no, no, go 34, no, go 35, no, no, go 36, go 12, go 59, no, no, no, no],
    #[no, no, no, no, no, no, no, no, no, no, no, no, no, no, no, no, no, no, no],
    #[no, no, no, no, no, no, no, no, no, no, no, no, no, no, no, no, no, no, no],
    #[no, no, no, no, no, no, no, no, no, no, no, go 60, no, no, no, go 61, no, no, no],
    #[no, no, no, no, no, no, no, no, no, no, no, no, no, no, no, no, no, no, no],
    #[no, no, no, no, no, no, no, go 41, no, go 42, no, no, go 43, go 12, no, no, no, no, go 62],
    #[no, no, no, no, no, no, no, go 41, no, go 42, no, no, go 43, go 12, no, no, no, no, go 63],
    #[no, no, no, no, no, no, no, go 41, no, go 42, no, no, go 43, go 12, no, no, no, no, go 64],
    #[no, no, no, no, no, no, no, no, no, no, no, no, no, no, no, no, no, no, no],
    #[no, no, no, no, no, no, no, no, no, no, no, no, no, no, no, no, no, no, no],
    #[no, no, no, no, no, no, no, no, no, no, no, go 60, no, no, no, go 65, no, no, no],
    #[no, no, no, no, no, no, no, no, no, no, no, no, no, no, no, no, no, no, no],
    #[no, no, no, no, no, no, no, no, no, no, no, no, no, no, no, no, no, no, no],
    #[no, no, no, no, no, no, no, no, no, no, no, no, no, no, no, no, no, no, no],
    #[no, no, no, no, no, no, no, no, no, no, no, no, no, no, no, no, no, no, no],
    #[no, no, no, no, no, no, no, no, no, no, no, no, no, no, no, no, no, no, no],
    #[no, no, no, no, no, no, no, no, no, no, no, no, no, no, no, no, no, no, no],
    #[no, no, no, no, no, no, no, no, no, no, no, no, no, no, no, no, no, no, no],
    #[no, no, no, no, no, no, no, no, no, no, no, no, no, no, no, no, no, no, no],
    #[no, no, no, no, no, no, no, no, no, no, no, no, no, no, no, no, no, no, no],
    #[no, no, no, no, no, no, no, no, no, no, no, no, no, no, no, no, no, no, no],
    #[no, no, no, no, no, no, no, no, no, no, no, no, no, no, no, no, no, no, no],
    #[no, no, no, no, no, no, no, no, no, no, no, no, no, no, no, no, no, no, no],
    #[no, no, no, no, no, no, no, no, no, no, no, no, no, no, no, no, no, no, no],
    #[no, no, no, no, no, no, no, no, no, no, no, no, no, no, no, no, no, no, no],
    #[no, no, no, no, no, no, no, no, no, no, no, no, no, no, no, no, no, no, no],
    #[no, no, no, no, no, no, no, no, no, no, no, no, no, no, no, no, no, no, no],
    #[no, no, no, no, no, no, no, no, no, no, no, no, no, no, no, no, no, no, no],
    #[no, no, no, no, no, no, no, no, no, no, no, no, no, no, no, no, no, no, no],
    #[no, no, no, no, no, no, no, no, no, no, no, no, no, no, no, no, no, no, no],
    #[no, no, no, no, no, no, no, no, no, no, no, no, no, no, no, no, no, no, no],
    #[no, no, no, no, no, no, go 73, no, no, no, no, no, no, no, no, no, no, no, no],
    #[no, no, no, no, no, no, no, no, no, no, no, no, no, no, no, no, no, no, no],
    #[no, no, no, no, no, no, no, no, no, no, no, go 74, no, no, no, no, no, no, no],
    #[no, no, no, no, no, no, no, no, no, no, no, go 75, no, no, no, no, no, no, no],
    #[no, no, no, no, no, no, no, no, no, no, no, no, no, no, no, no, no, no, no],
    #[no, no, no, no, no, no, no, no, no, no, no, no, no, no, no, no, no, no, no],
    #[no, no, no, no, no, no, no, no, no, no, no, no, no, no, no, no, no, no, no],
    #[no, no, no, no, no, no, no, no, no, no, no, no, no, no, no, no, no, no, no],
    #[no, no, no, no, no, no, no, no, no, no, no, no, no, no, no, no, no, no, no],
    #[no, no, no, no, no, no, no, no, no, no, no, no, no, no, no, no, no, no, no]]

end MgolTables

/-- **The decision tables of MGol.** -/
def DecisionTables.mgol : DecisionTables where
  rules := .mgol
  actions := ⟨MgolTables.actionColumns, MgolTables.actionRows⟩
  gotos := ⟨MgolTables.gotoColumns, MgolTables.gotoRows⟩

end Mgol
