import Mgol.Format.JsonReader
import Mgol.Format.JsonText
import Mgol.Grammar.Rule

/-! # Rule sets as JSON

A rule set is a JSON array of its rules. A rule is an object with the keys `rule_number`, `left`
and `right`, or the array of these three values; other keys are passed over.

* **`RuleSet.json`** — a rule set as indented JSON.
* **`RuleSet.ofJson`** — reads a rule set. -/

namespace Mgol

namespace Json.Value

/-- A natural number written in plain digits. -/
def natural? : Value → Option Nat
  | .number digits =>
    match Text.readDigits? digits with
    | some n => if n ≤ Text.wordMax then some n else none
    | none => none
  | _ => none

/-- The text of a string. -/
def text? : Value → Option String
  | .text s => s
  | _ => none

/-- The texts of an array of strings. -/
def texts? : Value → Option (List String)
  | .array items => items.mapM text?
  | _ => none

end Json.Value

namespace Rule

/-- What has been found of a rule's three values. -/
structure Partial where
  number : Option Nat := none
  left : Option String := none
  right : Option (List String) := none

/-- Takes in one field of a rule. A key must not come twice, and its value must fit. -/
def Partial.add (p : Partial) (key : Option String) (value : Json.Value) : Option Partial :=
  match key with
  | none => none
  | some "rule_number" =>
    if p.number.isSome then none else (value.natural?).map fun n => { p with number := some n }
  | some "left" =>
    if p.left.isSome then none else (value.text?).map fun s => { p with left := some s }
  | some "right" =>
    if p.right.isSome then none else (value.texts?).map fun l => { p with right := some l }
  | some _ => some p

/-- The rule, once all three values are there. -/
def Partial.rule? (p : Partial) : Option Rule :=
  match p.number, p.left, p.right with
  | some number, some left, some right => some ⟨number, left, right⟩
  | _, _, _ => none

/-- **Reads one rule.** -/
def ofJson? : Json.Value → Option Rule
  | .object fields =>
    (fields.foldlM (fun (p : Partial) field => p.add field.1 field.2) {}).bind Partial.rule?
  | .array [number, left, right] =>
    Partial.rule? ⟨number.natural?, left.text?, right.texts?⟩
  | _ => none

/-- The right side of a rule as indented JSON. -/
def rightJson (right : List GrammarSymbol) : String :=
  if right.isEmpty then "[]"
  else "[\n" ++ ",\n".intercalate (right.map fun a => "      " ++ Json.quote a) ++ "\n    ]"

/-- A rule as indented JSON. -/
def json (r : Rule) : String :=
  "  \x7b\n    \"rule_number\": " ++ toString r.number ++ ",\n    \"left\": " ++ Json.quote r.left
    ++ ",\n    \"right\": " ++ rightJson r.right ++ "\n  \x7d"

end Rule

namespace RuleSet

/-- **The rule set as indented JSON.** -/
def json (g : RuleSet) : String :=
  "[\n" ++ ",\n".intercalate (g.rules.map Rule.json) ++ "\n]"

/-- The rules of a JSON array. -/
def rulesOfJson? : Json.Value → Option (List Rule)
  | .array items => items.mapM Rule.ofJson?
  | _ => none

/-- **Reads a rule set from JSON.** -/
def ofJson (text origin : String) : Except GrammarError RuleSet :=
  match (Json.read? text.toList).bind rulesOfJson? with
  | some rules => ofRules rules origin
  | none => .error (.rulesFormat origin .unreadable)

end RuleSet

end Mgol
