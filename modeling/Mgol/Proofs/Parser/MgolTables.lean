import Mgol.Grammar.Mgol
import Mgol.Proofs.Parser.Driver

/-! # The tables of MGol

The tables that are written out are the ones constructed from the rules, so all that holds of
constructed tables holds of them.

* **`RuleSet.mgol_numbered`**, **`RuleSet.mgol_built`** — the rules and the tables of MGol. -/

namespace Mgol

/-- The rules of MGol have different numbers. -/
theorem RuleSet.mgol_numbered : RuleSet.mgol.Numbered := by
  unfold RuleSet.Numbered
  decide

set_option maxRecDepth 1000000 in
/-- The construction gives the tables that are written out. -/
theorem RuleSet.slrTables_mgol :
    (RuleSet.mgol.slrTables .mgol).toOption =
      some ⟨DecisionTables.mgol.actions, DecisionTables.mgol.gotos⟩ := by
  decide +kernel

/-- **The tables of MGol are constructed from its rules.** -/
theorem RuleSet.mgol_built : RuleSet.mgol.Built DecisionTables.mgol where
  numbered := mgol_numbered
  rules_eq := rfl
  constructed := by
    refine ⟨.mgol, ?_⟩
    have h := slrTables_mgol
    cases hslr : RuleSet.mgol.slrTables .mgol with
    | error e =>
      rw [hslr] at h
      cases h
    | ok tables =>
      rw [hslr] at h
      rw [Option.some.inj h]

end Mgol
