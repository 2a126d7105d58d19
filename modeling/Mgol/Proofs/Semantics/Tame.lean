import Mgol.Proofs.Semantics.Tally
import Mgol.Grammar.Mgol

/-! # What semantic actions leave alone

However many errors a program has, an action changes no word of the registry, reports nothing but
type errors, and refuses a reduction only for want of temporaries.

* **`ActionContext.Keeps`** — what an action leaves alone.
* **`ActionResult.Willing`, `perform_mgol_willing`** — what an action refuses a reduction for.
* **`ActionResult.Tame`, `perform_mgol_tame`** — the actions of MGol on the values of their right
  sides. -/

namespace Mgol

open Target

/-- **What an action leaves alone**: the words of the registry stay, and what is reported are errors
of types. -/
structure ActionContext.Keeps (c c' : ActionContext) : Prop where
  sameWords : c.session.registry.SameWords c'.session.registry
  reported : ∃ found : Array Diagnostic, (∀ d ∈ found, d.kind = .semantic) ∧
    c'.work.diagnostics = c.work.diagnostics ++ found
  counted : c.work.errorCount ≤ c'.work.errorCount

namespace ActionContext

/-- A context keeps itself. -/
theorem Keeps.refl (c : ActionContext) : c.Keeps c :=
  ⟨.refl _, ⟨#[], by simp, by simp⟩, Nat.le_refl _⟩

/-- What is kept twice is kept. -/
theorem Keeps.trans {c c' c'' : ActionContext} (h : c.Keeps c') (h' : c'.Keeps c'') :
    c.Keeps c'' := by
  obtain ⟨found, hkind, heq⟩ := h.reported
  obtain ⟨found', hkind', heq'⟩ := h'.reported
  refine ⟨fun lexeme => (h.sameWords lexeme).trans (h'.sameWords lexeme),
    ⟨found ++ found', fun d hd => ?_, by rw [heq', heq, Array.append_assoc]⟩,
    Nat.le_trans h.counted h'.counted⟩
  exact (Array.mem_append.mp hd).elim (hkind d) (hkind' d)

/-- Work on the program and on declarations is kept out of the rest. -/
theorem Keeps.of_eq {c c' : ActionContext} (hsession : c'.session.registry = c.session.registry)
    (hdiagnostics : c'.work.diagnostics = c.work.diagnostics)
    (hcount : c'.work.errorCount = c.work.errorCount) : c.Keeps c' :=
  ⟨by rw [hsession]; exact .refl _, ⟨#[], by simp, by simp [hdiagnostics]⟩,
    Nat.le_of_eq hcount.symm⟩

/-- A report counts one error and is one of types. -/
theorem keeps_report (c : ActionContext) (code : Code) (message : String) (p : Position)
    (lexeme : String) :
    c.Keeps (c.report code message p lexeme) ∧
      (c.report code message p lexeme).work.errorCount = c.work.errorCount + 1 := by
  obtain ⟨journal, heq⟩ := c.report_eq code message p lexeme
  rw [heq]
  refine ⟨⟨.refl _, ?_, Nat.le_succ _⟩, rfl⟩
  dsimp only
  split
  · exact ⟨#[_], by simp, rfl⟩
  · exact ⟨#[], by simp, by simp⟩

/-- Whatever actions are made of keeps a context. -/
theorem routine_keeps : Routine Keeps where
  trans := Keeps.trans
  report c code message p lexeme := (c.keeps_report code message p lexeme).1
  declare := by
    intro c c' lexeme hset
    obtain ⟨registry, hregistry, rfl⟩ := setPendingType_eq_ok hset
    exact ⟨Registry.sameWords_setType hregistry, ⟨#[], by simp, by simp⟩, Nat.le_refl _⟩
  work := fun hsession hdiagnostics hcount => .of_eq (by rw [hsession]) hdiagnostics hcount

/-- A name in the registry that is no reserved word can be declared. -/
theorem exists_declare {c : ActionContext} {id : Token} (p : Position)
    (hknown : c.session.registry.Knows id.lexeme) : ∃ c', c.declare id p = .ok c' := by
  obtain ⟨entry, hentry, hkind⟩ := hknown
  unfold declare
  simp only
  split
  · exact ⟨_, rfl⟩
  · split
    · simp only [setPendingType, Registry.setType, hentry, hkind]
      exact ⟨_, rfl⟩
    · exact ⟨c, rfl⟩

end ActionContext

/-- **An action that refuses** a reduction, if at all, for want of temporaries. -/
def ActionResult.Willing (result : ActionResult) : Prop :=
  ∀ e, result.1 = .error e → e = .tooManyTemporaries Limits.temporaries

/-- **An action that does its part**: it keeps the context, and refuses only for want of
temporaries. -/
structure ActionResult.Tame (c : ActionContext) (result : ActionResult) : Prop where
  keeps : c.Keeps result.2
  refused : ∀ e, result.1 = .error e → e = .tooManyTemporaries Limits.temporaries

namespace SemanticAction

open ActionContext

/-- An action that gives a value does not refuse. -/
theorem willing_ok (v : Token) (c : ActionContext) : ActionResult.Willing (.ok v, c) := nofun

/-- The value of a symbol is there if the right side has as many symbols. -/
theorem willing_withToken {r : Reduction} {i : Nat} {c : ActionContext} {next : Token → ActionResult}
    (hi : i < r.values.length)
    (hnext : ∀ v, r.values[i]? = some v → ActionResult.Willing (next v.value)) :
    ActionResult.Willing (r.withToken i c next) := by
  have hget : r.values[i]? = some r.values[i] := List.getElem?_eq_getElem hi
  unfold Reduction.withToken Reduction.token
  rw [hget]
  exact hnext _ hget

/-- An action that only gives a value does not refuse. -/
theorem willing_value {r : Reduction} (c : ActionContext) {i : Nat} (hi : i < r.values.length)
    {value : Token → Token} {next : Token → ActionContext} :
    ActionResult.Willing (r.withToken i c fun t => (.ok (value t), next t)) :=
  willing_withToken hi fun _ _ => willing_ok _ _

/-- A temporary is there, or the action refuses for want of it. -/
theorem willing_withTemporary {kind : TemporaryKind} {c : ActionContext}
    {next : String → ActionContext → ActionResult}
    (hnext : ∀ name, ActionResult.Willing (next name (c.addTemporary kind))) :
    ActionResult.Willing (withTemporary kind c next) := by
  unfold withTemporary
  split
  · exact fun e he => (Except.error.inj he).symm
  · exact hnext _

/-- Operands are there, and a mismatch is no refusal. -/
theorem willing_withOperands {r : Reduction} {c : ActionContext}
    {next : Token → Token → Token → ActionContext → ActionResult} (hlength : r.values.length = 3)
    (hnext : ∀ left operator right, ActionResult.Willing (next left operator right c)) :
    ActionResult.Willing (withOperands r c next) := by
  unfold withOperands
  refine willing_withToken (by omega) fun left _ => willing_withToken (by omega) fun operator _ =>
    willing_withToken (by omega) fun right _ => ?_
  split
  · exact willing_ok _ _
  · split
    · exact willing_ok _ _
    · exact hnext _ _ _

/-- A name in the registry can be declared. -/
theorem willing_declareIdentifier {r : Reduction} (c : ActionContext)
    (hlength : 0 < r.values.length)
    (hname : ∀ v, r.values[0]? = some v → c.session.registry.Knows v.value.lexeme) :
    ActionResult.Willing (declareIdentifier r c) := by
  refine willing_withToken hlength fun v hv => ?_
  obtain ⟨c', hdeclare⟩ := exists_declare (r.positionOf 0) (hname v hv)
  rw [hdeclare]
  exact willing_ok _ _

/-- A statement that writes. -/
theorem willing_writeStatement {r : Reduction} (c : ActionContext) (hlength : r.values.length = 3) :
    ActionResult.Willing (writeStatement r c) := by
  refine willing_withToken (by omega) fun v _ => ?_
  split
  · exact willing_ok _ _
  · exact willing_ok _ _
  · exact willing_ok _ _

/-- An assignment. -/
theorem willing_assignment {r : Reduction} (c : ActionContext) (hlength : r.values.length = 4) :
    ActionResult.Willing (assignment r c) :=
  willing_withToken (by omega) fun _ _ => willing_withToken (by omega) fun _ _ => willing_ok _ _

/-- An arithmetic expression. -/
theorem willing_arithmetic {r : Reduction} (c : ActionContext) (hlength : r.values.length = 3) :
    ActionResult.Willing (arithmetic r c) := by
  refine willing_withOperands hlength fun left operator right => ?_
  split
  · exact willing_ok _ _
  · exact willing_withTemporary fun name => willing_ok _ _

/-- A comparison. -/
theorem willing_relational {r : Reduction} (c : ActionContext) (hlength : r.values.length = 3) :
    ActionResult.Willing (relational r c) :=
  willing_withOperands hlength fun _ _ _ => willing_withTemporary fun _ => willing_ok _ _

/-- **The actions of MGol are willing** on as many values as the right side of their rule has
symbols, if a name at its beginning is in the registry. -/
theorem perform_mgol_willing {rule : Rule} (hrule : rule ∈ RuleSet.mgol.rules)
    {values : List (Spanned Token)} (hlength : values.length = rule.right.length) (p : Position)
    (c : ActionContext)
    (hname : ∀ v, rule.right[0]? = some "id" → values[0]? = some v →
      c.session.registry.Knows v.value.lexeme) :
    ActionResult.Willing (Executor.perform mgolActions ⟨rule, values, p⟩ c) := by
  simp only [RuleSet.rules, RuleSet.mgol, List.mem_cons, List.not_mem_nil, or_false] at hrule
  rcases hrule with rfl | rfl | rfl | rfl | rfl | rfl | rfl | rfl | rfl | rfl | rfl | rfl | rfl |
    rfl | rfl | rfl | rfl | rfl | rfl | rfl | rfl | rfl | rfl | rfl | rfl | rfl | rfl | rfl | rfl |
    rfl | rfl | rfl | rfl | rfl | rfl | rfl | rfl | rfl | rfl
  -- by the action of the rule; the rules of one action follow one line
  all_goals
    simp only [List.length_cons, List.length_nil] at hlength
    unfold Executor.perform
    dsimp only [mgolActions]
  all_goals first
    | exact willing_ok _ _
    | exact willing_declareIdentifier c (by simp only [hlength]; decide) fun v => hname v rfl
    | exact willing_writeStatement c hlength
    | exact willing_assignment c hlength
    | exact willing_arithmetic c hlength
    | exact willing_relational c hlength
    | exact willing_value c (by simp only [hlength]; decide)

/-- **The actions of MGol do their part** on as many values as the right side of their rule has
symbols, if a name at its beginning is in the registry. -/
theorem perform_mgol_tame {rule : Rule} (hrule : rule ∈ RuleSet.mgol.rules)
    {values : List (Spanned Token)} (hlength : values.length = rule.right.length) (p : Position)
    (c : ActionContext)
    (hname : ∀ v, rule.right[0]? = some "id" → values[0]? = some v →
      c.session.registry.Knows v.value.lexeme) :
    ActionResult.Tame c (Executor.perform mgolActions ⟨rule, values, p⟩ c) := by
  refine ⟨?_, perform_mgol_willing hrule hlength p c hname⟩
  unfold Executor.perform
  split
  · next haction => exact routine routine_keeps haction _ c
  · exact .refl c

end SemanticAction

end Mgol
