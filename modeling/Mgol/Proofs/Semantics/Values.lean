import Mgol.Semantics.Executor

/-! # The values of left sides

Whatever a reduction has taken off, its action makes up a value for the left side or passes on one
that was taken off. If it refuses the reduction, no stack is the cause.

* **`Reduction.Gives`** — what an action can give.
* **`gives_perform`** — the actions of MGol give nothing else. -/

namespace Mgol

/-- **What an action gives**: a value of its own for the left side, a value of the right side, or a
refusal that has nothing to do with a stack. -/
inductive Reduction.Gives (r : Reduction) : Except SemanticError Token → Prop
  | made {v : Token} (kind : v.kind = .nonterminal) : Gives r (.ok v)
  | passed {i : Nat} {u : Spanned Token} (taken : r.values[i]? = some u) : Gives r (.ok u.value)
  | refused {e : SemanticError} (cause : ∀ s, e ≠ .stack s) : Gives r (.error e)

namespace SemanticAction

variable {r : Reduction} {c : ActionContext}

/-- Where a value is missing the reduction is refused. -/
theorem gives_withToken {i : Nat} {next : Token → ActionResult}
    (h : ∀ u, r.values[i]? = some u → r.Gives (next u.value).1) :
    r.Gives (r.withToken i c next).1 := by
  unfold Reduction.withToken Reduction.token
  cases hget : r.values[i]? with
  | none => exact .refused nofun
  | some u => exact h u hget

/-- Where no temporary is left the reduction is refused. -/
theorem gives_withTemporary {kind : Target.TemporaryKind}
    {next : String → ActionContext → ActionResult} (h : ∀ name c, r.Gives (next name c).1) :
    r.Gives (withTemporary kind c next).1 := by
  unfold withTemporary
  split
  · exact .refused nofun
  · exact h _ _

/-- Operands without one type have a value that says so. -/
theorem gives_withOperands {next : Token → Token → Token → ActionContext → ActionResult}
    (h : ∀ left operator right, r.Gives (next left operator right c).1) :
    r.Gives (withOperands r c next).1 := by
  unfold withOperands
  refine gives_withToken fun left _ => gives_withToken fun operator _ =>
    gives_withToken fun right _ => ?_
  split
  · exact .made rfl
  · split
    · exact .made rfl
    · exact h _ _ _

/-- A name is declared, unless the registry has no place for its type. -/
theorem gives_declareIdentifier (r : Reduction) (c : ActionContext) :
    r.Gives (declareIdentifier r c).1 := by
  refine gives_withToken fun id _ => ?_
  split
  · next e hdeclare =>
    -- only the registry can refuse a name its type
    unfold ActionContext.declare ActionContext.setPendingType at hdeclare
    refine .refused ?_
    rintro s rfl
    simp only at hdeclare
    split at hdeclare
    · cases hdeclare
    · split at hdeclare
      · split at hdeclare <;> cases hdeclare
      · cases hdeclare
  · exact .made rfl

/-- An argument is written. -/
theorem gives_writeStatement (r : Reduction) (c : ActionContext) :
    r.Gives (writeStatement r c).1 := by
  refine gives_withToken fun argument _ => ?_
  split
  · exact .made rfl
  · exact .made rfl
  · exact .made rfl

/-- An operation has a temporary for its value. -/
theorem gives_arithmetic (r : Reduction) (c : ActionContext) : r.Gives (arithmetic r c).1 := by
  refine gives_withOperands fun left operator right => ?_
  split
  · exact .made rfl
  · exact gives_withTemporary fun name c => .made rfl

/-- **What the actions of MGol give.** -/
theorem gives_action {n : Nat} {action : SemanticAction} (haction : mgolActions n = some action)
    (r : Reduction) (c : ActionContext) : r.Gives (action r c).1 := by
  unfold mgolActions at haction
  split at haction
  all_goals first
    | obtain rfl := Option.some.inj haction
    | cases haction
  -- declarations
  · exact gives_withToken fun declared _ => .made rfl
  iterate 2 exact gives_declareIdentifier r c
  iterate 3 exact gives_withToken fun keyword _ => .made rfl
  -- reading and writing
  · exact gives_withToken fun id _ => .made rfl
  · exact gives_writeStatement r c
  iterate 3 exact gives_withToken fun argument hargument => .passed hargument
  -- assignments and expressions
  · exact gives_withToken fun id _ => gives_withToken fun value _ => .made rfl
  · exact gives_arithmetic r c
  · exact gives_withToken fun operand _ => .made rfl
  · exact gives_withToken fun id _ => .made rfl
  · exact gives_withToken fun operand _ => .made rfl
  -- conditionals, comparisons and loops
  · exact .made rfl
  · exact gives_withToken fun condition _ => .made rfl
  · exact gives_withOperands fun left operator right => gives_withTemporary fun name c => .made rfl
  · exact .made rfl
  · exact gives_withToken fun condition _ => .made rfl

end SemanticAction

/-- **What a reduction gives for its left side**, with the actions of MGol. -/
theorem gives_perform (r : Reduction) (c : ActionContext) :
    r.Gives (Executor.perform mgolActions r c).1 := by
  unfold Executor.perform
  split
  · next action haction => exact SemanticAction.gives_action haction r c
  · exact .made rfl

end Mgol
