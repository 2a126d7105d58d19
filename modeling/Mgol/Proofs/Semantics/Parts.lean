import Mathlib.Logic.Relation
import Mgol.Semantics.Executor

/-! # What semantic actions are made of

Every action is made of a few parts: reports at the places of the right side, names that get their
types, lines that are written and temporaries that they use. Only the heads and the ends of
conditionals and loops do more: these open and close blocks, and no other action does.

* **`ActionContext.report_eq`, `ActionContext.declare_eq_ok`** — what a report and a declaration do.
* **`ActionContext.Plain`, `ActionContext.Part`** — a part of any action, and a part of an action on
  a declaration as well.
* **`SemanticAction.computes_action`, `SemanticAction.does_action`** — the parts of an action that
  opens and closes no block.
* **`SemanticAction.onBlocks_action`** — what the others leave alone.
* **`Reduction.Outcome`, `outcome_of_perform`** — what a reduction can do. -/

namespace Mgol

open Target

/-! ## Reports and declarations -/

namespace ActionContext

variable {c c' : ActionContext}

/-- What a report does apart from notes. -/
theorem report_eq (c : ActionContext) (code : Code) (message : String) (p : Position)
    (lexeme : String) :
    ∃ journal, c.report code message p lexeme =
      ⟨{ c.work with
         errorCount := c.work.errorCount + 1
         diagnostics :=
           if c.work.diagnostics.size < Limits.semanticErrors then
             c.work.diagnostics.push ⟨.semantic, code, message, p, some lexeme⟩
           else c.work.diagnostics },
       ⟨c.session.registry, journal⟩⟩ := by
  unfold report
  simp only
  split
  · next hroom => exact ⟨_, by rw [if_pos (show c.work.diagnostics.size < _ from hroom)]; rfl⟩
  · next hroom =>
    rw [if_neg (show ¬c.work.diagnostics.size < _ from hroom)]
    split
    · exact ⟨_, rfl⟩
    · exact ⟨_, rfl⟩

/-- A name gets the type of the declaration in the registry, and waits for its end. -/
theorem setPendingType_eq_ok {lexeme : String} (h : c.setPendingType lexeme = .ok c') :
    ∃ registry, c.session.registry.setType lexeme c.work.pendingType = .ok registry ∧
      c' = ⟨{ c.work with pendingNames := lexeme :: c.work.pendingNames },
        { c.session with registry }⟩ := by
  unfold setPendingType at h
  split at h
  · cases h
  · next registry hset => exact ⟨registry, hset, (Except.ok.inj h).symm⟩

/-- **What a declaration does**: a name that has a type is reported, and another one gets the type of
the declaration, if there is one. -/
theorem declare_eq_ok {id : Token} {p : Position} (h : c.declare id p = .ok c') :
    (c.session.registry.typeOf id.lexeme ≠ .untyped ∧
      c' = c.report .redeclaration
        ("Variable '" ++ id.lexeme ++ "' already declared as "
          ++ (c.session.registry.typeOf id.lexeme).text) p id.lexeme) ∨
    (c.session.registry.typeOf id.lexeme = .untyped ∧
      (c.work.pendingType ≠ .untyped ∧ c.setPendingType id.lexeme = .ok c' ∨
        c.work.pendingType = .untyped ∧ c' = c)) := by
  unfold declare at h
  simp only at h
  split at h
  · next htyped => exact .inl ⟨htyped, (Except.ok.inj h).symm⟩
  · next hnew =>
    refine .inr ⟨Decidable.of_not_not hnew, ?_⟩
    split at h
    · next hpending => exact .inl ⟨hpending, h⟩
    · next hnone => exact .inr ⟨Decidable.of_not_not hnone, (Except.ok.inj h).symm⟩

end ActionContext

namespace Reduction

/-- Where a value is missing nothing changes. -/
theorem withToken_keeps {R : ActionContext → ActionContext → Prop} {r : Reduction} {i : Nat}
    {c : ActionContext} {next : Token → ActionResult} (hrefl : R c c) (h : ∀ t, R c (next t).2) :
    R c (r.withToken i c next).2 := by
  unfold withToken
  split
  · exact hrefl
  · exact h _

/-- The value that an action goes on with. -/
theorem withToken_eq_ok {r : Reduction} {i : Nat} {c c' : ActionContext}
    {next : Token → ActionResult} {v : Token} (h : r.withToken i c next = (.ok v, c')) :
    ∃ t, r.values[i]? = some t ∧ next t.value = (.ok v, c') := by
  unfold withToken token at h
  cases ht : r.values[i]? with
  | none =>
    rw [ht] at h
    cases h
  | some t =>
    rw [ht] at h
    exact ⟨t, rfl, h⟩

end Reduction

/-! ## Parts -/

/-- A statement that writes no text but that of a literal constant on the right side. -/
def Reduction.Quotes (r : Reduction) (s : Statement) : Prop :=
  ∀ literal, s = .writeText literal →
    ∃ u ∈ r.values, u.value.kind = .literal ∧ literal = cLiteral u.value.lexeme

namespace ActionContext

/-- **A part of any action** on a reduction: a report at a place of its right side, a line, a
temporary, or a comparison that is kept for a loop. -/
inductive Plain (r : Reduction) (c : ActionContext) : ActionContext → Prop
  | reported (code : Code) (message : String) (i : Nat) (lexeme : String) :
      Plain r c (c.report code message (r.positionOf i) lexeme)
  | written (s : Statement) (quotes : r.Quotes s) : Plain r c (c.emit s)
  | reserved (kind : TemporaryKind) : Plain r c (c.addTemporary kind)
  | kept (comparison : Option Statement) (quotes : ∀ s ∈ comparison, r.Quotes s) :
      Plain r c { c with work := { c.work with lastRelational := comparison } }

/-- **A part of an action**: one of any action, or one on a declaration, in which a name gets its
type or the declaration itself begins or ends. -/
inductive Part (r : Reduction) (c : ActionContext) : ActionContext → Prop
  | plain {c' : ActionContext} (part : Plain r c c') : Part r c c'
  | typed {c' : ActionContext} {lexeme : String} (set : c.setPendingType lexeme = .ok c') :
      Part r c c'
  | pending (type : DataType) (names : List String) :
      Part r c { c with work := { c.work with pendingType := type, pendingNames := names } }

/-- **Parts of any action**, one after the other. -/
def Computes (r : Reduction) (c c' : ActionContext) : Prop := Relation.ReflTransGen (Plain r) c c'

/-- **Parts of an action**, one after the other. -/
def Does (r : Reduction) (c c' : ActionContext) : Prop := Relation.ReflTransGen (Part r) c c'

/-- **Work on blocks**: only the program and the comparisons of loops change. -/
def OnBlocks (c c' : ActionContext) : Prop :=
  ∃ code lastRelational openLoops,
    c' = { c with work := { c.work with code, lastRelational, openLoops } }

variable {r : Reduction} {c c' c'' : ActionContext}

/-- **A relation that every part keeps is kept by all of them.** -/
theorem of_parts {P R : ActionContext → ActionContext → Prop}
    (h : Relation.ReflTransGen P c c') (hrefl : ∀ c, R c c)
    (htrans : ∀ {c c' c''}, R c c' → R c' c'' → R c c'') (hpart : ∀ {c c'}, P c c' → R c c') :
    R c c' := by
  induction h with
  | refl => exact hrefl _
  | tail _ part ih => exact htrans ih (hpart part)

/-- Nothing is done. -/
theorem Computes.refl (r : Reduction) (c : ActionContext) : Computes r c c :=
  Relation.ReflTransGen.refl

/-- A part by itself. -/
theorem Plain.computes (h : Plain r c c') : Computes r c c' := .single h

/-- More is done. -/
theorem Computes.trans (h : Computes r c c') (h' : Computes r c' c'') : Computes r c c'' :=
  Relation.ReflTransGen.trans h h'

/-- A part by itself. -/
theorem Part.does (h : Part r c c') : Does r c c' := .single h

/-- What any action may do is done. -/
theorem Computes.does (h : Computes r c c') : Does r c c' :=
  Relation.ReflTransGen.mono (fun _ _ => .plain) _ _ h

/-- Looking a name up may report it. -/
theorem computes_lookup (r : Reduction) (c : ActionContext) (id : Token) (i : Nat) :
    Computes r c (c.lookup id (r.positionOf i)).2 := by
  unfold lookup
  simp only
  split
  · exact (Plain.reported _ _ i _).computes
  · exact .refl r c

/-- Declaring a name gives it a type or reports it. -/
theorem does_declare {id : Token} {i : Nat} (h : c.declare id (r.positionOf i) = .ok c') :
    Does r c c' := by
  rcases declare_eq_ok h with ⟨-, rfl⟩ | ⟨-, ⟨-, hset⟩ | ⟨-, rfl⟩⟩
  · exact (Plain.reported _ _ i _).computes.does
  · exact (Part.typed hset).does
  · exact (Computes.refl r c').does

/-- A statement is written if there is a type. -/
theorem computes_emitTyped (c : ActionContext) (type : DataType) {s : Statement}
    (h : r.Quotes s) : Computes r c (if type = .untyped then c else c.emit s) := by
  split
  · exact .refl r c
  · exact (Plain.written s h).computes

end ActionContext

namespace SemanticAction

open ActionContext Reduction

variable {r : Reduction} {c : ActionContext}

/-- Where no temporary is left nothing is done. -/
theorem computes_withTemporary {kind : TemporaryKind} {next : String → ActionContext → ActionResult}
    (h : ∀ name, Computes r (c.addTemporary kind) (next name (c.addTemporary kind)).2) :
    Computes r c (withTemporary kind c next).2 := by
  unfold withTemporary
  split
  · exact .refl r c
  · exact (Plain.reserved kind).computes.trans (h _)

/-- Operands without one type are reported, unless that happened before. -/
theorem computes_withOperands {next : Token → Token → Token → ActionContext → ActionResult}
    (h : ∀ left operator right, Computes r c (next left operator right c).2) :
    Computes r c (withOperands r c next).2 := by
  unfold withOperands
  refine withToken_keeps (.refl r c) fun left => withToken_keeps (.refl r c) fun operator =>
    withToken_keeps (.refl r c) fun right => ?_
  split
  · exact .refl r c
  · split
    · exact (Plain.reported _ _ 0 _).computes
    · exact h _ _ _

/-- An argument is looked up if it is a name. -/
theorem computes_writeStatement (r : Reduction) (c : ActionContext) :
    Computes r c (writeStatement r c).2 := by
  unfold writeStatement withToken token
  cases hvalue : r.values[1]? with
  | none => exact .refl r c
  | some u =>
    simp only
    split
    · next hliteral =>
      refine (Plain.written _ fun literal heq => ?_).computes
      obtain rfl := Statement.writeText.inj heq
      exact ⟨u, List.mem_of_getElem? hvalue, hliteral, rfl⟩
    · exact (computes_lookup r c u.value 1).trans (computes_emitTyped _ _ nofun)
    · exact computes_emitTyped _ _ nofun

/-- An assignment looks its target up and may report a mismatch. -/
theorem computes_assignment (r : Reduction) (c : ActionContext) :
    Computes r c (assignment r c).2 := by
  refine withToken_keeps (.refl r c) fun id => withToken_keeps (.refl r c) fun value =>
    (computes_lookup r c id 0).trans ?_
  dsimp only
  split
  · exact .refl r _
  · split
    · exact (Plain.reported _ _ 0 _).computes
    · split
      · exact (Plain.written _ (by nofun)).computes
      · exact (Plain.written _ (by nofun)).computes

/-- An arithmetic expression computes a temporary, unless its operands are literals. -/
theorem computes_arithmetic (r : Reduction) (c : ActionContext) :
    Computes r c (arithmetic r c).2 := by
  refine computes_withOperands fun left operator right => ?_
  split
  · exact (Plain.reported _ _ 0 _).computes
  · exact computes_withTemporary fun name => (Plain.written _ (by nofun)).computes

/-- A comparison computes a temporary and is kept. -/
theorem computes_relational (r : Reduction) (c : ActionContext) :
    Computes r c (relational r c).2 := by
  have hforget : Computes r c (forgetRelational c) := (Plain.kept none nofun).computes
  have hkeep : ∀ (c : ActionContext) {s : Statement}, r.Quotes s →
      Computes r c (keepRelational c s) := by
    intro c s hs
    refine (Plain.written s hs).computes.trans (Plain.kept (some s) ?_).computes
    rintro _ ⟨⟩
    exact hs
  exact hforget.trans (computes_withOperands fun left operator right =>
    computes_withTemporary fun name => hkeep _ (by nofun))

/-- **The parts of an action outside declarations** that opens and closes no block. -/
theorem computes_action {n : Nat} {action : SemanticAction} (haction : mgolActions n = some action)
    (hdeclaration : n ∉ [6, 7, 8, 9, 10, 11]) (hblock : n ∉ [25, 26, 33, 34]) (r : Reduction)
    (c : ActionContext) : Computes r c (action r c).2 := by
  unfold mgolActions at haction
  split at haction
  all_goals first
    | exact absurd (by decide) hdeclaration
    | exact absurd (by decide) hblock
    | cases haction
  -- reading and writing
  · exact withToken_keeps (.refl r c) fun id =>
      (computes_lookup r c id 1).trans (computes_emitTyped _ _ nofun)
  · exact computes_writeStatement r c
  iterate 3 exact withToken_keeps (.refl r c) fun t => .refl r c
  -- assignments and expressions
  · exact computes_assignment r c
  · exact computes_arithmetic r c
  · exact withToken_keeps (.refl r c) fun operand => .refl r c
  · exact withToken_keeps (.refl r c) fun id => computes_lookup r c id 0
  · exact withToken_keeps (.refl r c) fun operand => .refl r c
  · exact computes_relational r c

/-- A declaration is written if it has a type and names. -/
theorem does_declaration (r : Reduction) (c : ActionContext) : Does r c (declaration r c).2 := by
  refine withToken_keeps (Computes.refl r c).does fun declared => ?_
  have hend : Does r c (endDeclaration c) := (Part.pending .untyped []).does
  dsimp only
  split
  · exact hend
  · exact Relation.ReflTransGen.trans hend (Plain.written _ (by nofun)).computes.does

/-- A name in a declaration is declared. -/
theorem does_declareIdentifier (r : Reduction) (c : ActionContext) :
    Does r c (declareIdentifier r c).2 := by
  refine withToken_keeps (Computes.refl r c).does fun id => ?_
  split
  · exact (Computes.refl r c).does
  · next hdeclare => exact does_declare hdeclare

/-- **The parts of an action** that opens and closes no block. -/
theorem does_action {n : Nat} {action : SemanticAction} (haction : mgolActions n = some action)
    (hblock : n ∉ [25, 26, 33, 34]) (r : Reduction) (c : ActionContext) :
    Does r c (action r c).2 := by
  by_cases hdeclaration : n ∈ [6, 7, 8, 9, 10, 11]
  · simp only [List.mem_cons, List.not_mem_nil, or_false] at hdeclaration
    rcases hdeclaration with rfl | rfl | rfl | rfl | rfl | rfl
    all_goals obtain rfl := Option.some.inj haction
    · exact does_declaration r c
    · exact does_declareIdentifier r c
    · exact does_declareIdentifier r c
    all_goals
      exact withToken_keeps (Computes.refl r c).does fun keyword =>
        (Part.pending _ c.work.pendingNames).does
  · exact (computes_action haction hdeclaration hblock r c).does

/-- **An action that opens or closes a block** works on blocks alone. -/
theorem onBlocks_action {n : Nat} {action : SemanticAction} (haction : mgolActions n = some action)
    (hblock : n ∈ [25, 26, 33, 34]) (r : Reduction) (c : ActionContext) :
    c.OnBlocks (action r c).2 := by
  have hsame : c.OnBlocks c := ⟨_, _, _, rfl⟩
  simp only [List.mem_cons, List.not_mem_nil, or_false] at hblock
  rcases hblock with rfl | rfl | rfl | rfl
  all_goals obtain rfl := Option.some.inj haction
  · exact ⟨_, _, _, rfl⟩
  · exact withToken_keeps hsame fun condition => ⟨_, _, _, rfl⟩
  · simp only [closeLoop, leaveLoop]
    split
    · exact ⟨_, _, _, rfl⟩
    · split
      · exact ⟨_, _, _, rfl⟩
      · exact ⟨_, _, _, rfl⟩
  · exact withToken_keeps hsame fun condition => ⟨_, _, _, rfl⟩

end SemanticAction

/-! ## Reductions -/

open SemanticAction

/-- **What a reduction can do.** The head of a loop takes over the latest comparison; its end writes
the one that was taken over last, and gives it up. -/
inductive Reduction.Outcome (r : Reduction) (c : ActionContext) : ActionContext → Prop
  | done {c' : ActionContext} (other : r.rule.number ∉ [25, 26, 33, 34])
      (does : ActionContext.Does r c c') : Outcome r c c'
  | closed (number : r.rule.number = 25) : Outcome r c c.closeBlock
  | opened (number : r.rule.number = 26) (condition : String) :
      Outcome r c (c.openBlock (.ifHolds condition))
  | left (number : r.rule.number = 33) : Outcome r c (leaveLoop c).closeBlock
  | entered (number : r.rule.number = 34) (condition : String) :
      Outcome r c (enterLoop (c.openBlock (.whileHolds condition)))

/-- **What the actions of MGol can do**, if the value of the left side is there. -/
theorem outcome_of_perform {r : Reduction} {c c' : ActionContext} {v : Token}
    (h : Executor.perform mgolActions r c = (.ok v, c')) : r.Outcome c c' := by
  unfold Executor.perform at h
  by_cases hn : r.rule.number ∈ [25, 26, 33, 34]
  · simp only [List.mem_cons, List.not_mem_nil, or_false] at hn
    rcases hn with hn | hn | hn | hn
    all_goals
      rw [hn] at h
      dsimp only [mgolActions] at h
    · obtain ⟨-, rfl⟩ := Prod.mk.inj h
      exact .closed hn
    · obtain ⟨condition, -, hnext⟩ := Reduction.withToken_eq_ok h
      obtain ⟨-, rfl⟩ := Prod.mk.inj hnext
      exact .opened hn _
    · obtain ⟨-, rfl⟩ := Prod.mk.inj h
      exact .left hn
    · obtain ⟨condition, -, hnext⟩ := Reduction.withToken_eq_ok h
      obtain ⟨-, rfl⟩ := Prod.mk.inj hnext
      exact .entered hn _
  · refine .done hn ?_
    cases haction : mgolActions r.rule.number with
    | none =>
      rw [haction] at h
      obtain ⟨-, rfl⟩ := Prod.mk.inj h
      exact (ActionContext.Computes.refl r c).does
    | some action =>
      rw [haction] at h
      have hdoes := does_action haction hn r c
      simp only at h
      rwa [h] at hdoes

end Mgol
