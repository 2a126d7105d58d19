import Mgol.Proofs.Semantics.Alike
import Mgol.Proofs.Typing.Lines
import Mgol.Proofs.Typing.Parse

/-! # Kinds of temporaries

A temporary gets its kind when it is added, before the statement that computes it is written, and
that statement may be written once more at the end of a loop. So every statement that was written,
and every comparison that is still kept for a loop, has to go with the kinds.

* **`ActionContext.Fits`** — a context whose statements suit the kinds of its temporaries.
* **`ActionContext.Proceeds`** — a context that goes on: names keep their types, temporaries their
  kinds, and every new statement suits.
* **`ActionContext.proceeds_perform`** — every reduction goes on like that.
* **`ParseState.written_of_run`** — a parse that is accepted without an error has written the lines
  of a program, and they suit. -/

namespace Mgol

open Target Ast SemanticAction

/-! ## Scopes that grow -/

namespace Target

/-- **A scope in which more is known**: names keep their types, and temporaries their kinds. -/
structure Scope.Extends (scope scope' : Scope) : Prop where
  types_eq : ∀ x, scope.types x ≠ .untyped → scope'.types x = scope.types x
  kinds_eq : ∀ (k : Nat) (kind : TemporaryKind), scope.temporaries[k]? = some kind →
    scope'.temporaries[k]? = some kind

/-- A scope with the same types and kinds. -/
theorem Scope.Extends.refl (scope : Scope) : scope.Extends scope := ⟨fun _ _ => rfl, fun _ _ h => h⟩

/-- A scope grows twice. -/
theorem Scope.Extends.trans {scope scope' scope'' : Scope} (h : scope.Extends scope')
    (h' : scope'.Extends scope'') : scope.Extends scope'' where
  types_eq x hx := by
    have hsame := h.types_eq x hx
    rw [h'.types_eq x (by rw [hsame]; exact hx), hsame]
  kinds_eq k kind hk := h'.kinds_eq k kind (h.kinds_eq k kind hk)

/-- A statement suits as well where more is known. -/
theorem Statement.Suits.mono {scope scope' : Scope} {s : Statement} (h : s.Suits scope)
    (hextends : scope.Extends scope') : s.Suits scope' := by
  cases s with
  | compute temporary left operator right =>
    obtain ⟨k, kind, hname, hnumbered, hkind⟩ := h
    refine ⟨k, kind, hname, hextends.kinds_eq k kind hnumbered, ?_⟩
    -- only a comparison does without the type of its operand
    by_cases huntyped : scope.written left = .untyped
    · rw [huntyped] at hkind
      by_cases hoperator : operator ∈ arithmeticOperators
      · rw [resultKind?, if_pos hoperator] at hkind
        cases hkind
      · rw [resultKind?, if_neg hoperator] at hkind ⊢
        exact hkind
    · have hsame : scope'.written left = scope.written left := by
        unfold Scope.written at huntyped ⊢
        split
        · next hletter =>
          rw [if_pos hletter] at huntyped
          exact hextends.types_eq left huntyped
        · rfl
      rw [hsame]
      exact hkind
  | _ => trivial

end Target

/-! ## Contexts -/

namespace ActionContext

/-- What names mean in a context. -/
def scope (c : ActionContext) : Scope := ⟨c.session.registry.typeOf, c.work.code.temporaries⟩

/-- **The statements of a context**: those that were written, the latest comparison, and those that
are kept for the ends of loops. -/
def Holds (c : ActionContext) (s : Statement) : Prop :=
  .statement s ∈ c.work.code.bodies ∨ c.work.lastRelational = some s ∨ some s ∈ c.work.openLoops

/-- **A context whose statements suit** the kinds of its temporaries. -/
def Fits (c : ActionContext) : Prop := ∀ s, c.Holds s → s.Suits c.scope

/-- **A context that goes on**: its scope grows, and every statement that is new suits. -/
structure Proceeds (c c' : ActionContext) : Prop where
  extends_scope : c.scope.Extends c'.scope
  holds : ∀ s, c'.Holds s → c.Holds s ∨ s.Suits c'.scope

variable {c c' c'' : ActionContext}

/-- What goes on still fits. -/
theorem Proceeds.fits (h : c.Proceeds c') (hfits : c.Fits) : c'.Fits := by
  intro s hs
  rcases h.holds s hs with hold | hsuits
  · exact (hfits s hold).mono h.extends_scope
  · exact hsuits

/-- A context goes on twice. -/
theorem Proceeds.trans (h : c.Proceeds c') (h' : c'.Proceeds c'') : c.Proceeds c'' where
  extends_scope := h.extends_scope.trans h'.extends_scope
  holds s hs := by
    rcases h'.holds s hs with hold | hsuits
    · exact (h.holds s hold).imp_right fun hsuits => hsuits.mono h'.extends_scope
    · exact .inr hsuits

/-- A context goes on in its scope, with no statement that it did not hold. -/
theorem Proceeds.of_scope (hscope : c'.scope = c.scope) (h : ∀ s, c'.Holds s → c.Holds s) :
    c.Proceeds c' where
  extends_scope := by
    rw [hscope]
    exact .refl _
  holds s hs := .inl (h s hs)

/-- A context that differs in nothing that matters. -/
theorem Proceeds.of_eq (hregistry : c'.session.registry = c.session.registry)
    (hcode : c'.work.code = c.work.code) (hlast : c'.work.lastRelational = c.work.lastRelational)
    (hloops : c'.work.openLoops = c.work.openLoops) : c.Proceeds c' := by
  refine .of_scope ?_ fun s hs => ?_
  · rw [scope, hregistry, hcode]
    rfl
  · rw [Holds, hcode, hlast, hloops] at hs
    exact hs

/-- A context stays. -/
theorem Proceeds.refl (c : ActionContext) : c.Proceeds c := .of_eq rfl rfl rfl rfl

/-- A report is no statement. -/
theorem proceeds_report (c : ActionContext) (code : Code) (message : String) (p : Position)
    (lexeme : String) : c.Proceeds (c.report code message p lexeme) := by
  obtain ⟨journal, heq⟩ := c.report_eq code message p lexeme
  rw [heq]
  exact .of_eq rfl rfl rfl rfl

/-- Looking a name up may report it. -/
theorem proceeds_lookup (c : ActionContext) (id : Token) (p : Position) :
    c.Proceeds (c.lookup id p).2 := by
  unfold lookup
  simp only
  split
  · exact c.proceeds_report _ _ _ _
  · exact .refl c

/-- **A name gets a type only if it has none.** -/
theorem proceeds_declare {id : Token} {p : Position} (h : c.declare id p = .ok c') :
    c.Proceeds c' := by
  rcases declare_eq_ok h with ⟨-, rfl⟩ | ⟨hnew, ⟨-, hset⟩ | ⟨-, rfl⟩⟩
  · exact c.proceeds_report _ _ _ _
  · obtain ⟨registry, hregistry, rfl⟩ := setPendingType_eq_ok hset
    obtain ⟨t, _, _, hget⟩ := Registry.setType_eq_ok hregistry
    refine ⟨⟨fun x hx => ?_, fun _ _ hk => hk⟩, fun s hs => .inl hs⟩
    -- a name that has a type is another one
    have hother : id.lexeme ≠ x := by
      rintro rfl
      exact hx hnew
    show registry.typeOf x = c.session.registry.typeOf x
    rw [Registry.typeOf, hget, if_neg hother]
    rfl
  · exact .refl c'

/-- The lines of a context with one more. -/
theorem mem_bodies_addLine {code : CodeBuffer} {body line : LineBody} :
    line ∈ (code.addLine body).bodies ↔ line ∈ code.bodies ∨ line = body := by
  simp [CodeBuffer.bodies, CodeBuffer.addLine]

/-- A statement that suits is written. -/
theorem proceeds_emit (c : ActionContext) {s : Statement} (h : s.Suits c.scope) :
    c.Proceeds (c.emit s) where
  extends_scope := .refl _
  holds s' hs' := by
    rcases hs' with hline | hkept
    · rcases mem_bodies_addLine.mp hline with hline | heq
      · exact .inl (.inl hline)
      · obtain rfl := LineBody.statement.inj heq
        exact .inr h
    · exact .inl (.inr hkept)

/-- The head of a block is no statement. -/
theorem holds_of_openBlock {h : Header} {s : Statement} (hs : (c.openBlock h).Holds s) :
    c.Holds s := by
  refine hs.imp_left fun hline => ?_
  exact (mem_bodies_addLine.mp hline).resolve_right nofun

/-- The end of a block is no statement. -/
theorem holds_of_closeBlock {s : Statement} (hs : c.closeBlock.Holds s) : c.Holds s := by
  refine hs.imp_left fun hline => ?_
  exact (mem_bodies_addLine.mp hline).resolve_right nofun

/-- A loop takes over the latest comparison. -/
theorem holds_of_enterLoop {s : Statement} (hs : (enterLoop c).Holds s) : c.Holds s := by
  rcases hs with hline | hlast | hloop
  · exact .inl hline
  · cases hlast
  · rcases List.mem_cons.mp hloop with hlast | hloop
    · exact .inr (.inl hlast.symm)
    · exact .inr (.inr hloop)

/-- The comparison of a loop was held before it is written once more. -/
theorem holds_of_leaveLoop {s : Statement} (hs : (leaveLoop c).Holds s) : c.Holds s := by
  unfold leaveLoop at hs
  split at hs
  · exact hs
  · next comparison outer heq =>
    have houter : ∀ s, Holds { c with work := { c.work with openLoops := outer } } s →
        c.Holds s := by
      intro s hs
      refine hs.imp_right fun hkept => hkept.imp_right fun hloop => ?_
      rw [heq]
      exact List.mem_cons_of_mem _ hloop
    cases comparison with
    | none => exact houter s hs
    | some kept =>
      rcases hs with hline | hkept
      · rcases mem_bodies_addLine.mp hline with hline | hsame
        · exact .inl hline
        · obtain rfl := LineBody.statement.inj hsame
          refine .inr (.inr ?_)
          rw [heq]
          exact List.mem_cons_self
      · exact houter s (.inr hkept)

/-- A block is opened. -/
theorem proceeds_openBlock (c : ActionContext) (h : Header) : c.Proceeds (c.openBlock h) :=
  .of_scope rfl fun _ => holds_of_openBlock

/-- A block is closed. -/
theorem proceeds_closeBlock (c : ActionContext) : c.Proceeds c.closeBlock :=
  .of_scope rfl fun _ => holds_of_closeBlock

/-- A loop begins. -/
theorem proceeds_enterLoop (c : ActionContext) : c.Proceeds (enterLoop c) :=
  .of_scope rfl fun _ => holds_of_enterLoop

/-- A comparison is forgotten. -/
theorem proceeds_forgetRelational (c : ActionContext) : c.Proceeds (forgetRelational c) := by
  refine .of_scope rfl fun s hs => ?_
  rcases hs with hline | hlast | hloop
  · exact .inl hline
  · cases hlast
  · exact .inr (.inr hloop)

/-- A loop ends. -/
theorem proceeds_leaveLoop (c : ActionContext) : c.Proceeds (leaveLoop c) := by
  have hscope : (leaveLoop c).scope = c.scope := by
    unfold leaveLoop
    split
    · rfl
    · split <;> rfl
  exact .of_scope hscope fun _ => holds_of_leaveLoop

/-- A value that is missing changes nothing. -/
theorem proceeds_withToken {r : Reduction} {i : Nat} {next : Token → ActionResult}
    (h : ∀ t, c.Proceeds (next t).2) : c.Proceeds (r.withToken i c next).2 := by
  unfold Reduction.withToken
  split
  · exact .refl c
  · exact h _

/-- A statement that is written if there is a type. -/
theorem proceeds_emitTyped (c : ActionContext) (type : DataType) {s : Statement}
    (h : s.Suits c.scope) : c.Proceeds (if type = .untyped then c else c.emit s) := by
  split
  · exact .refl c
  · exact c.proceeds_emit h

/-- An assignment looks its target up and may report a mismatch. -/
theorem proceeds_assignment (r : Reduction) (c : ActionContext) :
    c.Proceeds (assignment r c).2 := by
  refine proceeds_withToken fun id => proceeds_withToken fun value =>
    (c.proceeds_lookup id (r.positionOf 0)).trans ?_
  simp only
  split
  · exact .refl _
  · split
    · exact proceeds_report _ _ _ _ _
    · split
      · exact proceeds_emit _ trivial
      · exact proceeds_emit _ trivial

/-- An argument is looked up if it is a name. -/
theorem proceeds_writeStatement (r : Reduction) (c : ActionContext) :
    c.Proceeds (writeStatement r c).2 := by
  refine proceeds_withToken fun argument => ?_
  split
  · exact proceeds_emit _ trivial
  · exact (c.proceeds_lookup argument (r.positionOf 1)).trans (proceeds_emitTyped _ _ trivial)
  · exact proceeds_emitTyped _ _ trivial

/-- **Actions go on without computing anything**, apart from those of operations and comparisons. -/
theorem proceeds_action {n : Nat} {action : SemanticAction} (haction : mgolActions n = some action)
    (hoperation : n ≠ 20) (hcomparison : n ≠ 27) (r : Reduction) (c : ActionContext) :
    c.Proceeds (action r c).2 := by
  unfold mgolActions at haction
  split at haction
  -- declarations
  · obtain rfl := Option.some.inj haction
    refine proceeds_withToken fun declared => ?_
    have hend : c.Proceeds (endDeclaration c) := .of_eq rfl rfl rfl rfl
    dsimp only
    split
    · exact hend
    · exact hend.trans (proceeds_emit _ trivial)
  iterate 2
    obtain rfl := Option.some.inj haction
    refine proceeds_withToken fun id => ?_
    split
    · exact .refl c
    · next hdeclare => exact proceeds_declare hdeclare
  iterate 3
    obtain rfl := Option.some.inj haction
    exact proceeds_withToken fun keyword => .of_eq rfl rfl rfl rfl
  -- reading and writing
  · obtain rfl := Option.some.inj haction
    exact proceeds_withToken fun id =>
      (c.proceeds_lookup id (r.positionOf 1)).trans (proceeds_emitTyped _ _ trivial)
  · obtain rfl := Option.some.inj haction
    exact proceeds_writeStatement r c
  iterate 3
    obtain rfl := Option.some.inj haction
    exact proceeds_withToken fun t => .refl c
  -- assignments and expressions
  · obtain rfl := Option.some.inj haction
    exact proceeds_assignment r c
  · exact absurd rfl hoperation
  · obtain rfl := Option.some.inj haction
    exact proceeds_withToken fun operand => .refl c
  · obtain rfl := Option.some.inj haction
    exact proceeds_withToken fun id => c.proceeds_lookup id (r.positionOf 0)
  · obtain rfl := Option.some.inj haction
    exact proceeds_withToken fun operand => .refl c
  -- conditionals and loops
  · obtain rfl := Option.some.inj haction
    exact c.proceeds_closeBlock
  · obtain rfl := Option.some.inj haction
    exact proceeds_withToken fun condition => c.proceeds_openBlock _
  · exact absurd rfl hcomparison
  · obtain rfl := Option.some.inj haction
    exact c.proceeds_leaveLoop.trans (proceeds_closeBlock _)
  · obtain rfl := Option.some.inj haction
    exact proceeds_withToken fun condition =>
      (c.proceeds_openBlock _).trans (proceeds_enterLoop _)
  · cases haction

/-! ## What is computed -/

/-- A temporary that is added has the next number, and its kind. -/
theorem extends_addTemporary (c : ActionContext) (kind : TemporaryKind) :
    c.scope.Extends (c.addTemporary kind).scope ∧
      (c.addTemporary kind).scope.temporaries[c.draft.temporaries]? = some kind := by
  refine ⟨⟨fun _ _ => rfl, fun k kind' hk => ?_⟩, ?_⟩
  · obtain ⟨hlt, hkind⟩ := Array.getElem?_eq_some_iff.mp hk
    exact (Array.getElem?_push_lt hlt).trans (congrArg some hkind)
  · exact Array.getElem?_push_size

/-- A temporary is no statement. -/
theorem proceeds_addTemporary (c : ActionContext) (kind : TemporaryKind) :
    c.Proceeds (c.addTemporary kind) :=
  ⟨(c.extends_addTemporary kind).1, fun _ hs => .inl hs⟩

/-- **A statement that is computed into a new temporary of its kind suits.** -/
theorem suits_compute (c : ActionContext) {kind : TemporaryKind} {left operator right : String}
    (h : resultKind? operator (c.scope.written left) = some kind) :
    (Statement.compute (temporaryName c.draft.temporaries) left operator right).Suits
      (c.addTemporary kind).scope :=
  ⟨_, kind, rfl, (c.extends_addTemporary kind).2, h⟩

/-- Comparisons are kept as they are written. -/
theorem proceeds_keepRelational (c : ActionContext) {s : Statement} (h : s.Suits c.scope) :
    c.Proceeds (keepRelational c s) where
  extends_scope := .refl _
  holds s' hs' := by
    rcases hs' with hline | hlast | hloop
    · exact (c.proceeds_emit h).holds s' (.inl hline)
    · obtain rfl := Option.some.inj hlast
      exact .inr h
    · exact .inl (.inr (.inr hloop))

variable {rule : Rule} {p : Position} {v : Token} {words : List Word}
  {values : List (Spanned Token)} {d : Draft}

/-- What an operator between two operands goes on with, unless an error is reported. -/
theorem operands_of_phrases {a : GrammarSymbol} {d' : Draft}
    {next : Token → Token → Token → ActionContext → ActionResult} (ha : Meaning a = IsToken a)
    (h : Phrases ["OPRD", a, "OPRD"] words values d d')
    (hperform : withOperands ⟨rule, values, p⟩ c next = (.ok v, c'))
    (hclean : c'.work.errorCount = 0) :
    ∃ (left : Operand) (v₀ v₁ v₂ : Token) (operator : List Word), v₀.lexeme = left.text ∧
      v₀.type = left.type d'.types ∧ IsToken a operator v₁ d' d' ∧
      next v₀ v₁ v₂ c = (.ok v, c') := by
  obtain ⟨_, operator, _, v₀, v₁, v₂, _, _, rfl, rfl,
    ⟨left, rfl, hleft, htyped, hdeclared, rfl⟩, hop, ⟨right, rfl, _, htyped', hdeclared', rfl⟩⟩ :=
    h.three
  have hnext := withOperands_clean hperform hclean
    (by rw [htyped]; exact Operand.type_ne_untyped hdeclared)
    (by rw [htyped']; exact Operand.type_ne_untyped hdeclared')
  -- an operator writes nothing, so the types are those of the operands
  rw [ha] at hop
  obtain ⟨hname, hspelled, hword, rfl⟩ := hop
  exact ⟨left, v₀.value, v₁.value, v₂.value, operator, hleft, htyped, ⟨hname, hspelled, hword, rfl⟩,
    hnext⟩

/-- **An operation is computed into a temporary of the type of its operands.** -/
theorem proceeds_arithmetic (h : Phrases ["OPRD", "opm", "OPRD"] words values d c.draft)
    (hperform : arithmetic ⟨rule, values, p⟩ c = (.ok v, c')) (hclean : c'.work.errorCount = 0) :
    c.Proceeds c' := by
  obtain ⟨left, v₀, v₁, v₂, operator, hleft, htyped, hop, hnext⟩ :=
    operands_of_phrases rfl h hperform hclean
  obtain ⟨a, ha, _⟩ := hop.arithmetic
  split at hnext
  · obtain ⟨_, rfl⟩ := Prod.mk.inj hnext
    exact absurd hclean (c.report_ne_clean _ _ _ _)
  · next kind hkind =>
    obtain ⟨_, rfl⟩ := Prod.mk.inj (withTemporary_ok hnext)
    refine (c.proceeds_addTemporary kind).trans (proceeds_emit _ (c.suits_compute ?_))
    rw [htyped] at hkind
    rw [resultKind?, ha, if_pos (spelling_mem_arithmeticOperators a), hleft, left.written_text]
    exact hkind

/-- **A comparison is computed into a truth value.** -/
theorem proceeds_relational (h : Phrases ["OPRD", "opr", "OPRD"] words values d c.draft)
    (hperform : relational ⟨rule, values, p⟩ c = (.ok v, c')) (hclean : c'.work.errorCount = 0) :
    c.Proceeds c' := by
  obtain ⟨left, v₀, v₁, v₂, operator, _, _, hop, hnext⟩ :=
    operands_of_phrases rfl h hperform hclean
  obtain ⟨r, hr, _⟩ := hop.relation
  obtain ⟨_, rfl⟩ := Prod.mk.inj (withTemporary_ok hnext)
  refine c.proceeds_forgetRelational.trans
    ((proceeds_addTemporary _ _).trans (proceeds_keepRelational _ (suits_compute _ ?_)))
  rw [resultKind?, hr, if_neg (cRelational_mem_relationalOperators r).2]

/-- The rules whose actions compute something. -/
theorem right_of_computing :
    ∀ r ∈ RuleSet.mgol.others, (r.number = 20 → r.right = ["OPRD", "opm", "OPRD"]) ∧
      (r.number = 27 → r.right = ["OPRD", "opr", "OPRD"]) := by
  decide

/-- **Every reduction of phrases goes on**, unless an error is reported. -/
theorem proceeds_perform {r : Rule} (hr : r ∈ RuleSet.mgol.others)
    (h : Phrases r.right words values d c.draft)
    (hperform : Executor.perform mgolActions ⟨r, values, p⟩ c = (.ok v, c'))
    (hclean : c'.work.errorCount = 0) : c.Proceeds c' := by
  obtain ⟨hright, hright'⟩ := right_of_computing r hr
  cases haction : mgolActions r.number with
  | none =>
    obtain rfl := perform_none haction hperform
    exact .refl c'
  | some action =>
    unfold Executor.perform at hperform
    simp only [haction] at hperform
    by_cases hoperation : r.number = 20
    · rw [hoperation] at haction
      obtain rfl := Option.some.inj haction
      rw [hright hoperation] at h
      exact proceeds_arithmetic h hperform hclean
    · by_cases hcomparison : r.number = 27
      · rw [hcomparison] at haction
        obtain rfl := Option.some.inj haction
        rw [hright' hcomparison] at h
        exact proceeds_relational h hperform hclean
      · have hproceeds := proceeds_action haction hoperation hcomparison ⟨r, values, p⟩ c
        rw [hperform] at hproceeds
        exact hproceeds

end ActionContext

/-! ## Parses -/

namespace ParseState

variable {failure : Option String} {capacity : Nat} {symbols : List GrammarSymbol}
  {p p' : ParseState} {begin : Scanner}

/-- Every move keeps that the statements suit, unless an error is reported. -/
theorem fits_step (hfits : p.context.Fits) (h : p.Composes begin symbols)
    (hsafe : p.Safe failure capacity symbols) {o : SyntaxOptions}
    (hstep : p.step .mgol o = .next p') : p'.Spoilt ∨ p'.context.Fits := by
  have heffect := step_effect .mgol o p
  rw [hstep] at heffect
  cases heffect with
  | shift items cell pushed found kept =>
    -- the next token changes no type
    obtain ⟨_, _, htypes⟩ := (Scanner.finds_of_nextVisible found).fluent
      (h.fluent.of_agrees (agrees_withJournal p.scanner _))
    refine .inr fun s hs => (hfits s hs).mono ⟨fun x _ => ?_, fun _ _ hk => hk⟩
    exact congrFun htypes x
  | @reduce q n below r states j executor session items cell rule reduced run =>
    by_cases hclean : executor.work.errorCount = 0
    · obtain ⟨seen, v, c, hperformed⟩ :=
        hsafe.follows.performed RuleSet.mgol_built items cell rule reduced run
      obtain ⟨j', rfl⟩ := hperformed.session_eq
      have hperform := hperformed.perform_eq
      have hwork := hperformed.work_eq
      obtain ⟨words, hphrases, _⟩ := h.phrases
      -- the phrases of the right side are those whose values are taken off
      rw [hperformed.symbols_eq, List.reverse_append, List.reverse_reverse,
        Executor.reverse_items _ r] at hphrases
      obtain ⟨_, back, d, _, _, hback⟩ :=
        hphrases.split (hsafe.follows.length_below hperformed.symbols_eq)
      have hothers : r ∈ RuleSet.mgol.others :=
        (List.mem_cons.mp hperformed.rule_mem).resolve_left
          (RuleSet.mgol_built.reduce_ne_start cell rule)
      rw [hsafe.actions_eq] at hperform
      have hproceeds := ActionContext.proceeds_perform hothers
        (c := ⟨p.executor.work, ⟨p.scanner.registry, j⟩⟩) hback hperform
        (by rw [← hwork]; exact hclean)
      refine .inr fun s hs => ?_
      have hsuits := hproceeds.fits hfits s
      simp only [context, hwork] at hs ⊢
      exact hsuits hs
    · exact .inl (.inr hclean)
  | resumed items cell recovered =>
    exact .inl (.inl (alarmed_of_resumed h.untriggered recovered))

/-- A parser that begins holds no statement. -/
theorem fits_of_start {s : Scanner} {t : Spanned Token} {states : Stack Nat} {capacity : Nat} :
    (context { scanner := s, states, executor := .mgol capacity, lookahead := t }).Fits := by
  rintro s (hline | hlast | hloop)
  · cases hline
  · cases hlast
  · cases hloop

/-- **What a run that is accepted without an error has written**: the lines of the program that was
read, whose names have their types, and whose statements suit the kinds of the temporaries. -/
theorem written_of_run (hsafe : p.Safe failure capacity symbols) (h : p.Composes begin symbols)
    (hfits : p.context.Fits) {o : SyntaxOptions} {n : Nat}
    (hrun : p.run .mgol o n = .accepted p') (hsilent : p'.diagnostics = #[])
    (hclean : p'.executor.work.errorCount = 0) :
    ∃ program : Program, begin.Ahead program.words ∧ program.main.Declared program.types ∧
      p'.draft.lines = program.lines ∧ p'.draft.types = program.types ∧ p'.context.Fits := by
  obtain ⟨q, ⟨symbols', hsafe', hq⟩, hended⟩ := run_induction .mgol o
    (fun p => ∃ symbols, p.Safe failure capacity symbols ∧
      (p.Spoilt ∨ p.Composes begin symbols ∧ p.context.Fits))
    (by
      rintro p p' ⟨symbols, hsafe, hspoilt | ⟨hcomposes, hfits⟩⟩ hstep
      · obtain ⟨symbols', hsafe'⟩ := hsafe.step hstep
        exact ⟨symbols', hsafe', .inl (hspoilt.step hsafe hstep)⟩
      · rcases hcomposes.step hsafe hstep with hspoilt | ⟨symbols', hsafe', hcomposes'⟩
        · obtain ⟨symbols', hsafe'⟩ := hsafe.step hstep
          exact ⟨symbols', hsafe', .inl hspoilt⟩
        · exact ⟨symbols', hsafe',
            (fits_step hfits hcomposes hsafe hstep).imp_right fun hfits' => ⟨hcomposes', hfits'⟩⟩)
    n ⟨symbols, hsafe, .inr ⟨h, hfits⟩⟩
  rw [hrun] at hended
  cases hended with
  | accepted last =>
    obtain rfl := eq_of_accepted last
    rcases hq with hspoilt | ⟨hcomposes, hfits'⟩
    · rcases hspoilt with ⟨x, hx, _⟩ | hcount
      · rw [hsilent] at hx
        simp at hx
      · exact absurd hclean hcount
    · obtain ⟨program, hahead, hdeclared, hlines, htypes⟩ :=
        hcomposes.program_of_accepted hsafe' last
      exact ⟨program, hahead, hdeclared, hlines, htypes, hfits'⟩

end ParseState

end Mgol
