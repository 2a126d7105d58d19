import Mgol.Proofs.Meaning.Translation
import Mgol.Proofs.Semantics.Tame

/-! # Drafts

What semantic actions do to the program that is being written, as long as nothing is wrong with it.
Of the context of an action only its draft matters: the lines written so far, the temporaries in
use, the types of names, and what is remembered of declarations and comparisons.

* **`Draft`, `ActionContext.draft`** — a draft, and the draft of a context.
* **`Draft.Grows`** — a draft that has grown by some lines.
* **`SemanticAction.draft_arithmetic`, `SemanticAction.draft_assignment`, …** — what each action
  does to a draft. -/

namespace Mgol

open Target

/-- **A draft** of the generated program. -/
structure Draft where
  lines : List LineBody
  temporaries : Nat
  types : String → DataType
  pendingType : DataType
  pendingNames : List String
  lastRelational : Option Statement
  openLoops : List (Option Statement)

/-- **The draft of a context.** -/
def ActionContext.draft (c : ActionContext) : Draft where
  lines := c.work.code.lines.toList.map Line.body
  temporaries := c.work.code.temporaries.size
  types := c.session.registry.typeOf
  pendingType := c.work.pendingType
  pendingNames := c.work.pendingNames
  lastRelational := c.work.lastRelational
  openLoops := c.work.openLoops

namespace Draft

/-- The draft with more lines. -/
def write (d : Draft) (lines : List LineBody) : Draft := { d with lines := d.lines ++ lines }

/-- The draft with more temporaries. -/
def reserve (d : Draft) (count : Nat) : Draft :=
  { d with temporaries := d.temporaries + count }

/-- The draft after a declaration. -/
def declare (d : Draft) (declaration : Ast.Declaration) : Draft :=
  { d.write [declaration.line] with
    types := declaration.extend d.types, pendingType := .untyped, pendingNames := [] }

/-- **A draft that has grown** by some lines and some temporaries; the latest comparison may be
another one. -/
def Grows (d : Draft) (lines : List LineBody) (count : Nat) (d' : Draft) : Prop :=
  ∃ latest, d' = { (d.write lines).reserve count with lastRelational := latest }

/-- A draft grows by nothing. -/
theorem Grows.refl (d : Draft) : d.Grows [] 0 d := by
  refine ⟨d.lastRelational, ?_⟩
  simp [write, reserve]

/-- A draft grows twice. -/
theorem Grows.trans {d d' d'' : Draft} {lines lines' : List LineBody} {count count' : Nat}
    (h : d.Grows lines count d') (h' : d'.Grows lines' count' d'') :
    d.Grows (lines ++ lines') (count + count') d'' := by
  obtain ⟨latest, rfl⟩ := h
  obtain ⟨latest', rfl⟩ := h'
  refine ⟨latest', ?_⟩
  simp [write, reserve, Nat.add_assoc]

/-- Growing does not change types. -/
theorem Grows.types_eq {d d' : Draft} {lines : List LineBody} {count : Nat}
    (h : d.Grows lines count d') : d'.types = d.types := by
  obtain ⟨latest, rfl⟩ := h
  rfl

/-- Growing adds temporaries. -/
theorem Grows.temporaries_eq {d d' : Draft} {lines : List LineBody} {count : Nat}
    (h : d.Grows lines count d') : d'.temporaries = d.temporaries + count := by
  obtain ⟨latest, rfl⟩ := h
  rfl

end Draft

namespace ActionContext

/-- Writing a statement adds its line. -/
@[simp] theorem draft_emit (c : ActionContext) (s : Statement) :
    (c.emit s).draft = c.draft.write [.statement s] := by
  simp [draft, emit, CodeBuffer.emit, CodeBuffer.addLine, Draft.write]

/-- Opening a block adds its head. -/
@[simp] theorem draft_openBlock (c : ActionContext) (h : Header) :
    (c.openBlock h).draft = c.draft.write [.opening h] := by
  simp [draft, openBlock, CodeBuffer.openBlock, CodeBuffer.addLine, Draft.write]

/-- Closing a block adds a brace. -/
@[simp] theorem draft_closeBlock (c : ActionContext) :
    c.closeBlock.draft = c.draft.write [.closing] := by
  simp [draft, closeBlock, CodeBuffer.closeBlock, CodeBuffer.addLine, Draft.write]

/-- Adding a temporary reserves it. -/
@[simp] theorem draft_addTemporary (c : ActionContext) (kind : TemporaryKind) :
    (c.addTemporary kind).draft = c.draft.reserve 1 := by
  simp [draft, addTemporary, CodeBuffer.addTemporary, Draft.reserve]

/-- After a report something is wrong. -/
theorem report_ne_clean (c : ActionContext) (code : Code) (message : String) (p : Position)
    (lexeme : String) : (c.report code message p lexeme).work.errorCount ≠ 0 := by
  rw [(c.keeps_report code message p lexeme).2]
  exact Nat.succ_ne_zero _

/-- **A name that is looked up without an error** has a type, and nothing changes. -/
theorem lookup_clean {c c' : ActionContext} {id : Token} {p : Position} {type : DataType}
    (h : c.lookup id p = (type, c')) (hclean : c'.work.errorCount = 0) :
    c' = c ∧ type = c.draft.types id.lexeme ∧ type ≠ .untyped := by
  unfold lookup at h
  simp only at h
  split at h
  · obtain ⟨_, rfl⟩ := Prod.mk.inj h
    exact absurd hclean (c.report_ne_clean _ _ _ _)
  · next htyped =>
    obtain ⟨rfl, rfl⟩ := Prod.mk.inj h
    exact ⟨rfl, rfl, htyped⟩

/-- A statement that is written if a name has a type is written, unless there is an error. -/
theorem draft_emit_of_lookup {c c₁ : ActionContext} {id : Token} {p : Position} {type : DataType}
    (h : c.lookup id p = (type, c₁)) {s : Statement}
    (hclean : (if type = .untyped then c₁ else c₁.emit s).work.errorCount = 0) :
    type = c.draft.types id.lexeme ∧ type ≠ .untyped ∧
      (if type = .untyped then c₁ else c₁.emit s).draft = c.draft.write [.statement s] := by
  -- a lookup that had failed would have been reported
  have hclean₁ : c₁.work.errorCount = 0 := by
    split at hclean
    · exact hclean
    · exact hclean
  obtain ⟨rfl, rfl, htyped⟩ := lookup_clean h hclean₁
  rw [if_neg htyped, draft_emit]
  exact ⟨rfl, htyped, rfl⟩

/-- **A name that is declared without an error** gets the type of the declaration. -/
theorem declare_clean {c c' : ActionContext} {id : Token} {p : Position}
    (h : c.declare id p = .ok c') (hclean : c'.work.errorCount = 0)
    (htype : c.draft.pendingType ≠ .untyped) :
    c'.draft = { c.draft with
      types := fun name => if name = id.lexeme then c.draft.pendingType else c.draft.types name
      pendingNames := id.lexeme :: c.draft.pendingNames } := by
  rcases declare_eq_ok h with ⟨-, rfl⟩ | ⟨-, ⟨-, hset⟩ | ⟨hnone, -⟩⟩
  · exact absurd hclean (c.report_ne_clean _ _ _ _)
  · obtain ⟨registry, hregistry, rfl⟩ := setPendingType_eq_ok hset
    obtain ⟨t, _, _, hget⟩ := Registry.setType_eq_ok hregistry
    -- only the type of the declared name changes
    have htypes : registry.typeOf = fun name =>
        if name = id.lexeme then c.draft.pendingType else c.draft.types name := by
      funext name
      unfold Registry.typeOf
      rw [hget]
      by_cases heq : id.lexeme = name
      · rw [if_pos heq, if_pos heq.symm]
        rfl
      · rw [if_neg heq, if_neg (Ne.symm heq)]
        rfl
    unfold draft
    simp only [htypes]
    rfl
  · exact absurd hnone htype

end ActionContext

namespace SemanticAction

variable {rule : Rule} {p : Position} {c c' : ActionContext} {v : Token}

/-- The first value of a reduction. -/
theorem withToken_zero {v₀ : Spanned Token} {values : List (Spanned Token)}
    (next : Token → ActionResult) :
    Reduction.withToken ⟨rule, v₀ :: values, p⟩ 0 c next = next v₀.value := rfl

/-- The second value of a reduction. -/
theorem withToken_one {v₀ v₁ : Spanned Token} {values : List (Spanned Token)}
    (next : Token → ActionResult) :
    Reduction.withToken ⟨rule, v₀ :: v₁ :: values, p⟩ 1 c next = next v₁.value := rfl

/-- The third value of a reduction. -/
theorem withToken_two {v₀ v₁ v₂ : Spanned Token} {values : List (Spanned Token)}
    (next : Token → ActionResult) :
    Reduction.withToken ⟨rule, v₀ :: v₁ :: v₂ :: values, p⟩ 2 c next = next v₂.value := rfl

/-! ## Declarations -/

/-- A type keyword begins a declaration of its type. -/
theorem draft_declaredType {v₀ : Spanned Token}
    (h : declaredType ⟨rule, [v₀], p⟩ c = (.ok v, c')) :
    v.type = keywordType v₀.value.kind ∧
      c'.draft = { c.draft with pendingType := keywordType v₀.value.kind } := by
  obtain ⟨hv, rfl⟩ := Prod.mk.inj h
  obtain rfl := Except.ok.inj hv
  exact ⟨rfl, rfl⟩

/-- A name in a declaration gets the type of the declaration. -/
theorem draft_declareIdentifier {v₀ : Spanned Token} {values : List (Spanned Token)}
    (h : declareIdentifier ⟨rule, v₀ :: values, p⟩ c = (.ok v, c'))
    (hclean : c'.work.errorCount = 0) (htype : c.draft.pendingType ≠ .untyped) :
    c'.draft = { c.draft with
      types := fun name =>
        if name = v₀.value.lexeme then c.draft.pendingType else c.draft.types name
      pendingNames := v₀.value.lexeme :: c.draft.pendingNames } := by
  unfold declareIdentifier at h
  rw [withToken_zero] at h
  split at h
  · cases h
  · next c₁ hdeclare =>
    obtain ⟨_, rfl⟩ := Prod.mk.inj h
    exact ActionContext.declare_clean hdeclare hclean htype

/-- A declaration is written with its names. -/
theorem draft_declaration {v₀ v₁ v₂ : Spanned Token}
    (h : declaration ⟨rule, [v₀, v₁, v₂], p⟩ c = (.ok v, c')) (htype : v₀.value.type ≠ .untyped)
    (hnames : c.draft.pendingNames ≠ []) :
    c'.draft = { c.draft.write [.statement (.declare v₀.value.type c.draft.pendingNames)] with
      pendingType := .untyped, pendingNames := [] } := by
  obtain ⟨_, rfl⟩ := Prod.mk.inj h
  have hnames' : ¬(v₀.value.type = .untyped ∨ c.work.pendingNames.isEmpty = true) := by
    rintro (huntyped | hempty)
    · exact htype huntyped
    · exact hnames (List.isEmpty_iff.mp hempty)
  simp only
  rw [if_neg hnames', ActionContext.draft_emit]
  rfl

/-! ## Input and output -/

/-- A variable that is read has a type. -/
theorem draft_readStatement {v₀ v₁ v₂ : Spanned Token}
    (h : readStatement ⟨rule, [v₀, v₁, v₂], p⟩ c = (.ok v, c'))
    (hclean : c'.work.errorCount = 0) :
    c.draft.types v₁.value.lexeme ≠ .untyped ∧
      c'.draft = c.draft.write
        [.statement (.read (c.draft.types v₁.value.lexeme) v₁.value.lexeme)] := by
  unfold readStatement at h
  rw [withToken_one] at h
  rcases hlookup : c.lookup v₁.value (Reduction.positionOf ⟨rule, [v₀, v₁, v₂], p⟩ 1) with
    ⟨type, c₁⟩
  rw [hlookup] at h
  obtain ⟨_, rfl⟩ := Prod.mk.inj h
  obtain ⟨rfl, htyped, hdraft⟩ := ActionContext.draft_emit_of_lookup hlookup hclean
  exact ⟨htyped, hdraft⟩

/-- A text that is written becomes a literal. -/
theorem draft_writeStatement_text {v₀ v₁ v₂ : Spanned Token}
    (h : writeStatement ⟨rule, [v₀, v₁, v₂], p⟩ c = (.ok v, c'))
    (hkind : v₁.value.kind = .literal) :
    c'.draft = c.draft.write [.statement (.writeText (cLiteral v₁.value.lexeme))] := by
  unfold writeStatement at h
  rw [withToken_one] at h
  simp only [hkind] at h
  obtain ⟨_, rfl⟩ := Prod.mk.inj h
  exact c.draft_emit _

/-- A variable that is written has a type. -/
theorem draft_writeStatement_name {v₀ v₁ v₂ : Spanned Token}
    (h : writeStatement ⟨rule, [v₀, v₁, v₂], p⟩ c = (.ok v, c'))
    (hclean : c'.work.errorCount = 0) (hkind : v₁.value.kind = .identifier) :
    c.draft.types v₁.value.lexeme ≠ .untyped ∧
      c'.draft = c.draft.write
        [.statement (.write (c.draft.types v₁.value.lexeme) v₁.value.lexeme)] := by
  unfold writeStatement at h
  rw [withToken_one] at h
  simp only [hkind] at h
  rcases hlookup : c.lookup v₁.value (Reduction.positionOf ⟨rule, [v₀, v₁, v₂], p⟩ 1) with
    ⟨type, c₁⟩
  rw [hlookup] at h
  obtain ⟨_, rfl⟩ := Prod.mk.inj h
  obtain ⟨rfl, htyped, hdraft⟩ := ActionContext.draft_emit_of_lookup hlookup hclean
  exact ⟨htyped, hdraft⟩

/-- A number is written with its type. -/
theorem draft_writeStatement_number {v₀ v₁ v₂ : Spanned Token}
    (h : writeStatement ⟨rule, [v₀, v₁, v₂], p⟩ c = (.ok v, c'))
    (hkind : v₁.value.kind = .number) (htype : v₁.value.type ≠ .untyped) :
    c'.draft = c.draft.write [.statement (.write v₁.value.type v₁.value.lexeme)] := by
  unfold writeStatement at h
  rw [withToken_one] at h
  simp only [hkind] at h
  obtain ⟨_, rfl⟩ := Prod.mk.inj h
  rw [if_neg htype]
  exact c.draft_emit _

/-! ## Expressions and assignments -/

/-- An operand of an expression is its value. -/
theorem draft_operandValue {v₀ : Spanned Token}
    (h : operandValue ⟨rule, [v₀], p⟩ c = (.ok v, c')) :
    v.lexeme = v₀.value.lexeme ∧ v.type = v₀.value.type ∧ c'.draft = c.draft := by
  obtain ⟨hv, rfl⟩ := Prod.mk.inj h
  obtain rfl := Except.ok.inj hv
  exact ⟨rfl, rfl, rfl⟩

/-- A name that is an operand has a type. -/
theorem draft_identifierOperand {v₀ : Spanned Token}
    (h : identifierOperand ⟨rule, [v₀], p⟩ c = (.ok v, c')) (hclean : c'.work.errorCount = 0) :
    v.lexeme = v₀.value.lexeme ∧ v.type = c.draft.types v₀.value.lexeme ∧
      c.draft.types v₀.value.lexeme ≠ .untyped ∧ c'.draft = c.draft := by
  unfold identifierOperand at h
  rw [withToken_zero] at h
  rcases hlookup : c.lookup v₀.value (Reduction.positionOf ⟨rule, [v₀], p⟩ 0) with ⟨type, c₁⟩
  rw [hlookup] at h
  obtain ⟨hv, rfl⟩ := Prod.mk.inj h
  obtain rfl := Except.ok.inj hv
  obtain ⟨rfl, rfl, htyped⟩ := ActionContext.lookup_clean hlookup hclean
  exact ⟨rfl, rfl, htyped, rfl⟩

/-- Two operands with types go on, unless there is an error. -/
theorem withOperands_clean {v₀ v₁ v₂ : Spanned Token}
    {next : Token → Token → Token → ActionContext → ActionResult}
    (h : withOperands ⟨rule, [v₀, v₁, v₂], p⟩ c next = (.ok v, c'))
    (hclean : c'.work.errorCount = 0) (hleft : v₀.value.type ≠ .untyped)
    (hright : v₂.value.type ≠ .untyped) :
    next v₀.value v₁.value v₂.value c = (.ok v, c') := by
  unfold withOperands at h
  rw [withToken_zero, withToken_one, withToken_two, if_neg (not_or.mpr ⟨hleft, hright⟩)] at h
  split at h
  · obtain ⟨_, rfl⟩ := Prod.mk.inj h
    exact absurd hclean (c.report_ne_clean _ _ _ _)
  · exact h

/-- A temporary is the next one. -/
theorem withTemporary_ok {kind : TemporaryKind} {next : String → ActionContext → ActionResult}
    (h : withTemporary kind c next = (.ok v, c')) :
    next (temporaryName c.draft.temporaries) (c.addTemporary kind) = (.ok v, c') := by
  unfold withTemporary at h
  split at h
  · cases h
  · exact h

/-- **An operation is computed into the next temporary.** -/
theorem draft_arithmetic {v₀ v₁ v₂ : Spanned Token}
    (h : arithmetic ⟨rule, [v₀, v₁, v₂], p⟩ c = (.ok v, c')) (hclean : c'.work.errorCount = 0)
    (hleft : v₀.value.type ≠ .untyped) (hright : v₂.value.type ≠ .untyped) :
    v.lexeme = temporaryName c.draft.temporaries ∧ v.type ≠ .untyped ∧
      c'.draft = (c.draft.write [.statement (.compute (temporaryName c.draft.temporaries)
        v₀.value.lexeme v₁.value.lexeme v₂.value.lexeme)]).reserve 1 := by
  have hnext := withOperands_clean h hclean hleft hright
  split at hnext
  · obtain ⟨_, rfl⟩ := Prod.mk.inj hnext
    exact absurd hclean (c.report_ne_clean _ _ _ _)
  · obtain ⟨hv, rfl⟩ := Prod.mk.inj (withTemporary_ok hnext)
    obtain rfl := Except.ok.inj hv
    refine ⟨rfl, hleft, ?_⟩
    rw [ActionContext.draft_emit, ActionContext.draft_addTemporary]
    rfl

/-- **A comparison is computed into the next temporary** and remembered. -/
theorem draft_relational {v₀ v₁ v₂ : Spanned Token}
    (h : relational ⟨rule, [v₀, v₁, v₂], p⟩ c = (.ok v, c')) (hclean : c'.work.errorCount = 0)
    (hleft : v₀.value.type ≠ .untyped) (hright : v₂.value.type ≠ .untyped) (s : Statement)
    (hs : s = .compute (temporaryName c.draft.temporaries) v₀.value.lexeme
      (cRelational v₁.value.lexeme) v₂.value.lexeme) :
    v.lexeme = temporaryName c.draft.temporaries ∧
      c'.draft = { (c.draft.write [.statement s]).reserve 1 with lastRelational := some s } := by
  have hnext := withTemporary_ok (withOperands_clean h hclean hleft hright)
  obtain ⟨hv, rfl⟩ := Prod.mk.inj hnext
  obtain rfl := Except.ok.inj hv
  subst hs
  refine ⟨rfl, ?_⟩
  have hemit := ((forgetRelational c).addTemporary .truth).draft_emit
    (.compute (temporaryName c.draft.temporaries) v₀.value.lexeme
      (cRelational v₁.value.lexeme) v₂.value.lexeme)
  rw [ActionContext.draft_addTemporary] at hemit
  exact congrArg (fun d : Draft => { d with lastRelational := some (.compute
    (temporaryName c.draft.temporaries) v₀.value.lexeme (cRelational v₁.value.lexeme)
    v₂.value.lexeme) }) hemit

/-- **An assignment gives a variable a value of its type.** -/
theorem draft_assignment {v₀ v₁ v₂ v₃ : Spanned Token}
    (h : assignment ⟨rule, [v₀, v₁, v₂, v₃], p⟩ c = (.ok v, c'))
    (hclean : c'.work.errorCount = 0) (hvalue : v₂.value.type ≠ .untyped) :
    c.draft.types v₀.value.lexeme ≠ .untyped ∧
      c'.draft = c.draft.write [.statement
        (if c.draft.types v₀.value.lexeme = .literal then .copy v₀.value.lexeme v₂.value.lexeme
         else .assign v₀.value.lexeme v₂.value.lexeme)] := by
  unfold assignment at h
  rw [withToken_zero, withToken_two] at h
  rcases hlookup : c.lookup v₀.value (Reduction.positionOf ⟨rule, [v₀, v₁, v₂, v₃], p⟩ 0) with
    ⟨type, c₁⟩
  rw [hlookup] at h
  obtain ⟨_, rfl⟩ := Prod.mk.inj h
  have hclean₁ : c₁.work.errorCount = 0 := by
    split_ifs at hclean
    · exact hclean
    · exact absurd hclean (c₁.report_ne_clean _ _ _ _)
    · exact hclean
    · exact hclean
  obtain ⟨rfl, rfl, htyped⟩ := ActionContext.lookup_clean hlookup hclean₁
  refine ⟨htyped, ?_⟩
  rw [if_neg (not_or.mpr ⟨htyped, hvalue⟩)] at hclean ⊢
  split at hclean
  · exact absurd hclean (c₁.report_ne_clean _ _ _ _)
  · next hsame =>
    rw [if_neg hsame]
    split
    · exact c₁.draft_emit _
    · exact c₁.draft_emit _

/-! ## Conditionals and loops -/

/-- A conditional opens with its temporary. -/
theorem draft_openConditional {v₀ v₁ v₂ v₃ v₄ : Spanned Token}
    (h : openConditional ⟨rule, [v₀, v₁, v₂, v₃, v₄], p⟩ c = (.ok v, c')) :
    c'.draft = c.draft.write [.opening (.ifHolds v₂.value.lexeme)] := by
  obtain ⟨_, rfl⟩ := Prod.mk.inj h
  exact c.draft_openBlock _

/-- A conditional closes with a brace. -/
theorem draft_closeConditional {values : List (Spanned Token)}
    (h : closeConditional ⟨rule, values, p⟩ c = (.ok v, c')) :
    c'.draft = c.draft.write [.closing] := by
  obtain ⟨_, rfl⟩ := Prod.mk.inj h
  exact c.draft_closeBlock

/-- A loop opens with its temporary and takes over the comparison. -/
theorem draft_openLoop {v₀ v₁ v₂ v₃ : Spanned Token}
    (h : openLoop ⟨rule, [v₀, v₁, v₂, v₃], p⟩ c = (.ok v, c')) :
    c'.draft = { c.draft.write [.opening (.whileHolds v₂.value.lexeme)] with
      openLoops := c.draft.lastRelational :: c.draft.openLoops, lastRelational := none } := by
  obtain ⟨_, rfl⟩ := Prod.mk.inj h
  have hopen := c.draft_openBlock (.whileHolds v₂.value.lexeme)
  exact congrArg (fun d : Draft => { d with
    openLoops := c.draft.lastRelational :: c.draft.openLoops, lastRelational := none }) hopen

/-- **A loop closes with its comparison and a brace.** -/
theorem draft_closeLoop {values : List (Spanned Token)} {s : Statement}
    {outer : List (Option Statement)} (h : closeLoop ⟨rule, values, p⟩ c = (.ok v, c'))
    (hopen : c.draft.openLoops = some s :: outer) :
    c'.draft = { c.draft.write [.statement s, .closing] with openLoops := outer } := by
  obtain ⟨_, rfl⟩ := Prod.mk.inj h
  have hleave : leaveLoop c =
      ActionContext.emit { c with work := { c.work with openLoops := outer } } s := by
    unfold leaveLoop
    rw [show c.work.openLoops = some s :: outer from hopen]
  rw [hleave, ActionContext.draft_closeBlock, ActionContext.draft_emit]
  simp only [Draft.write, List.append_assoc, List.cons_append, List.nil_append]
  rfl

end SemanticAction

end Mgol
