import Mgol.Proofs.Meaning.Translation
import Mgol.Proofs.Target.Reading

/-! # Blocks of lines

The lines of generated code in their blocks: every head has its own closing brace at its depth, and
every line stands as deep as there are blocks around it.

* **`Target.layOut`, `Target.CodeBuffer.Laid`** — lines at the depths that their heads and braces
  give them, as a buffer lays them out.
* **`Target.Nested`** — lines made of statements, conditionals and loops.
* **`Target.InBlocks`, `Target.Nested.inBlocks`** — what that means for each line by itself.
* **`Ast.Program.nested_lines`** — the lines of a translation are nested. -/

namespace Mgol.Target

/-! ## Lines laid out -/

/-- The depth behind some lines, from the depth before them. -/
def depthAfter : Nat → List LineBody → Nat
  | d, [] => d
  | d, .statement _ :: rest => depthAfter d rest
  | d, .opening _ :: rest => depthAfter (d + 1) rest
  | d, .closing :: rest => depthAfter (d - 1) rest

/-- **Lines laid out** from a depth on: a brace stands where its head does. -/
def layOut : Nat → List LineBody → List Line
  | _, [] => []
  | d, .statement s :: rest => ⟨d, .statement s⟩ :: layOut d rest
  | d, .opening h :: rest => ⟨d, .opening h⟩ :: layOut (d + 1) rest
  | d, .closing :: rest => ⟨d - 1, .closing⟩ :: layOut (d - 1) rest

/-- The depth behind more lines. -/
theorem depthAfter_append (d : Nat) (front back : List LineBody) :
    depthAfter d (front ++ back) = depthAfter (depthAfter d front) back := by
  induction front generalizing d with
  | nil => rfl
  | cons line front ih => cases line <;> exact ih _

/-- More lines are laid out from the depth behind those before them. -/
theorem layOut_append (d : Nat) (front back : List LineBody) :
    layOut d (front ++ back) = layOut d front ++ layOut (depthAfter d front) back := by
  induction front generalizing d with
  | nil => rfl
  | cons line front ih => cases line <;> exact congrArg (List.cons _) (ih _)

/-- Laying lines out does not change what stands on them. -/
theorem map_body_layOut (d : Nat) (lines : List LineBody) :
    (layOut d lines).map Line.body = lines := by
  induction lines generalizing d with
  | nil => rfl
  | cons line lines ih => cases line <;> exact congrArg (List.cons _) (ih _)

/-- Whether a line opens a block. -/
def Line.opens (l : Line) : Bool :=
  match l.body with
  | .opening _ => true
  | _ => false

/-- **A line of which only the text is known**, and not what it means. -/
def Line.IsVerbatim (l : Line) : Prop :=
  ∃ text, l.body = .statement (.verbatim text) ∨ l.body = .opening (.verbatim text)

/-- Whether a line closes a block. -/
def Line.closes (l : Line) : Bool :=
  match l.body with
  | .closing => true
  | _ => false

namespace CodeBuffer

variable {b : CodeBuffer}

/-- A block is opened one deeper. -/
@[simp] theorem depth_openBlock (b : CodeBuffer) (h : Header) :
    (b.openBlock h).depth = b.depth + 1 := rfl

/-- A block is closed one less deep. -/
@[simp] theorem depth_closeBlock (b : CodeBuffer) : b.closeBlock.depth = b.depth - 1 := rfl

/-- **A buffer whose lines are laid out**, and which goes on at the depth behind them: as many
blocks are open as were opened and not closed. -/
structure Laid (b : CodeBuffer) : Prop where
  layout : ∃ bodies, b.lines.toList = layOut 0 bodies ∧ b.depth = depthAfter 0 bodies
  even : b.depth + b.lines.toList.countP Line.closes = b.lines.toList.countP Line.opens

/-- The lines of such a buffer, by what stands on them. -/
theorem Laid.lines_eq (h : b.Laid) : b.lines.toList = layOut 0 (b.lines.toList.map Line.body) := by
  obtain ⟨bodies, hlines, -⟩ := h.layout
  rw [hlines, map_body_layOut]

/-- One more line is laid out at the depth where it belongs. -/
theorem Laid.push (h : b.Laid) {b' : CodeBuffer} {l : Line}
    (hlines : b'.lines = b.lines.push l) (hline : [l] = layOut b.depth [l.body])
    (hdepth : b'.depth = depthAfter b.depth [l.body])
    (heven : b'.depth + [l].countP Line.closes = b.depth + [l].countP Line.opens) : b'.Laid := by
  obtain ⟨⟨bodies, hold, hnow⟩, hbefore⟩ := h
  refine ⟨⟨bodies ++ [l.body], ?_, ?_⟩, ?_⟩
  · rw [hlines, Array.toList_push, hold, layOut_append, ← hnow, ← hline]
  · rw [hdepth, depthAfter_append, ← hnow]
  · rw [hlines, Array.toList_push, List.countP_append, List.countP_append]
    omega

/-- A statement is laid out. -/
theorem Laid.emit (h : b.Laid) (s : Statement) : (b.emit s).Laid := h.push rfl rfl rfl rfl

/-- A head is laid out. -/
theorem Laid.openBlock (h : b.Laid) (header : Header) : (b.openBlock header).Laid :=
  h.push rfl rfl rfl rfl

/-- A brace is laid out, if there is a block for it to close. -/
theorem Laid.closeBlock (h : b.Laid) (hopen : 0 < b.depth) : b.closeBlock.Laid :=
  h.push rfl rfl rfl (Nat.sub_add_cancel hopen)

/-- A temporary is no line. -/
theorem Laid.addTemporary (h : b.Laid) (kind : TemporaryKind) : (b.addTemporary kind).Laid :=
  ⟨h.layout, h.even⟩

end CodeBuffer

/-! ## Lines in blocks -/

/-- **Nested lines** from a depth on: statements, and blocks with nested lines inside. A block tests
a temporary that the statement before it computes; a loop ends with that statement once more. -/
inductive Nested : Nat → List Line → Prop
  | nil (d : Nat) : Nested d []
  | statement {d : Nat} {s : Statement} {rest : List Line} (known : ∀ text, s ≠ .verbatim text)
      (next : Nested d rest) : Nested d (⟨d, .statement s⟩ :: rest)
  | block {d : Nat} (k : Nat) (left operator right : String) {header : Header}
      {inside rest : List Line}
      (tested : header = .ifHolds (temporaryName k) ∨ header = .whileHolds (temporaryName k) ∧
        [⟨d + 1, .statement (.compute (temporaryName k) left operator right)⟩] <:+ inside)
      (body : Nested (d + 1) inside) (next : Nested d rest) :
      Nested d (⟨d, .statement (.compute (temporaryName k) left operator right)⟩
        :: ⟨d, .opening header⟩ :: (inside ++ ⟨d, .closing⟩ :: rest))

/-- **Lines in blocks** from a depth on. Of every line it is known what it means. A line stands
deeper by as many heads before it as have no brace yet. Every head has a brace at its depth and
every brace a head, with nothing but deeper lines between them. A loop is on a temporary: right
before its head a statement computes it, and the same statement is the last one before its brace. -/
structure InBlocks (d : Nat) (lines : List Line) : Prop where
  known : ∀ l ∈ lines, ¬l.IsVerbatim
  depth_eq : ∀ before l after, lines = before ++ l :: after →
    l.depth + (before ++ [l]).countP Line.closes = d + before.countP Line.opens
  closed : ∀ before e header after, lines = before ++ ⟨e, .opening header⟩ :: after →
    ∃ inside rest, after = inside ++ ⟨e, .closing⟩ :: rest ∧ ∀ l ∈ inside, e < l.depth
  opened : ∀ before e after, lines = before ++ ⟨e, .closing⟩ :: after →
    ∃ front header inside, before = front ++ ⟨e, .opening header⟩ :: inside ∧
      ∀ l ∈ inside, e < l.depth
  recomputed : ∀ before e condition after,
    lines = before ++ ⟨e, .opening (.whileHolds condition)⟩ :: after →
    ∃ k left operator right front inside rest, condition = temporaryName k ∧
      before = front ++ [⟨e, .statement (.compute condition left operator right)⟩] ∧
      after = inside ++ ⟨e + 1, .statement (.compute condition left operator right)⟩
        :: ⟨e, .closing⟩ :: rest ∧
      ∀ l ∈ inside, e < l.depth

/-- **Where a line of a block is**: it is the head, inside, the brace, or behind the block. -/
theorem split_block {x y l : Line} {inside rest before after : List Line}
    (h : x :: (inside ++ y :: rest) = before ++ l :: after) :
    (before = [] ∧ l = x ∧ after = inside ++ y :: rest) ∨
      (∃ front back, before = x :: front ∧ inside = front ++ l :: back ∧
        after = back ++ y :: rest) ∨
      (before = x :: inside ∧ l = y ∧ after = rest) ∨
      ∃ front, before = x :: (inside ++ y :: front) ∧ rest = front ++ l :: after := by
  cases before with
  | nil =>
    obtain ⟨rfl, rfl⟩ := List.cons.inj h
    exact .inl ⟨rfl, rfl, rfl⟩
  | cons first before =>
    obtain ⟨rfl, hrest⟩ := List.cons.inj h
    rcases List.append_eq_append_iff.mp hrest with ⟨more, rfl, hmore⟩ | ⟨more, rfl, hmore⟩
    · cases more with
      | nil =>
        obtain ⟨rfl, rfl⟩ := List.cons.inj hmore
        exact .inr (.inr (.inl ⟨by simp, rfl, rfl⟩))
      | cons last more =>
        obtain ⟨rfl, rfl⟩ := List.cons.inj hmore
        exact .inr (.inr (.inr ⟨more, rfl, rfl⟩))
    · cases more with
      | nil =>
        obtain ⟨rfl, rfl⟩ := List.cons.inj hmore
        exact .inr (.inr (.inl ⟨by simp, rfl, rfl⟩))
      | cons last more =>
        obtain ⟨rfl, rfl⟩ := List.cons.inj hmore
        exact .inr (.inl ⟨before, more, rfl, rfl, rfl⟩)

namespace InBlocks

variable {d : Nat}

/-- No lines at all. -/
theorem nil (d : Nat) : InBlocks d [] := by
  constructor <;> intros <;> simp_all

/-- A statement stands before lines in blocks. -/
theorem statement {s : Statement} {rest : List Line} (known : ∀ text, s ≠ .verbatim text)
    (h : InBlocks d rest) : InBlocks d (⟨d, .statement s⟩ :: rest) where
  known := by
    refine List.forall_mem_cons.mpr ⟨?_, h.known⟩
    rintro ⟨text, heq | heq⟩
    · exact known text (LineBody.statement.inj heq)
    · cases heq
  depth_eq before l after heq := by
    cases before with
    | nil =>
      obtain ⟨rfl, rfl⟩ := List.cons.inj heq
      rfl
    | cons first before =>
      obtain ⟨rfl, hrest⟩ := List.cons.inj heq
      exact h.depth_eq before l after hrest
  closed before e header after heq := by
    cases before with
    | nil => cases heq
    | cons first before => exact h.closed before e header after (List.cons.inj heq).2
  opened before e after heq := by
    cases before with
    | nil => cases heq
    | cons first before =>
      obtain ⟨front, header, inside, rfl, hinside⟩ :=
        h.opened before e after (List.cons.inj heq).2
      exact ⟨first :: front, header, inside, rfl, hinside⟩
  recomputed before e condition after heq := by
    cases before with
    | nil => cases heq
    | cons first before =>
      obtain ⟨k, left, operator, right, front, inside, rest', hk, rfl, hafter⟩ :=
        h.recomputed before e condition after (List.cons.inj heq).2
      exact ⟨k, left, operator, right, first :: front, inside, rest', hk, rfl, hafter⟩

/-- **A block with the statement that it tests** stands before lines in blocks. -/
theorem block {k : Nat} {left operator right : String} {header : Header}
    {inside rest : List Line}
    (tested : header = .ifHolds (temporaryName k) ∨ header = .whileHolds (temporaryName k) ∧
      [⟨d + 1, .statement (.compute (temporaryName k) left operator right)⟩] <:+ inside)
    (body : InBlocks (d + 1) inside) (deeper : ∀ l ∈ inside, d < l.depth)
    (balanced : inside.countP Line.closes = inside.countP Line.opens) (next : InBlocks d rest) :
    InBlocks d (⟨d, .statement (.compute (temporaryName k) left operator right)⟩
      :: ⟨d, .opening header⟩ :: (inside ++ ⟨d, .closing⟩ :: rest)) where
  known := by
    simp only [List.forall_mem_cons, List.forall_mem_append]
    refine ⟨?_, ?_, body.known, ?_, next.known⟩
    · rintro ⟨text, heq | heq⟩ <;> cases heq
    · rintro ⟨text, heq | heq⟩
      · cases heq
      · obtain rfl := LineBody.opening.inj heq
        rcases tested with heq | ⟨heq, -⟩ <;> cases heq
    · rintro ⟨text, heq | heq⟩ <;> cases heq
  depth_eq before l after heq := by
    cases before with
    | nil =>
      obtain ⟨rfl, -⟩ := List.cons.inj heq
      rfl
    | cons first before =>
      obtain ⟨rfl, hblock⟩ := List.cons.inj heq
      rcases split_block hblock with ⟨rfl, rfl, -⟩ | ⟨front, back, rfl, hinside, -⟩ |
        ⟨rfl, rfl, -⟩ | ⟨front, rfl, hrest⟩
      · rfl
      · have hdepth := body.depth_eq front l back hinside
        simp [List.countP_cons, Line.opens, Line.closes] at hdepth ⊢
        omega
      · simp [List.countP_cons, Line.opens, Line.closes, balanced]
      · have hdepth := next.depth_eq front l after hrest
        simp [List.countP_cons, Line.opens, Line.closes, balanced] at hdepth ⊢
        omega
  closed before e header' after heq := by
    cases before with
    | nil => cases heq
    | cons first before =>
      rcases split_block (List.cons.inj heq).2 with ⟨-, hhead, hafter⟩ |
        ⟨front, back, -, hinside, rfl⟩ | ⟨-, hbrace, -⟩ | ⟨front, -, hrest⟩
      · obtain ⟨rfl, -⟩ := Line.mk.inj hhead
        exact ⟨inside, rest, hafter, deeper⟩
      · obtain ⟨within, behind, rfl, hdeeper⟩ := body.closed front e header' back hinside
        exact ⟨within, behind ++ ⟨d, .closing⟩ :: rest, by simp, hdeeper⟩
      · cases hbrace
      · exact next.closed front e header' after hrest
  opened before e after heq := by
    cases before with
    | nil => cases heq
    | cons first before =>
      rcases split_block (List.cons.inj heq).2 with ⟨-, hhead, -⟩ |
        ⟨front, back, rfl, hinside, -⟩ | ⟨rfl, hbrace, -⟩ | ⟨front, rfl, hrest⟩
      · cases hhead
      · obtain ⟨ahead, header', within, rfl, hdeeper⟩ := body.opened front e back hinside
        exact ⟨first :: ⟨d, .opening header⟩ :: ahead, header', within, rfl, hdeeper⟩
      · obtain ⟨rfl, -⟩ := Line.mk.inj hbrace
        exact ⟨[first], header, inside, rfl, deeper⟩
      · obtain ⟨ahead, header', within, rfl, hdeeper⟩ := next.opened front e after hrest
        exact ⟨first :: ⟨d, .opening header⟩ :: (inside ++ ⟨d, .closing⟩ :: ahead), header', within,
          by simp, hdeeper⟩
  recomputed before e condition after heq := by
    cases before with
    | nil => cases heq
    | cons first before =>
      obtain ⟨rfl, hblock⟩ := List.cons.inj heq
      rcases split_block hblock with ⟨rfl, hhead, rfl⟩ | ⟨front, back, rfl, hinside, rfl⟩ |
        ⟨-, hbrace, -⟩ | ⟨front, rfl, hrest⟩
      · -- the loop is this block
        obtain ⟨rfl, hheader⟩ := Line.mk.inj hhead
        obtain rfl := LineBody.opening.inj hheader
        rcases tested with hif | ⟨hwhile, front, rfl⟩
        · cases hif
        · obtain rfl := Header.whileHolds.inj hwhile
          exact ⟨k, left, operator, right, [], front, rest, rfl, rfl, by simp,
            fun l hl => deeper l (List.mem_append_left _ hl)⟩
      · obtain ⟨k', left', operator', right', ahead, within, behind, hk, rfl, rfl, hdeeper⟩ :=
          body.recomputed front e condition back hinside
        exact ⟨k', left', operator', right', _ :: _ :: ahead, within,
          behind ++ ⟨d, .closing⟩ :: rest, hk, rfl, by simp, hdeeper⟩
      · cases hbrace
      · obtain ⟨k', left', operator', right', ahead, within, behind, hk, rfl, hafter, hdeeper⟩ :=
          next.recomputed front e condition after hrest
        exact ⟨k', left', operator', right',
          ⟨d, .statement (.compute (temporaryName k) left operator right)⟩ :: ⟨d, .opening header⟩
            :: (inside ++ ⟨d, .closing⟩ :: ahead), within, behind, hk, by simp, hafter, hdeeper⟩

end InBlocks

namespace Nested

variable {d : Nat} {lines : List Line}

/-- No line stands less deep than where nested lines begin. -/
theorem le_depth (h : Nested d lines) {l : Line} (hl : l ∈ lines) : d ≤ l.depth := by
  induction h with
  | nil => cases hl
  | statement _ _ ih =>
    rcases List.mem_cons.mp hl with rfl | hl
    · exact Nat.le_refl _
    · exact ih hl
  | block k left operator right _ _ _ ihbody ihnext =>
    simp only [List.mem_cons, List.mem_append] at hl
    rcases hl with rfl | rfl | hl | rfl | hl
    · exact Nat.le_refl _
    · exact Nat.le_refl _
    · exact Nat.le_of_succ_le (ihbody hl)
    · exact Nat.le_refl _
    · exact ihnext hl

/-- As many blocks are closed as are opened. -/
theorem countP_eq (h : Nested d lines) : lines.countP Line.closes = lines.countP Line.opens := by
  induction h with
  | nil => rfl
  | statement _ _ ih => simpa [Line.opens, Line.closes] using ih
  | block k left operator right _ _ _ ihbody ihnext =>
    simp [List.countP_cons, Line.opens, Line.closes, ihbody, ihnext]
    omega

/-- **Nested lines are lines in blocks.** -/
theorem inBlocks (h : Nested d lines) : InBlocks d lines := by
  induction h with
  | nil d => exact .nil d
  | statement known _ ih => exact ih.statement known
  | block k left operator right tested body _ ihbody ihnext =>
    exact .block tested ihbody (fun l hl => body.le_depth hl) body.countP_eq ihnext

/-- Nested lines may follow one another. -/
theorem append (h : Nested d lines) {more : List Line} (hmore : Nested d more) :
    Nested d (lines ++ more) := by
  induction h with
  | nil => exact hmore
  | statement known _ ih => exact .statement known (ih hmore)
  | block k left operator right tested body _ _ ihnext =>
    have hblock := Nested.block k left operator right tested body (ihnext hmore)
    simpa only [List.cons_append, List.append_assoc] using hblock

/-- Statements are nested lines. -/
theorem of_statements {statements : List Statement}
    (h : ∀ s ∈ statements, ∀ text, s ≠ .verbatim text) (d : Nat) :
    Nested d (layOut d (statements.map .statement)) := by
  induction statements with
  | nil => exact .nil d
  | cons s statements ih =>
    obtain ⟨hs, hrest⟩ := List.forall_mem_cons.mp h
    exact .statement hs (ih hrest)

end Nested

/-- Statements are laid out at one depth. -/
theorem layOut_statements (d : Nat) (statements : List Statement) :
    layOut d (statements.map .statement) = statements.map fun s => ⟨d, .statement s⟩ := by
  induction statements with
  | nil => rfl
  | cons s statements ih => exact congrArg (List.cons _) ih

/-- The declarations of temporaries are nested lines. -/
theorem Nested.of_declarationLines (k : Nat) (kinds : List TemporaryKind) :
    Nested 0 (CodeBuffer.declarationLines k kinds) := by
  rw [CodeBuffer.declarationLines, ← layOut_statements]
  refine .of_statements (fun s hs text => ?_) 0
  obtain ⟨i, kind, -, rfl⟩ := CodeBuffer.mem_declarationStatements.mp hs
  simp

/-- Statements leave the depth as it is. -/
theorem depthAfter_statements (d : Nat) (statements : List Statement) :
    depthAfter d (statements.map .statement) = d := by
  induction statements with
  | nil => rfl
  | cons s statements ih => exact ih

end Mgol.Target

/-! ## The lines of a translation -/

namespace Mgol.Ast

open Target

/-- The depth behind a block is the depth before it. -/
theorem Block.depthAfter_lines (types : String → DataType) (k d : Nat) (b : Block) :
    depthAfter d (b.lines types k) = d := by
  induction b generalizing k d with
  | done => rfl
  | command c next ih => rw [lines, depthAfter_append, depthAfter_statements, ih]
  | conditional t body next ihbody ihnext =>
    simp only [lines, List.cons_append, List.nil_append, depthAfter, depthAfter_append, ihbody,
      ihnext, Nat.add_sub_cancel]
  | loop t body next ihbody ihnext =>
    simp only [lines, List.cons_append, List.nil_append, depthAfter, depthAfter_append, ihbody,
      ihnext, Nat.add_sub_cancel]

/-- **The lines of a block are nested**, from whatever depth they are laid out. -/
theorem Block.nested_lines (types : String → DataType) (k d : Nat) (b : Block) :
    Nested d (layOut d (b.lines types k)) := by
  induction b generalizing k d with
  | done => exact .nil d
  | command c next ih =>
    rw [lines, layOut_append, depthAfter_statements]
    exact (Nested.of_statements (fun s hs => Command.statements_ne_verbatim hs) d).append (ih _ d)
  | conditional t body next ihbody ihnext =>
    have hblock := Nested.block k t.left.text (SemanticAction.cRelational t.operator.spelling)
      t.right.text (.inl rfl) (ihbody (k + 1) (d + 1)) (ihnext (k + (1 + body.temporaries)) d)
    simpa only [lines, List.cons_append, List.nil_append, layOut, layOut_append,
      body.depthAfter_lines, Nat.add_sub_cancel, Comparison.statement] using hblock
  | loop t body next ihbody ihnext =>
    -- the statement at the end of the loop is one of the lines inside
    have hstatement : ∀ text, t.statement k ≠ .verbatim text := by simp [Comparison.statement]
    have hinside := (ihbody (k + 1) (d + 1)).append (.statement hstatement (.nil _))
    have hblock := Nested.block k t.left.text (SemanticAction.cRelational t.operator.spelling)
      t.right.text (.inr ⟨rfl, List.suffix_append _ _⟩) hinside
      (ihnext (k + (1 + body.temporaries)) d)
    simpa only [lines, List.cons_append, List.nil_append, List.append_assoc, layOut, layOut_append,
      body.depthAfter_lines, Nat.add_sub_cancel, Comparison.statement] using hblock

/-- **The lines of a program are nested.** -/
theorem Program.nested_lines (p : Program) : Nested 0 (layOut 0 p.lines) := by
  have hdeclarations : p.declarations.map Declaration.line =
      (p.declarations.map fun d => Statement.declare d.type (d.names.map Name.text)).map
        .statement := by
    rw [List.map_map]
    rfl
  rw [Program.lines, hdeclarations, layOut_append, depthAfter_statements]
  refine (Nested.of_statements (List.forall_mem_map.mpr fun d _ text => ?_) 0).append
    (p.main.nested_lines p.types 0 0)
  simp

end Mgol.Ast
