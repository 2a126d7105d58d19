import Mgol.Proofs.Meaning.Reduction
import Mgol.Proofs.Typing.Account

/-! # Reductions of surveys

A reduction adds up what the symbols of its right side have added to a survey, and the action of its
rule reports what the left side adds to that.

* **`Survey.Completes`** — what is to be shown of a reduction.
* **`Survey.reduce_operation`, `Survey.reduce_assignment`, …** — the rules of MGol.
* **`Survey.reduce`** — all of them. -/

namespace Mgol

open Target Ast SemanticAction

namespace Survey

variable {place : Nat → Option Position} {rule : Rule} {values : List (Spanned Token)}
  {p : Position} {v : Spanned Token} {u : Token} {span : Span} {s s₁ : Survey}
  {c c' : ActionContext}

/-- **What is left to show of a reduction**: its action has led to a context that shows what the
left side adds, and nothing was read. -/
def Completes (place : Nat → Option Position) (addition : Addition) (v : Spanned Token)
    (s s₁ : Survey) (c' : ActionContext) : Prop :=
  ∃ s', addition v s s' ∧ s'.read = s₁.read ∧ c'.Shows place s'

/-- A reduction that changes nothing. -/
theorem Completes.unchanged {addition : Addition} (h : addition v s s₁) (hc : c'.Shows place s₁) :
    Completes place addition v s s₁ c' := ⟨s₁, h, rfl, hc⟩

/-! ## Declarations -/

/-- A type keyword is a type. -/
theorem reduce_type {k : Keyword} (h : Surveyed place [k.spelling] values s s₁)
    (hword : Account place k.spelling = OfToken place k.spelling)
    (htype : keywordType (.keyword k) ≠ .untyped)
    (htypeWord : typeWord (keywordType (.keyword k)) = reserved k) (hc : c.Shows place s₁)
    (hperform : declaredType ⟨rule, values, p⟩ c = (.ok u, c')) :
    Completes place OfType ⟨u, span⟩ s s₁ c' := by
  obtain ⟨v₀, rfl, htoken⟩ := h.one
  rw [hword] at htoken
  have hkind := Token.kind_of_terminalName (k := .keyword k) rfl (by cases k <;> decide) htoken.1
  obtain rfl := htoken.reserved
  obtain ⟨hu, rfl⟩ := Prod.mk.inj hperform
  obtain rfl := Except.ok.inj hu
  simp only [hkind]
  refine ⟨_, ⟨htype, rfl⟩, by simp [htypeWord], ?_⟩
  exact hc.change hc.types_eq rfl rfl rfl rfl

/-- The name of a declaration is declared, behind those that were declared before. -/
theorem declareIdentifier_ok {v₀ : Spanned Token}
    (hperform : declareIdentifier ⟨rule, v₀ :: values, p⟩ c = (.ok u, c')) :
    c.declare v₀.value v₀.span.start = .ok c' := by
  unfold declareIdentifier at hperform
  rw [withToken_zero] at hperform
  split at hperform
  · cases hperform
  · next c₁ hdeclare =>
    obtain ⟨_, rfl⟩ := Prod.mk.inj hperform
    exact hdeclare

/-- The last name of a declaration is declared. -/
theorem reduce_lastName (h : Surveyed place ["id"] values s s₁) (hc : c.Shows place s₁)
    (hperform : declareIdentifier ⟨rule, values, p⟩ c = (.ok u, c')) :
    Completes place OfNames ⟨u, span⟩ s s₁ c' := by
  obtain ⟨v₀, rfl, hid⟩ := h.one
  obtain ⟨x, hx, hplace, rfl⟩ := OfToken.name hid
  have hshows := hc.declare hplace (declareIdentifier_ok hperform)
  rw [hx, note_words] at hshows
  exact ⟨_, ⟨[x], by simp, rfl⟩, rfl, hshows⟩

/-- A name in a declaration is declared after those behind it. -/
theorem reduce_name (h : Surveyed place ["id", "vir", "L"] values s s₁) (hc : c.Shows place s₁)
    (hperform : declareIdentifier ⟨rule, values, p⟩ c = (.ok u, c')) :
    Completes place OfNames ⟨u, span⟩ s s₁ c' := by
  obtain ⟨v₀, v₁, v₂, _, _, rfl, hid, hcomma, hnames⟩ := h.three
  obtain ⟨x, hx, hplace, rfl⟩ := OfToken.name hid
  obtain rfl := OfToken.fixed hcomma .comma rfl rfl (by decide)
  obtain ⟨names, hne, rfl⟩ := hnames
  have hshows := hc.declare hplace (declareIdentifier_ok hperform)
  have hwords : nameWords (x :: names) = x.word :: (.comma, ",") :: nameWords names := by
    cases names with
    | nil => exact absurd rfl hne
    | cons y names => rfl
  refine ⟨_, ⟨x :: names, by simp, rfl⟩, by simp [hwords], ?_⟩
  -- the words in front of the other names do not matter for them
  have hothers := foldl_enter_with s.pendingType (nameEntries (s.read.length + 2) names) s
    (s.read ++ [x.word] ++ [(.comma, ",")]) s.pendingType
  simp only [note_words, List.length_append, List.length_singleton, Nat.add_assoc] at hshows hothers
  simp only [hx, hothers] at hshows
  simp only [nameEntries, List.foldl_append, List.foldl_cons, List.foldl_nil]
  refine hshows.change hshows.types_eq ?_ rfl rfl rfl
  rw [hshows.pending_eq]
  exact (pendingType_foldl_enter _ _ s).symm

/-- **A declaration ends.** -/
theorem reduce_declaration (h : Surveyed place ["TIPO", "L", "pt_v"] values s s₁)
    (hc : c.Shows place s₁) (hperform : declaration ⟨rule, values, p⟩ c = (.ok u, c')) :
    Completes place OfDeclaration ⟨u, span⟩ s s₁ c' := by
  obtain ⟨v₀, v₁, v₂, _, _, rfl, ⟨htype, rfl⟩, ⟨names, hne, rfl⟩, hsemicolon⟩ := h.three
  obtain rfl := OfToken.semicolon hsemicolon
  refine ⟨_, ⟨⟨v₀.value.type, names, htype, hne⟩, rfl⟩, ?_, ?_⟩
  · simp [declare, Declaration.words]
  · have hnames := foldl_enter_with v₀.value.type (nameEntries (s.read.length + 1) names) s
      (s.read ++ [typeWord v₀.value.type]) v₀.value.type
    simp only [note_words, List.length_append, List.length_singleton, hnames] at hc
    have hend : (endDeclaration c).Shows place (s.declare ⟨v₀.value.type, names, htype, hne⟩) :=
      hc.change hc.types_eq rfl rfl rfl rfl
    obtain ⟨_, rfl⟩ := Prod.mk.inj hperform
    split
    · exact hend
    · exact hend.work rfl rfl rfl rfl

/-- The end of the declarations. -/
theorem reduce_noDeclarations (h : Surveyed place ["varfim", "pt_v"] values s s₁)
    (hc : c.Shows place s₁) : Completes place (OfDeclarations []) v s s₁ c := by
  obtain ⟨v₀, v₁, _, rfl, hend, hsemicolon⟩ := h.two
  obtain rfl := OfToken.reserved .varfim hend
  obtain rfl := OfToken.semicolon hsemicolon
  exact .unchanged ⟨[], by simp⟩ hc

/-- A declaration in front of others. -/
theorem reduce_declarations (h : Surveyed place ["D", "LV"] values s s₁)
    (hc : c.Shows place s₁) : Completes place (OfDeclarations []) v s s₁ c := by
  obtain ⟨v₀, v₁, _, rfl, ⟨d, rfl⟩, ⟨declarations, rfl⟩⟩ := h.two
  exact .unchanged ⟨d :: declarations, by simp⟩ hc

/-- The declarations behind their first word. -/
theorem reduce_allDeclarations (h : Surveyed place ["varinicio", "LV"] values s s₁)
    (hc : c.Shows place s₁) :
    Completes place (OfDeclarations [reserved .varinicio]) v s s₁ c := by
  obtain ⟨v₀, v₁, _, rfl, hbegin, ⟨declarations, rfl⟩⟩ := h.two
  obtain rfl := OfToken.reserved .varinicio hbegin
  exact .unchanged ⟨declarations, by simp⟩ hc

/-! ## Expressions -/

/-- A name as an operand is looked up. -/
theorem reduce_nameOperand (h : Surveyed place ["id"] values s s₁) (hc : c.Shows place s₁)
    (hperform : identifierOperand ⟨rule, values, p⟩ c = (.ok u, c')) :
    Completes place (OfOperand place) ⟨u, Reduction.span ⟨rule, values, p⟩⟩ s s₁ c' := by
  obtain ⟨v₀, rfl, hid⟩ := h.one
  obtain ⟨x, hx, hplace, rfl⟩ := OfToken.name hid
  unfold identifierOperand at hperform
  rw [withToken_zero] at hperform
  rcases hlookup : c.lookup v₀.value (Reduction.positionOf ⟨rule, [v₀], p⟩ 0) with ⟨type, c₁⟩
  rw [hlookup] at hperform
  obtain ⟨hu, rfl⟩ := Prod.mk.inj hperform
  obtain rfl := Except.ok.inj hu
  obtain ⟨rfl, hshows⟩ := hc.lookup hplace hlookup
  rw [hx] at hshows
  refine ⟨_, ⟨.name x, hplace, ?_, rfl⟩, rfl, ?_⟩
  · simp [Operand.type, hx]
  · simpa [Operand.faults, Operand.word] using hshows

/-- A number as an operand. -/
theorem reduce_numberOperand (h : Surveyed place ["num"] values s s₁) (hc : c.Shows place s₁)
    (hperform : operandValue ⟨rule, values, p⟩ c = (.ok u, c')) :
    Completes place (OfOperand place) ⟨u, Reduction.span ⟨rule, values, p⟩⟩ s s₁ c' := by
  obtain ⟨v₀, rfl, hnumber⟩ := h.one
  obtain ⟨n, hn, htype, hword, _⟩ := IsToken.number (OfToken.isToken hnumber .blank)
  obtain ⟨_, _, hplace, rfl⟩ := hnumber
  obtain ⟨hu, rfl⟩ := Prod.mk.inj hperform
  obtain rfl := Except.ok.inj hu
  rw [hword] at hc ⊢
  exact .unchanged ⟨.number n, hplace, htype, rfl⟩ hc

/-- An operand as an expression. -/
theorem reduce_operand (h : Surveyed place ["OPRD"] values s s₁) (hc : c.Shows place s₁)
    (hperform : operandValue ⟨rule, values, p⟩ c = (.ok u, c')) :
    Completes place OfExpression ⟨u, span⟩ s s₁ c' := by
  obtain ⟨v₀, rfl, ⟨e, _, htype, rfl⟩⟩ := h.one
  obtain ⟨hu, rfl⟩ := Prod.mk.inj hperform
  obtain rfl := Except.ok.inj hu
  exact .unchanged ⟨.operand e, htype, rfl⟩ hc

/-- What was read of two operands and the operator between them. -/
theorem note_operands (s : Survey) (left right : Operand) (operator : Word) :
    ((s.note [left.word] (left.faults s.types s.read.length)).note [operator] []).note
        [right.word]
        (right.faults s.types
          ((s.note [left.word] (left.faults s.types s.read.length)).note
            [operator] []).read.length) =
      s.note [left.word, operator, right.word]
        (left.faults s.types s.read.length ++ right.faults s.types (s.read.length + 2)) := by
  simp

/-- Only numbers can be computed with. -/
theorem ofArithmetic?_eq_none_iff {type : DataType} (htyped : type ≠ .untyped) :
    TemporaryKind.ofArithmetic? type = none ↔ type = .literal := by
  cases type with
  | untyped => exact absurd rfl htyped
  | _ => decide

/-- **An operation** adds a fault of its operands, or computes their type. -/
theorem reduce_operation (h : Surveyed place ["OPRD", "opm", "OPRD"] values s s₁)
    (hc : c.Shows place s₁) (hperform : arithmetic ⟨rule, values, p⟩ c = (.ok u, c')) :
    Completes place OfExpression ⟨u, span⟩ s s₁ c' := by
  obtain ⟨v₀, v₁, v₂, _, _, rfl, ⟨left, hplace, hleft, rfl⟩, hoperator, ⟨right, _, hright, rfl⟩⟩ :=
    h.three
  obtain ⟨a, ha, rfl⟩ := OfToken.arithmetic hoperator
  simp only [types_note] at hright hc ⊢
  rw [note_operands] at hc ⊢
  obtain ⟨hdiffer, hu, hshows⟩ | ⟨htyped, hsame, hnext⟩ := hc.operands hplace hperform
  · -- operands without one type in common
    rw [hleft, hright] at hdiffer hshows
    have hsilent : ¬(left.type s.types = .literal ∧ right.type s.types = .literal) := by
      rintro ⟨hl, hr⟩
      rw [hl, hr] at hdiffer
      exact hdiffer.elim (by decide) (· rfl)
    refine ⟨_, ⟨.operation left a right, ?_, rfl⟩, rfl, ?_⟩
    · rw [hu, Expression.type]
      split
      · next hboth => exact (hdiffer.resolve_right (not_not.mpr hboth.1)).symm
      · rfl
    · rw [ha] at hshows
      simpa [Expression.faults, Expression.words, literals, hsilent] using hshows
  · have hliteral := ofArithmetic?_eq_none_iff htyped
    rw [hleft] at htyped hsame hliteral hnext
    rw [hright] at hsame
    have hagree : mismatch s.read.length (left.type s.types) (right.type s.types) a.spelling = [] :=
      if_neg fun hdiffer => hdiffer.2.2 hsame
    split at hnext
    · next hnone =>
      -- texts cannot be computed with
      have htext := hliteral.mp hnone
      obtain ⟨hu, rfl⟩ := Prod.mk.inj hnext
      obtain rfl := Except.ok.inj hu
      refine ⟨_, ⟨.operation left a right, ?_, rfl⟩, rfl, ?_⟩
      · simp [Expression.type, htext, unresolved]
      · have hshows := hc.report hplace .literalInArithmetic
          ("Operator '" ++ v₁.value.lexeme ++ "' cannot be applied to literal operands")
          v₁.value.lexeme
        have hfault : literals s.read.length (left.type s.types) (right.type s.types) a.spelling =
            [⟨.literalInArithmetic, s.read.length, a.spelling⟩] :=
          if_pos ⟨htext, hsame ▸ htext⟩
        simpa [Expression.faults, Expression.words, hagree, hfault, ha, Reduction.positionOf]
          using hshows
    · next kind hkind =>
      obtain ⟨hu, rfl⟩ := Prod.mk.inj (withTemporary_ok hnext)
      obtain rfl := Except.ok.inj hu
      have hnumber : left.type s.types ≠ .literal := fun htext => by
        cases hkind.symm.trans (hliteral.mpr htext)
      have hsilent : literals s.read.length (left.type s.types) (right.type s.types) a.spelling =
          [] := if_neg fun htexts => hnumber htexts.1
      refine ⟨_, ⟨.operation left a right, ?_, rfl⟩, rfl, ?_⟩
      · rw [Expression.type, if_pos ⟨hsame, hnumber⟩]
      · rw [Expression.faults, hagree, hsilent, List.append_nil, List.append_nil]
        exact hc.work rfl rfl rfl rfl

/-- **A comparison** adds a fault of its operands, or computes a truth value. -/
theorem reduce_comparison (h : Surveyed place ["OPRD", "opr", "OPRD"] values s s₁)
    (hc : c.Shows place s₁) (hperform : relational ⟨rule, values, p⟩ c = (.ok u, c')) :
    Completes place OfComparison ⟨u, span⟩ s s₁ c' := by
  obtain ⟨v₀, v₁, v₂, _, _, rfl, ⟨left, hplace, hleft, rfl⟩, hoperator, ⟨right, _, hright, rfl⟩⟩ :=
    h.three
  obtain ⟨r, hr, rfl⟩ := OfToken.relation hoperator
  simp only [types_note] at hright hc ⊢
  rw [note_operands] at hc ⊢
  have hforget : (forgetRelational c).Shows place _ := hc.work rfl rfl rfl rfl
  refine ⟨_, ⟨⟨left, r, right⟩, rfl⟩, rfl, ?_⟩
  obtain ⟨hdiffer, _, hshows⟩ | ⟨_, hsame, hnext⟩ := hforget.operands hplace hperform
  · rw [hleft, hright, hr] at hshows
    simpa [Comparison.faults, Comparison.words] using hshows
  · rw [hleft, hright] at hsame
    have hagree : mismatch s.read.length (left.type s.types) (right.type s.types) r.spelling = [] :=
      if_neg fun hdiffer => hdiffer.2.2 hsame
    obtain ⟨_, rfl⟩ := Prod.mk.inj (withTemporary_ok hnext)
    rw [Comparison.faults, hagree, List.append_nil]
    exact hc.work rfl rfl rfl rfl

/-! ## Commands -/

/-- One command is a block. -/
theorem OfBlock.of_command (command : Command) :
    OfBlock [] v s (s.note command.words (command.faults s.types s.read.length)) :=
  ⟨.command command .done, by simp [Block.words, Block.faults]⟩

/-- **A variable that is read** is looked up. -/
theorem reduce_read (h : Surveyed place ["leia", "id", "pt_v"] values s s₁) (hc : c.Shows place s₁)
    (hperform : readStatement ⟨rule, values, p⟩ c = (.ok u, c')) :
    Completes place (OfBlock []) ⟨u, span⟩ s s₁ c' := by
  obtain ⟨v₀, v₁, v₂, _, _, rfl, hread, hid, hsemicolon⟩ := h.three
  obtain rfl := OfToken.reserved .leia hread
  obtain ⟨x, hx, hplace, rfl⟩ := OfToken.name hid
  obtain rfl := OfToken.semicolon hsemicolon
  unfold readStatement at hperform
  rw [withToken_one] at hperform
  rcases hlookup : c.lookup v₁.value (Reduction.positionOf ⟨rule, [v₀, v₁, v₂], p⟩ 1) with
    ⟨type, c₁⟩
  rw [hlookup] at hperform
  obtain ⟨_, rfl⟩ := Prod.mk.inj hperform
  obtain ⟨_, hshows⟩ := hc.lookup hplace hlookup
  refine ⟨_, .of_command (.read x), by simp [Command.words], ?_⟩
  rw [hx] at hshows ⊢
  refine ActionContext.Shows.emitTyped ?_ _ _
  simpa [Command.words, Command.faults] using hshows

/-- A text, a number or a name is an argument. -/
theorem reduce_argument {a : GrammarSymbol} (h : Surveyed place [a] values s s₁)
    (ha : Account place a = OfToken place a) (hcases : a = "lit" ∨ a = "num" ∨ a = "id")
    (hc : c.Shows place s₁) (hperform : passThrough ⟨rule, values, p⟩ c = (.ok u, c')) :
    Completes place (OfArgument place) ⟨u, Reduction.span ⟨rule, values, p⟩⟩ s s₁ c' := by
  obtain ⟨v₀, rfl, htoken⟩ := h.one
  rw [ha] at htoken
  obtain ⟨hname, hspelled, hplace, rfl⟩ := htoken
  obtain ⟨hu, rfl⟩ := Prod.mk.inj hperform
  obtain rfl := Except.ok.inj hu
  refine .unchanged ⟨?_, hspelled, hplace, rfl⟩ hc
  rcases hcases with rfl | rfl | rfl
  · exact .inl (Token.kind_of_terminalName rfl (by decide) hname)
  · exact .inr (.inl (Token.kind_of_terminalName rfl (by decide) hname))
  · exact .inr (.inr (Token.kind_of_terminalName rfl (by decide) hname))

/-- **An argument that is written out** is looked up if it is a name. -/
theorem reduce_write (h : Surveyed place ["escreva", "ARG", "pt_v"] values s s₁)
    (hc : c.Shows place s₁) (hperform : writeStatement ⟨rule, values, p⟩ c = (.ok u, c')) :
    Completes place (OfBlock []) ⟨u, span⟩ s s₁ c' := by
  obtain ⟨v₀, v₁, v₂, _, _, rfl, hwrite, ⟨hkind, hspelled, hplace, rfl⟩, hsemicolon⟩ := h.three
  obtain rfl := OfToken.reserved .escreva hwrite
  obtain rfl := OfToken.semicolon hsemicolon
  simp only [note_note, List.cons_append, List.nil_append] at hc ⊢
  unfold Token.Spelled at hspelled
  unfold writeStatement at hperform
  rw [withToken_one] at hperform
  rcases hkind with hkind | hkind | hkind
  · simp only [hkind] at hspelled hperform
    obtain ⟨body, hbody⟩ := hspelled
    have hword : v₁.value.word = (Argument.text body).word := by
      rw [Token.word, hkind, hbody]
      rfl
    obtain ⟨_, rfl⟩ := Prod.mk.inj hperform
    rw [hword] at hc ⊢
    exact .unchanged (.of_command (.write (.text body))) (hc.work rfl rfl rfl rfl)
  · simp only [hkind] at hspelled hperform
    have hword : v₁.value.word =
        (Argument.operand (.number ⟨v₁.value.lexeme, hspelled.1⟩)).word := by
      rw [Token.word, hkind]
      rfl
    obtain ⟨_, rfl⟩ := Prod.mk.inj hperform
    rw [hword] at hc ⊢
    exact .unchanged (.of_command (.write (.operand (.number ⟨v₁.value.lexeme, hspelled.1⟩))))
      (hc.emitTyped _ _)
  · simp only [hkind] at hspelled hperform
    have hword : v₁.value.word = (Argument.operand (.name ⟨v₁.value.lexeme, hspelled⟩)).word := by
      rw [Token.word, hkind]
      rfl
    rcases hlookup : c.lookup v₁.value (Reduction.positionOf ⟨rule, [v₀, v₁, v₂], p⟩ 1) with
      ⟨type, c₁⟩
    rw [hlookup] at hperform
    obtain ⟨_, rfl⟩ := Prod.mk.inj hperform
    obtain ⟨_, hshows⟩ := hc.lookup hplace hlookup
    rw [hword] at hshows ⊢
    refine ⟨_, .of_command (.write (.operand (.name ⟨v₁.value.lexeme, hspelled⟩))), rfl, ?_⟩
    refine ActionContext.Shows.emitTyped ?_ _ _
    simpa [Command.words, Command.faults, Operand.faults] using hshows

/-- **A variable that gets a value** is looked up, and has to have the type of the value. -/
theorem reduce_assignment (h : Surveyed place ["id", "rcb", "LD", "pt_v"] values s s₁)
    (hc : c.Shows place s₁) (hperform : assignment ⟨rule, values, p⟩ c = (.ok u, c')) :
    Completes place (OfBlock []) ⟨u, span⟩ s s₁ c' := by
  obtain ⟨v₀, v₁, v₂, v₃, _, _, _, rfl, hid, harrow, ⟨e, htype, rfl⟩, hsemicolon⟩ := h.four
  obtain ⟨x, hx, hplace, rfl⟩ := OfToken.name hid
  obtain rfl := OfToken.fixed harrow .assignment rfl rfl (by decide)
  obtain rfl := OfToken.semicolon hsemicolon
  unfold assignment at hperform
  rw [withToken_zero, withToken_two] at hperform
  rcases hlookup : c.lookup v₀.value (Reduction.positionOf ⟨rule, [v₀, v₁, v₂, v₃], p⟩ 0) with
    ⟨type, c₁⟩
  rw [hlookup] at hperform
  obtain ⟨_, rfl⟩ := Prod.mk.inj hperform
  obtain ⟨rfl, hshows⟩ := hc.lookup hplace hlookup
  simp only [types_note] at htype
  rw [hx] at hshows
  have hknown : c₁.Shows place (s.note (Command.assign x e).words
      (e.faults s.types (s.read.length + 2) ++ undeclared s.types s.read.length x.text)) := by
    simpa [Command.words] using hshows
  refine ⟨_, .of_command (.assign x e), by simp [Command.words], ?_⟩
  rw [Command.faults, ← List.append_assoc]
  simp only [types_note, hx, htype]
  split
  · next hsilent =>
    have hnone : misassigned s.read.length (s.types x.text) (e.type s.types) x.text = [] :=
      if_neg fun hdiffer => hsilent.elim hdiffer.1 hdiffer.2.1
    rw [hnone, List.append_nil]
    exact hknown
  · next htyped =>
    obtain ⟨htarget, hvalue⟩ := not_or.mp htyped
    split
    · next hdiffer =>
      have hfault : misassigned s.read.length (s.types x.text) (e.type s.types) x.text =
          [⟨.assignmentTypeMismatch, s.read.length, x.text⟩] := if_pos ⟨htarget, hvalue, hdiffer⟩
      have hreport := hknown.report hplace .assignmentTypeMismatch
        (assignmentMessage v₂.value v₀.value (s.types x.text)) x.text
      rw [note_note, List.append_nil] at hreport
      rw [hfault]
      exact hreport
    · next hsame =>
      have hnone : misassigned s.read.length (s.types x.text) (e.type s.types) x.text = [] :=
        if_neg fun hdiffer => hsame hdiffer.2.2
      rw [hnone, List.append_nil]
      split
      · exact hknown.work rfl rfl rfl rfl
      · exact hknown.work rfl rfl rfl rfl

/-! ## Blocks -/

/-- A part of a block in front of the rest. -/
theorem reduce_part {a b : GrammarSymbol} {stop : List Word} (h : Surveyed place [a, b] values s s₁)
    (ha : Account place a = OfBlock []) (hb : Account place b = OfBlock stop)
    (hc : c.Shows place s₁) : Completes place (OfBlock stop) v s s₁ c := by
  obtain ⟨v₀, v₁, _, rfl, hfront, hback⟩ := h.two
  rw [ha] at hfront
  rw [hb] at hback
  obtain ⟨front, rfl⟩ := hfront
  obtain ⟨back, rfl⟩ := hback
  exact .unchanged ⟨front.append back, by simp [Block.words_append, Block.faults_append]⟩ hc

/-- The end of a block. -/
theorem reduce_end {k : Keyword} (h : Surveyed place [k.spelling] values s s₁)
    (hword : Account place k.spelling = OfToken place k.spelling) (hc : c.Shows place s₁) :
    Completes place (OfBlock [reserved k]) v s s₁ c := by
  obtain ⟨v₀, rfl, htoken⟩ := h.one
  rw [hword] at htoken
  obtain rfl := htoken.reserved
  exact .unchanged ⟨.done, by simp [Block.words, Block.faults]⟩ hc

/-- The head of a conditional. -/
theorem reduce_conditionalHead
    (h : Surveyed place ["se", "ab_p", "EXP_R", "fc_p", "entao"] values s s₁)
    (hc : c.Shows place s₁)
    (hperform : openConditional ⟨rule, values, p⟩ c = (.ok u, c')) :
    Completes place (OfHead conditionalHead) ⟨u, span⟩ s s₁ c' := by
  obtain ⟨v₀, v₁, v₂, v₃, v₄, _, _, _, _, rfl, hif, hopen, ⟨t, rfl⟩, hclose, hthen⟩ := h.five
  obtain rfl := OfToken.reserved .se hif
  obtain rfl := OfToken.fixed hopen .openParen rfl rfl (by decide)
  obtain rfl := OfToken.fixed hclose .closeParen rfl rfl (by decide)
  obtain rfl := OfToken.reserved .entao hthen
  obtain ⟨_, rfl⟩ := Prod.mk.inj hperform
  exact .unchanged ⟨t, by simp [conditionalHead]⟩ (hc.work rfl rfl rfl rfl)

/-- A conditional is a block. -/
theorem reduce_conditional (h : Surveyed place ["CAB", "CP"] values s s₁) (hc : c.Shows place s₁)
    (hperform : closeConditional ⟨rule, values, p⟩ c = (.ok u, c')) :
    Completes place (OfBlock []) ⟨u, span⟩ s s₁ c' := by
  obtain ⟨v₀, v₁, _, rfl, ⟨t, rfl⟩, ⟨body, rfl⟩⟩ := h.two
  obtain ⟨_, rfl⟩ := Prod.mk.inj hperform
  exact .unchanged ⟨.conditional t body .done, by simp [Block.words, Block.faults]⟩
    (hc.work rfl rfl rfl rfl)

/-- The head of a loop. -/
theorem reduce_loopHead (h : Surveyed place ["repita", "ab_p", "EXP_R", "fc_p"] values s s₁)
    (hc : c.Shows place s₁) (hperform : openLoop ⟨rule, values, p⟩ c = (.ok u, c')) :
    Completes place (OfHead loopHead) ⟨u, span⟩ s s₁ c' := by
  obtain ⟨v₀, v₁, v₂, v₃, _, _, _, rfl, hrepeat, hopen, ⟨t, rfl⟩, hclose⟩ := h.four
  obtain rfl := OfToken.reserved .repita hrepeat
  obtain rfl := OfToken.fixed hopen .openParen rfl rfl (by decide)
  obtain rfl := OfToken.fixed hclose .closeParen rfl rfl (by decide)
  obtain ⟨_, rfl⟩ := Prod.mk.inj hperform
  exact .unchanged ⟨t, by simp [loopHead]⟩ (hc.work rfl rfl rfl rfl)

/-- A loop is a block. -/
theorem reduce_loop (h : Surveyed place ["CABR", "CPR"] values s s₁) (hc : c.Shows place s₁)
    (hperform : closeLoop ⟨rule, values, p⟩ c = (.ok u, c')) :
    Completes place (OfBlock []) ⟨u, span⟩ s s₁ c' := by
  obtain ⟨v₀, v₁, _, rfl, ⟨t, rfl⟩, ⟨body, rfl⟩⟩ := h.two
  obtain ⟨_, rfl⟩ := Prod.mk.inj hperform
  exact .unchanged ⟨.loop t body .done, by simp [Block.words, Block.faults]⟩
    (hc.leaveLoop.work rfl rfl rfl rfl)

/-- **A program** finds what its declarations and its block find. -/
theorem reduce_program (h : Surveyed place ["inicio", "V", "A"] values s s₁)
    (hc : c.Shows place s₁) : Completes place OfProgram v s s₁ c := by
  obtain ⟨v₀, v₁, v₂, _, _, rfl, hbegin, ⟨declarations, rfl⟩, ⟨main, rfl⟩⟩ := h.three
  obtain rfl := OfToken.reserved .inicio hbegin
  refine .unchanged ⟨⟨declarations, main⟩, ?_, ?_⟩ hc
  · simp [read_foldl_declare, Program.words]
  · rintro rfl
    -- all names have their types before the block begins
    obtain ⟨htypes, hfound, hread⟩ := declared_program ⟨declarations, main⟩
      [reserved .inicio, reserved .varinicio] rfl
    have hbefore : Program.before ⟨declarations, main⟩ =
        (declarations.flatMap Declaration.words).length + 4 := Nat.add_comm _ _
    simp [htypes, hfound, hread, Program.faults, hbefore]

/-- **Reductions add up what was found.** The action of a rule of MGol reports what the left side
adds to what the right side has added. -/
theorem reduce {r : Rule} (hr : r ∈ RuleSet.mgol.others) (h : Surveyed place r.right values s s₁)
    (hc : c.Shows place s₁)
    (hperform : Executor.perform mgolActions ⟨r, values, p⟩ c = (.ok u, c')) :
    Completes place (Account place r.left) ⟨u, Reduction.span ⟨r, values, p⟩⟩ s s₁ c' := by
  simp only [RuleSet.mgol, List.mem_cons, List.not_mem_nil, or_false] at hr
  rcases hr with rfl | rfl | rfl | rfl | rfl | rfl | rfl | rfl | rfl | rfl | rfl | rfl | rfl |
    rfl | rfl | rfl | rfl | rfl | rfl | rfl | rfl | rfl | rfl | rfl | rfl | rfl | rfl | rfl |
    rfl | rfl | rfl | rfl | rfl | rfl | rfl | rfl | rfl | rfl
  -- the program and its declarations
  · obtain rfl := perform_none rfl hperform
    exact reduce_program h hc
  · obtain rfl := perform_none rfl hperform
    exact reduce_allDeclarations h hc
  · obtain rfl := perform_none rfl hperform
    exact reduce_declarations h hc
  · obtain rfl := perform_none rfl hperform
    exact reduce_noDeclarations h hc
  · exact reduce_declaration h hc hperform
  · exact reduce_name h hc hperform
  · exact reduce_lastName h hc hperform
  · exact reduce_type (k := .inteiro) h rfl (by decide) rfl hc hperform
  · exact reduce_type (k := .real) h rfl (by decide) rfl hc hperform
  · exact reduce_type (k := .literal) h rfl (by decide) rfl hc hperform
  -- reading and writing
  · obtain rfl := perform_none rfl hperform
    exact reduce_part h rfl rfl hc
  · exact reduce_read h hc hperform
  · exact reduce_write h hc hperform
  · exact reduce_argument h rfl (by decide) hc hperform
  · exact reduce_argument h rfl (by decide) hc hperform
  · exact reduce_argument h rfl (by decide) hc hperform
  -- assignments and expressions
  · obtain rfl := perform_none rfl hperform
    exact reduce_part h rfl rfl hc
  · exact reduce_assignment h hc hperform
  · exact reduce_operation h hc hperform
  · exact reduce_operand h hc hperform
  · exact reduce_nameOperand h hc hperform
  · exact reduce_numberOperand h hc hperform
  -- conditionals
  · obtain rfl := perform_none rfl hperform
    exact reduce_part h rfl rfl hc
  · exact reduce_conditional h hc hperform
  · exact reduce_conditionalHead h hc hperform
  · exact reduce_comparison h hc hperform
  · obtain rfl := perform_none rfl hperform
    exact reduce_part h rfl rfl hc
  · obtain rfl := perform_none rfl hperform
    exact reduce_part h rfl rfl hc
  · obtain rfl := perform_none rfl hperform
    exact reduce_part h rfl rfl hc
  · obtain rfl := perform_none rfl hperform
    exact reduce_end (k := .fimse) h rfl hc
  -- loops
  · obtain rfl := perform_none rfl hperform
    exact reduce_part h rfl rfl hc
  · exact reduce_loop h hc hperform
  · exact reduce_loopHead h hc hperform
  · obtain rfl := perform_none rfl hperform
    exact reduce_part h rfl rfl hc
  · obtain rfl := perform_none rfl hperform
    exact reduce_part h rfl rfl hc
  · obtain rfl := perform_none rfl hperform
    exact reduce_part h rfl rfl hc
  · obtain rfl := perform_none rfl hperform
    exact reduce_end (k := .fimrepita) h rfl hc
  -- the end of the program
  · obtain rfl := perform_none rfl hperform
    exact reduce_end (k := .fim) h rfl hc

end Survey

end Mgol
