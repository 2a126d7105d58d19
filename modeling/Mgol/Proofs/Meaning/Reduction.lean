import Mgol.Proofs.Meaning.Phrase

/-! # Reductions of phrases

A reduction puts the phrases of a right side together into the phrase of its left side, and the
action of its rule does to the draft what that phrase says.

* **`reduce_declaration`, `reduce_assignment`, `reduce_loop`, …** — the rules of MGol.
* **`Meaning.reduce`** — all of them. -/

namespace Mgol

open Target Ast SemanticAction

variable {rule : Rule} {p : Position} {c c' : ActionContext} {v : Token} {words : List Word}
  {values : List (Spanned Token)} {d : Draft}

/-! ## Declarations -/

/-- A type keyword is a type. -/
theorem reduce_type {k : Keyword} (h : Phrases [k.spelling] words values d c.draft)
    (hword : Meaning k.spelling = IsToken k.spelling)
    (htype : keywordType (.keyword k) ≠ .untyped)
    (htypeWord : typeWord (keywordType (.keyword k)) = reserved k)
    (hperform : declaredType ⟨rule, values, p⟩ c = (.ok v, c')) : IsType words v d c'.draft := by
  obtain ⟨v₀, rfl, htoken⟩ := h.one
  rw [hword] at htoken
  obtain ⟨hv, hdraft⟩ := draft_declaredType hperform
  have hkind : v₀.value.kind = .keyword k :=
    Token.kind_of_terminalName rfl (by cases k <;> decide) htoken.1
  obtain ⟨rfl, hsame⟩ := htoken.reserved
  rw [hkind] at hv hdraft
  rw [hsame] at hdraft
  refine ⟨by rw [hv]; exact htype, by rw [hv, htypeWord], by rw [hdraft, hv]⟩

/-- The last name of a declaration gets its type. -/
theorem reduce_lastName (h : Phrases ["id"] words values d c.draft)
    (hperform : declareIdentifier ⟨rule, values, p⟩ c = (.ok v, c'))
    (hclean : c'.work.errorCount = 0) : IsNames words v d c'.draft := by
  obtain ⟨v₀, rfl, hid⟩ := h.one
  obtain ⟨x, hx, rfl, hsame⟩ := IsToken.name hid
  refine ⟨[x], by simp, rfl, fun htype => ?_⟩
  rw [← hsame] at htype ⊢
  rw [draft_declareIdentifier hperform hclean htype, hx]
  simp

/-- A name in a declaration gets its type after those behind it. -/
theorem reduce_name (h : Phrases ["id", "vir", "L"] words values d c.draft)
    (hperform : declareIdentifier ⟨rule, values, p⟩ c = (.ok v, c'))
    (hclean : c'.work.errorCount = 0) : IsNames words v d c'.draft := by
  obtain ⟨_, _, _, v₀, v₁, v₂, _, _, rfl, rfl, hid, hcomma, names, hne, rfl, hnames⟩ := h.three
  obtain ⟨x, hx, rfl, rfl⟩ := IsToken.name hid
  obtain ⟨rfl, rfl⟩ := IsToken.fixed hcomma .comma rfl rfl (by decide)
  refine ⟨x :: names, by simp, ?_, fun htype => ?_⟩
  · cases names with
    | nil => exact absurd rfl hne
    | cons y names => rfl
  · have hdraft := hnames htype
    -- the type was read before the names, and no name changes it
    have htype' : c.draft.pendingType ≠ .untyped := by
      rw [hdraft]
      exact htype
    rw [draft_declareIdentifier hperform hclean htype', hdraft, hx]
    simp only [List.map_cons, List.mem_cons, List.cons_append]
    congr 1
    funext name
    by_cases heq : name = x.text
    · simp [heq]
    · simp [heq]

/-- **A declaration is written.** -/
theorem reduce_declaration (h : Phrases ["TIPO", "L", "pt_v"] words values d c.draft)
    (hperform : declaration ⟨rule, values, p⟩ c = (.ok v, c')) :
    IsDeclaration words v d c'.draft := by
  obtain ⟨_, _, _, v₀, v₁, v₂, _, _, rfl, rfl, ⟨htype, rfl, rfl⟩, ⟨names, hne, rfl, hnames⟩,
    hsemicolon⟩ := h.three
  obtain ⟨rfl, hsame⟩ := IsToken.semicolon hsemicolon
  refine ⟨⟨v₀.value.type, names, htype, hne⟩, ?_, fun hpending => ?_⟩
  · simp [Declaration.words]
  · have hdraft := hnames htype
    rw [← hsame] at hdraft
    have hpendingNames : c.draft.pendingNames = names.map Name.text := by
      rw [hdraft]
      simp [hpending]
    rw [draft_declaration hperform htype (by rw [hpendingNames]; simpa using hne), hpendingNames,
      hdraft]
    rfl

/-- The end of the declarations. -/
theorem reduce_noDeclarations {d' : Draft} (h : Phrases ["varfim", "pt_v"] words values d d') :
    IsDeclarations [] words v d d' := by
  obtain ⟨_, _, v₀, v₁, _, rfl, rfl, hend, hsemicolon⟩ := h.two
  obtain ⟨rfl, rfl⟩ := IsToken.reserved .varfim hend
  obtain ⟨rfl, rfl⟩ := IsToken.semicolon hsemicolon
  exact ⟨[], rfl, fun _ => rfl⟩

/-- A declaration in front of others. -/
theorem reduce_declarations {d' : Draft} (h : Phrases ["D", "LV"] words values d d') :
    IsDeclarations [] words v d d' := by
  obtain ⟨_, _, v₀, v₁, d₁, rfl, rfl, ⟨declaration, rfl, hfirst⟩, ⟨declarations, rfl, hrest⟩⟩ :=
    h.two
  refine ⟨declaration :: declarations, ?_, fun hpending => ?_⟩
  · simp
  · obtain rfl := hfirst hpending
    exact hrest rfl

/-- The declarations behind their first word. -/
theorem reduce_allDeclarations {d' : Draft} (h : Phrases ["varinicio", "LV"] words values d d') :
    IsDeclarations [reserved .varinicio] words v d d' := by
  obtain ⟨_, _, v₀, v₁, _, rfl, rfl, hbegin, ⟨declarations, rfl, hdeclarations⟩⟩ := h.two
  obtain ⟨rfl, rfl⟩ := IsToken.reserved .varinicio hbegin
  exact ⟨declarations, rfl, hdeclarations⟩

/-! ## Expressions -/

/-- A name as an operand. -/
theorem reduce_nameOperand (h : Phrases ["id"] words values d c.draft)
    (hperform : identifierOperand ⟨rule, values, p⟩ c = (.ok v, c'))
    (hclean : c'.work.errorCount = 0) : IsOperand words v d c'.draft := by
  obtain ⟨v₀, rfl, hid⟩ := h.one
  obtain ⟨x, hx, rfl, hsame⟩ := IsToken.name hid
  obtain ⟨hlexeme, htype, htyped, hdraft⟩ := draft_identifierOperand hperform hclean
  rw [hsame] at htype htyped hdraft
  rw [hx] at hlexeme htype htyped
  exact ⟨.name x, rfl, hlexeme, htype, htyped, hdraft⟩

/-- A number as an operand. -/
theorem reduce_numberOperand (h : Phrases ["num"] words values d c.draft)
    (hperform : operandValue ⟨rule, values, p⟩ c = (.ok v, c')) : IsOperand words v d c'.draft := by
  obtain ⟨v₀, rfl, hnumber⟩ := h.one
  obtain ⟨n, hn, htype, rfl, hsame⟩ := IsToken.number hnumber
  obtain ⟨hlexeme, htype', hdraft⟩ := draft_operandValue hperform
  exact ⟨.number n, rfl, hlexeme.trans hn, htype'.trans htype, trivial, hdraft.trans hsame⟩

/-- An operand as an expression. -/
theorem reduce_operand (h : Phrases ["OPRD"] words values d c.draft)
    (hperform : operandValue ⟨rule, values, p⟩ c = (.ok v, c')) :
    IsExpression words v d c'.draft := by
  obtain ⟨v₀, rfl, ⟨e, rfl, he, htyped, hdeclared, hsame⟩⟩ := h.one
  obtain ⟨hlexeme, htype, hdraft⟩ := draft_operandValue hperform
  refine ⟨.operand e, rfl, hlexeme.trans he, ?_, hdeclared, ?_⟩
  · rw [htype, htyped]
    exact Operand.type_ne_untyped hdeclared
  · rw [hdraft, hsame]
    simp [Expression.statements, Expression.temporaries, Draft.write, Draft.reserve]

/-- **An operation is computed.** -/
theorem reduce_operation (h : Phrases ["OPRD", "opm", "OPRD"] words values d c.draft)
    (hperform : arithmetic ⟨rule, values, p⟩ c = (.ok v, c')) (hclean : c'.work.errorCount = 0) :
    IsExpression words v d c'.draft := by
  obtain ⟨_, _, _, v₀, v₁, v₂, _, _, rfl, rfl, ⟨left, rfl, hleft, htyped, hdeclared, rfl⟩, hop,
    ⟨right, rfl, hright, htyped', hdeclared', hsame⟩⟩ := h.three
  obtain ⟨a, ha, rfl, rfl⟩ := IsToken.arithmetic hop
  obtain ⟨hlexeme, htype, hdraft⟩ := draft_arithmetic hperform hclean
    (by rw [htyped]; exact Operand.type_ne_untyped hdeclared)
    (by rw [htyped']; exact Operand.type_ne_untyped hdeclared')
  rw [hsame, hleft, ha, hright] at hdraft
  rw [hsame] at hlexeme
  exact ⟨.operation left a right, rfl, hlexeme, htype, ⟨hdeclared, hdeclared'⟩, hdraft⟩

/-- **A comparison is computed.** -/
theorem reduce_comparison (h : Phrases ["OPRD", "opr", "OPRD"] words values d c.draft)
    (hperform : relational ⟨rule, values, p⟩ c = (.ok v, c')) (hclean : c'.work.errorCount = 0) :
    IsComparison words v d c'.draft := by
  obtain ⟨_, _, _, v₀, v₁, v₂, _, _, rfl, rfl, ⟨left, rfl, hleft, htyped, hdeclared, rfl⟩, hop,
    ⟨right, rfl, hright, htyped', hdeclared', hsame⟩⟩ := h.three
  obtain ⟨r, hr, rfl, rfl⟩ := IsToken.relation hop
  obtain ⟨hlexeme, hdraft⟩ := draft_relational hperform hclean
    (by rw [htyped]; exact Operand.type_ne_untyped hdeclared)
    (by rw [htyped']; exact Operand.type_ne_untyped hdeclared')
    (Comparison.statement c.draft.temporaries ⟨left, r, right⟩)
    (by rw [Comparison.statement, hleft, hr, hright])
  rw [hsame] at hdraft hlexeme
  exact ⟨⟨left, r, right⟩, rfl, hlexeme, ⟨hdeclared, hdeclared'⟩, hdraft⟩

/-! ## Commands -/

/-- One command is a block. -/
theorem IsBlock.of_command {c : Command} {d' : Draft} (hdeclared : c.Declared d.types)
    (hdraft : d' = (d.write ((c.statements d.types d.temporaries).map .statement)).reserve
      c.temporaries) : IsBlock [] c.words v d d' := by
  refine ⟨.command c .done, by simp [Block.words], ⟨hdeclared, trivial⟩, d.lastRelational, ?_⟩
  rw [hdraft]
  simp [Block.lines, Block.temporaries, Draft.write, Draft.reserve]

/-- **A variable is read.** -/
theorem reduce_read (h : Phrases ["leia", "id", "pt_v"] words values d c.draft)
    (hperform : readStatement ⟨rule, values, p⟩ c = (.ok v, c'))
    (hclean : c'.work.errorCount = 0) : IsBlock [] words v d c'.draft := by
  obtain ⟨_, _, _, v₀, v₁, v₂, _, _, rfl, rfl, hread, hid, hsemicolon⟩ := h.three
  obtain ⟨rfl, rfl⟩ := IsToken.reserved .leia hread
  obtain ⟨x, hx, rfl, rfl⟩ := IsToken.name hid
  obtain ⟨rfl, hsame⟩ := IsToken.semicolon hsemicolon
  obtain ⟨htyped, hdraft⟩ := draft_readStatement hperform hclean
  rw [hsame, hx] at htyped hdraft
  exact .of_command (c := .read x) htyped hdraft

/-- A text, a number or a name is an argument. -/
theorem reduce_argument {a : GrammarSymbol} {d' : Draft} (h : Phrases [a] words values d d')
    (ha : Meaning a = IsToken a) (hcases : a = "lit" ∨ a = "num" ∨ a = "id") :
    ∃ v₀, values = [v₀] ∧ IsArgument words v₀.value d d' := by
  obtain ⟨v₀, rfl, htoken⟩ := h.one
  rw [ha] at htoken
  obtain ⟨hname, hspelled, rfl, rfl⟩ := htoken
  refine ⟨v₀, rfl, ?_, hspelled, rfl, rfl⟩
  rcases hcases with rfl | rfl | rfl
  · exact .inl (Token.kind_of_terminalName rfl (by decide) hname)
  · exact .inr (.inl (Token.kind_of_terminalName rfl (by decide) hname))
  · exact .inr (.inr (Token.kind_of_terminalName rfl (by decide) hname))

/-- **An argument is written out.** -/
theorem reduce_write (h : Phrases ["escreva", "ARG", "pt_v"] words values d c.draft)
    (hperform : writeStatement ⟨rule, values, p⟩ c = (.ok v, c'))
    (hclean : c'.work.errorCount = 0) : IsBlock [] words v d c'.draft := by
  obtain ⟨_, _, _, v₀, v₁, v₂, _, _, rfl, rfl, hwrite, ⟨hkind, hspelled, rfl, rfl⟩, hsemicolon⟩ :=
    h.three
  obtain ⟨rfl, rfl⟩ := IsToken.reserved .escreva hwrite
  obtain ⟨rfl, hsame⟩ := IsToken.semicolon hsemicolon
  unfold Token.Spelled at hspelled
  -- a text, a number or a name is written out
  rcases hkind with hkind | hkind | hkind
  · rw [hkind] at hspelled
    obtain ⟨body, hbody⟩ := hspelled
    have hdraft := draft_writeStatement_text hperform hkind
    rw [hsame, hbody] at hdraft
    have hword : v₁.value.word = (Argument.text body).word := by
      rw [Token.word, hkind, hbody]
      rfl
    rw [hword]
    exact .of_command (c := .write (.text body)) trivial hdraft
  · rw [hkind] at hspelled
    obtain ⟨hdigit, htype⟩ := hspelled
    have hdraft := draft_writeStatement_number hperform hkind
      (by rw [htype]; exact typeOf_number_ne_untyped _)
    rw [hsame, htype] at hdraft
    have hword : v₁.value.word = (Argument.operand (.number ⟨v₁.value.lexeme, hdigit⟩)).word := by
      rw [Token.word, hkind]
      rfl
    rw [hword]
    exact .of_command (c := .write (.operand (.number ⟨v₁.value.lexeme, hdigit⟩))) trivial
      hdraft
  · rw [hkind] at hspelled
    obtain ⟨htyped, hdraft⟩ := draft_writeStatement_name hperform hclean hkind
    rw [hsame] at htyped hdraft
    have hword : v₁.value.word = (Argument.operand (.name ⟨v₁.value.lexeme, hspelled⟩)).word := by
      rw [Token.word, hkind]
      rfl
    rw [hword]
    exact .of_command (c := .write (.operand (.name ⟨v₁.value.lexeme, hspelled⟩))) htyped
      hdraft

/-- **A variable gets a value.** -/
theorem reduce_assignment (h : Phrases ["id", "rcb", "LD", "pt_v"] words values d c.draft)
    (hperform : assignment ⟨rule, values, p⟩ c = (.ok v, c'))
    (hclean : c'.work.errorCount = 0) : IsBlock [] words v d c'.draft := by
  obtain ⟨_, _, _, _, v₀, v₁, v₂, v₃, _, _, _, rfl, rfl, hid, harrow,
    ⟨e, rfl, he, htyped, hdeclared, rfl⟩, hsemicolon⟩ := h.four
  obtain ⟨x, hx, rfl, rfl⟩ := IsToken.name hid
  obtain ⟨rfl, rfl⟩ := IsToken.fixed harrow .assignment rfl rfl (by decide)
  obtain ⟨rfl, hsame⟩ := IsToken.semicolon hsemicolon
  obtain ⟨hvariable, hdraft⟩ := draft_assignment hperform hclean htyped
  rw [hsame, hx] at hvariable hdraft
  rw [he] at hdraft
  refine .of_command (c := .assign x e) ⟨hvariable, hdeclared⟩ ?_
  rw [hdraft, Command.statements, List.map_append]
  simp only [Draft.write, Draft.reserve, List.append_assoc]
  rfl

/-! ## Blocks -/

/-- **A part of a block in front of the rest.** -/
theorem IsBlock.append {front back stop : List Word} {v₀ v₁ : Token} {d₁ d₂ : Draft}
    (h : IsBlock [] front v₀ d d₁) (h' : IsBlock stop back v₁ d₁ d₂) :
    IsBlock stop (front ++ back) v d d₂ := by
  obtain ⟨a, rfl, hdeclared, hgrows⟩ := h
  obtain ⟨b, rfl, hdeclared', hgrows'⟩ := h'
  -- the second part begins with the types and the temporaries that the first one left
  rw [hgrows.types_eq] at hdeclared' hgrows'
  rw [hgrows.temporaries_eq] at hgrows'
  refine ⟨a.append b, ?_, Block.declared_append hdeclared hdeclared', ?_⟩
  · rw [Block.words_append, List.append_nil, List.append_assoc]
  · rw [Block.lines_append, Block.temporaries_append]
    exact hgrows.trans hgrows'

/-- The end of a block. -/
theorem reduce_end {k : Keyword} {d' : Draft} (h : Phrases [k.spelling] words values d d')
    (hword : Meaning k.spelling = IsToken k.spelling) :
    IsBlock [reserved k] words v d d' := by
  obtain ⟨v₀, rfl, htoken⟩ := h.one
  rw [hword] at htoken
  obtain ⟨rfl, rfl⟩ := htoken.reserved
  exact ⟨.done, rfl, trivial, .refl _⟩

/-- A part of a block in front of the rest, by the symbols that stand for them. -/
theorem reduce_part {a b : GrammarSymbol} {stop : List Word} {d' : Draft}
    (h : Phrases [a, b] words values d d') (ha : Meaning a = IsBlock [])
    (hb : Meaning b = IsBlock stop) : IsBlock stop words v d d' := by
  obtain ⟨_, _, v₀, v₁, _, rfl, rfl, hfront, hback⟩ := h.two
  rw [ha] at hfront
  rw [hb] at hback
  exact hfront.append hback

/-- The head of a conditional. -/
theorem reduce_conditionalHead
    (h : Phrases ["se", "ab_p", "EXP_R", "fc_p", "entao"] words values d c.draft)
    (hperform : openConditional ⟨rule, values, p⟩ c = (.ok v, c')) :
    IsConditionalHead words v d c'.draft := by
  obtain ⟨_, _, _, _, _, v₀, v₁, v₂, v₃, v₄, _, d₂, _, _, rfl, rfl, hif, hopen,
    ⟨t, rfl, ht, hdeclared, rfl⟩, hclose, hthen⟩ := h.five
  obtain ⟨rfl, rfl⟩ := IsToken.reserved .se hif
  obtain ⟨rfl, rfl⟩ := IsToken.fixed hopen .openParen rfl rfl (by decide)
  obtain ⟨rfl, rfl⟩ := IsToken.fixed hclose .closeParen rfl rfl (by decide)
  obtain ⟨rfl, hsame⟩ := IsToken.reserved .entao hthen
  refine ⟨t, rfl, hdeclared, ?_⟩
  rw [draft_openConditional hperform, hsame, ht]
  refine ⟨some (t.statement d₂.temporaries), ?_⟩
  simp [Draft.write, Draft.reserve]

/-- **A conditional closes.** -/
theorem reduce_conditional (h : Phrases ["CAB", "CP"] words values d c.draft)
    (hperform : closeConditional ⟨rule, values, p⟩ c = (.ok v, c')) :
    IsBlock [] words v d c'.draft := by
  obtain ⟨_, _, v₀, v₁, _, rfl, rfl, ⟨t, rfl, ht, hhead⟩, ⟨body, rfl, hbody, hgrows⟩⟩ := h.two
  rw [hhead.types_eq, hhead.temporaries_eq] at hgrows
  rw [hhead.types_eq] at hbody
  -- the body was written behind the head
  obtain ⟨latest, hdraft⟩ := hhead.trans hgrows
  refine ⟨.conditional t body .done, by simp [Block.words], ⟨ht, hbody, trivial⟩, latest, ?_⟩
  rw [draft_closeConditional hperform, hdraft]
  simp [Block.lines, Block.temporaries, Draft.write, Draft.reserve]

/-- The head of a loop. -/
theorem reduce_loopHead (h : Phrases ["repita", "ab_p", "EXP_R", "fc_p"] words values d c.draft)
    (hperform : openLoop ⟨rule, values, p⟩ c = (.ok v, c')) : IsLoopHead words v d c'.draft := by
  obtain ⟨_, _, _, _, v₀, v₁, v₂, v₃, _, _, _, rfl, rfl, hrepeat, hopen,
    ⟨t, rfl, ht, hdeclared, rfl⟩, hclose⟩ := h.four
  obtain ⟨rfl, rfl⟩ := IsToken.reserved .repita hrepeat
  obtain ⟨rfl, rfl⟩ := IsToken.fixed hopen .openParen rfl rfl (by decide)
  obtain ⟨rfl, hsame⟩ := IsToken.fixed hclose .closeParen rfl rfl (by decide)
  refine ⟨t, rfl, hdeclared, ?_⟩
  rw [draft_openLoop hperform, hsame, ht]
  simp [Draft.write, Draft.reserve]

/-- **A loop closes** with the comparison that was kept for its end. -/
theorem reduce_loop (h : Phrases ["CABR", "CPR"] words values d c.draft)
    (hperform : closeLoop ⟨rule, values, p⟩ c = (.ok v, c')) : IsBlock [] words v d c'.draft := by
  obtain ⟨_, _, v₀, v₁, _, rfl, rfl, ⟨t, rfl, ht, rfl⟩, ⟨body, rfl, hbody, latest, hdraft⟩⟩ := h.two
  -- the loops of the body are closed again, so that of the head is the innermost open one
  have hloops : c.draft.openLoops = some (t.statement d.temporaries) :: d.openLoops := by
    rw [hdraft]
    rfl
  refine ⟨.loop t body .done, by simp [Block.words], ⟨ht, hbody, trivial⟩, latest, ?_⟩
  rw [draft_closeLoop hperform hloops, hdraft]
  simp [Block.lines, Block.temporaries, Draft.write, Draft.reserve, Nat.add_assoc]

/-! ## Programs -/

/-- Declarations give the names their types and write their lines. -/
theorem foldl_declare (declarations : List Declaration) (d : Draft) :
    (declarations.foldl Draft.declare d).types = declarations.foldl Declaration.extend d.types ∧
      (declarations.foldl Draft.declare d).lines =
        d.lines ++ declarations.map Declaration.line ∧
      (declarations.foldl Draft.declare d).temporaries = d.temporaries := by
  induction declarations generalizing d with
  | nil => simp
  | cons declaration declarations ih =>
    obtain ⟨htypes, hlines, htemporaries⟩ := ih (d.declare declaration)
    refine ⟨htypes, ?_, htemporaries⟩
    rw [List.foldl_cons, hlines]
    simp [Draft.declare, Draft.write]

/-- **A program is written into a blank draft.** -/
theorem reduce_program {d' : Draft} (h : Phrases ["inicio", "V", "A"] words values d d') :
    IsProgram words v d d' := by
  obtain ⟨_, _, _, v₀, v₁, v₂, _, _, rfl, rfl, hbegin, ⟨declarations, rfl, hdeclarations⟩,
    ⟨main, rfl, hmain, hgrows⟩⟩ := h.three
  obtain ⟨rfl, rfl⟩ := IsToken.reserved .inicio hbegin
  refine ⟨⟨declarations, main⟩, by simp [Program.words], ?_⟩
  rintro rfl
  -- all names have their types before the block begins
  obtain rfl := hdeclarations rfl
  obtain ⟨htypes, hlines, htemporaries⟩ := foldl_declare declarations .blank
  rw [htypes, htemporaries] at hgrows
  rw [htypes] at hmain
  obtain ⟨latest, rfl⟩ := hgrows
  refine ⟨hmain, ?_, htypes⟩
  simp only [Draft.reserve, Draft.write, hlines]
  rfl

/-- A rule without an action leaves the context alone. -/
theorem perform_none {actions : Nat → Option SemanticAction} (hnone : actions rule.number = none)
    (h : Executor.perform actions ⟨rule, values, p⟩ c = (.ok v, c')) : c' = c := by
  unfold Executor.perform at h
  simp only [hnone] at h
  exact (Prod.mk.inj h).2.symm

/-- An argument is handed on. -/
theorem reduce_passThrough {a : GrammarSymbol} (h : Phrases [a] words values d c.draft)
    (ha : Meaning a = IsToken a) (hcases : a = "lit" ∨ a = "num" ∨ a = "id")
    (hperform : passThrough ⟨rule, values, p⟩ c = (.ok v, c')) :
    IsArgument words v d c'.draft := by
  obtain ⟨v₀, rfl, hargument⟩ := reduce_argument h ha hcases
  obtain ⟨hv, rfl⟩ := Prod.mk.inj hperform
  obtain rfl := Except.ok.inj hv
  exact hargument

/-- **Reductions put phrases together.** Without an error, the action of a rule of MGol makes the
phrase of the left side out of the phrases of the right side. -/
theorem Meaning.reduce {r : Rule} (hr : r ∈ RuleSet.mgol.others)
    (h : Phrases r.right words values d c.draft)
    (hperform : Executor.perform mgolActions ⟨r, values, p⟩ c = (.ok v, c'))
    (hclean : c'.work.errorCount = 0) : Meaning r.left words v d c'.draft := by
  simp only [RuleSet.mgol, List.mem_cons, List.not_mem_nil, or_false] at hr
  rcases hr with rfl | rfl | rfl | rfl | rfl | rfl | rfl | rfl | rfl | rfl | rfl | rfl | rfl |
    rfl | rfl | rfl | rfl | rfl | rfl | rfl | rfl | rfl | rfl | rfl | rfl | rfl | rfl | rfl |
    rfl | rfl | rfl | rfl | rfl | rfl | rfl | rfl | rfl | rfl
  -- the program and its declarations
  · obtain rfl := perform_none rfl hperform
    exact reduce_program (v := v) h
  · obtain rfl := perform_none rfl hperform
    exact reduce_allDeclarations (v := v) h
  · obtain rfl := perform_none rfl hperform
    exact reduce_declarations (v := v) h
  · obtain rfl := perform_none rfl hperform
    exact reduce_noDeclarations (v := v) h
  · exact reduce_declaration h hperform
  · exact reduce_name h hperform hclean
  · exact reduce_lastName h hperform hclean
  · exact reduce_type (k := .inteiro) h rfl (by decide) rfl hperform
  · exact reduce_type (k := .real) h rfl (by decide) rfl hperform
  · exact reduce_type (k := .literal) h rfl (by decide) rfl hperform
  -- reading and writing
  · obtain rfl := perform_none rfl hperform
    exact reduce_part (v := v) h rfl rfl
  · exact reduce_read h hperform hclean
  · exact reduce_write h hperform hclean
  · exact reduce_passThrough h rfl (by decide) hperform
  · exact reduce_passThrough h rfl (by decide) hperform
  · exact reduce_passThrough h rfl (by decide) hperform
  -- assignments and expressions
  · obtain rfl := perform_none rfl hperform
    exact reduce_part (v := v) h rfl rfl
  · exact reduce_assignment h hperform hclean
  · exact reduce_operation h hperform hclean
  · exact reduce_operand h hperform
  · exact reduce_nameOperand h hperform hclean
  · exact reduce_numberOperand h hperform
  -- conditionals
  · obtain rfl := perform_none rfl hperform
    exact reduce_part (v := v) h rfl rfl
  · exact reduce_conditional h hperform
  · exact reduce_conditionalHead h hperform
  · exact reduce_comparison h hperform hclean
  · obtain rfl := perform_none rfl hperform
    exact reduce_part (v := v) h rfl rfl
  · obtain rfl := perform_none rfl hperform
    exact reduce_part (v := v) h rfl rfl
  · obtain rfl := perform_none rfl hperform
    exact reduce_part (v := v) h rfl rfl
  · obtain rfl := perform_none rfl hperform
    exact reduce_end (k := .fimse) (v := v) h rfl
  -- loops
  · obtain rfl := perform_none rfl hperform
    exact reduce_part (v := v) h rfl rfl
  · exact reduce_loop h hperform
  · exact reduce_loopHead h hperform
  · obtain rfl := perform_none rfl hperform
    exact reduce_part (v := v) h rfl rfl
  · obtain rfl := perform_none rfl hperform
    exact reduce_part (v := v) h rfl rfl
  · obtain rfl := perform_none rfl hperform
    exact reduce_part (v := v) h rfl rfl
  · obtain rfl := perform_none rfl hperform
    exact reduce_end (k := .fimrepita) (v := v) h rfl
  -- the end of the program
  · obtain rfl := perform_none rfl hperform
    exact reduce_end (k := .fim) (v := v) h rfl

end Mgol
