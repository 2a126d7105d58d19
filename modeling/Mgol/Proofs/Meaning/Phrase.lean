import Mgol.Grammar.Mgol
import Mgol.Proofs.Meaning.Draft

/-! # Phrases

What the symbols on the stack of a parser stand for: the words they were read from, the value that
the executor keeps for them, and what was done to the draft on the way.

* **`Meaning`** — what a symbol of the grammar stands for.
* **`Phrases`** — what a sequence of symbols stands for. -/

namespace Mgol

open Target Ast

/-- The class with a terminal. -/
theorem TokenClass.find?_terminal? {k : TokenClass} {a : String} (h : k.terminal? = some a) :
    TokenClass.all.find? (fun c => c.terminal? = some a) = some k := by
  cases k with
  | keyword word =>
    obtain rfl := Option.some.inj h
    cases word <;> decide
  | comment => cases h
  | error => cases h
  | nonterminal => cases h
  | _ =>
    obtain rfl := Option.some.inj h
    decide

/-- Tokens of the same terminal are of the same class. -/
theorem Token.kind_of_terminalName {t : Token} {k : TokenClass} {a : String}
    (hk : k.terminal? = some a) (ha : a ≠ "") (h : t.terminalName = a) : t.kind = k := by
  unfold Token.terminalName at h
  cases hkind : t.kind.terminal? with
  | none =>
    rw [hkind] at h
    exact absurd h.symm ha
  | some b =>
    rw [hkind, Option.getD_some] at h
    subst h
    have := TokenClass.find?_terminal? hkind
    rw [TokenClass.find?_terminal? hk] at this
    exact (Option.some.inj this).symm

/-- How the tokens of a class are spelled, if they all are spelled alike. -/
def TokenClass.spelling? : TokenClass → Option String
  | assignment => some "<-"
  | openParen => some "("
  | closeParen => some ")"
  | semicolon => some ";"
  | comma => some ","
  | keyword word => some word.spelling
  | _ => none

/-- A well spelled token of such a class. -/
theorem Token.Spelled.lexeme_eq {t : Token} (h : t.Spelled) {spelling : String}
    (hspelling : t.kind.spelling? = some spelling) : t.lexeme = spelling := by
  unfold Token.Spelled at h
  generalize t.kind = kind at h hspelling
  cases kind with
  | assignment | openParen | closeParen | semicolon | comma | keyword =>
    rw [← Option.some.inj hspelling]
    exact h
  | _ => cases hspelling

/-- What a symbol may stand for: the words it was read from, its value, and the drafts before and
after it. -/
abbrev Reading := List Word → Token → Draft → Draft → Prop

/-! ## Tokens -/

/-- A terminal stands for a token. -/
def IsToken (a : GrammarSymbol) : Reading := fun words v d d' =>
  v.terminalName = a ∧ v.Spelled ∧ words = [v.word] ∧ d' = d

namespace IsToken

variable {words : List Word} {v : Token} {d d' : Draft}

/-- A token of a class that has one spelling. -/
theorem fixed {a : GrammarSymbol} (h : IsToken a words v d d') (k : TokenClass) {lexeme : String}
    (hspelling : k.spelling? = some lexeme) (hk : k.terminal? = some a) (ha : a ≠ "") :
    words = [(k, lexeme)] ∧ d' = d := by
  obtain ⟨hname, hv, rfl, rfl⟩ := h
  have hkind := Token.kind_of_terminalName hk ha hname
  have hlexeme := hv.lexeme_eq (by rw [hkind]; exact hspelling)
  rw [Token.word, hkind, hlexeme]
  exact ⟨rfl, rfl⟩

/-- A reserved word. -/
theorem reserved (word : Keyword) (h : IsToken word.spelling words v d d') :
    words = [Ast.reserved word] ∧ d' = d :=
  h.fixed (.keyword word) rfl rfl (by cases word <;> decide)

/-- A semicolon. -/
theorem semicolon (h : IsToken "pt_v" words v d d') : words = [Ast.semicolon] ∧ d' = d :=
  h.fixed .semicolon rfl rfl (by decide)

/-- A name. -/
theorem name (h : IsToken "id" words v d d') :
    ∃ x : Name, v.lexeme = x.text ∧ words = [x.word] ∧ d' = d := by
  obtain ⟨hname, hv, rfl, rfl⟩ := h
  have hkind : v.kind = .identifier := Token.kind_of_terminalName rfl (by decide) hname
  unfold Token.Spelled at hv
  rw [hkind] at hv
  refine ⟨⟨v.lexeme, hv⟩, rfl, ?_, rfl⟩
  rw [Token.word, hkind]
  rfl

/-- A number. -/
theorem number (h : IsToken "num" words v d d') :
    ∃ n : Numeral, v.lexeme = n.text ∧ v.type = Lexicon.typeOf .number n.text ∧
      words = [(.number, n.text)] ∧ d' = d := by
  obtain ⟨hname, hv, rfl, rfl⟩ := h
  have hkind : v.kind = .number := Token.kind_of_terminalName rfl (by decide) hname
  unfold Token.Spelled at hv
  rw [hkind] at hv
  refine ⟨⟨v.lexeme, hv.1⟩, rfl, hv.2, ?_, rfl⟩
  rw [Token.word, hkind]

/-- An arithmetic operator. -/
theorem arithmetic (h : IsToken "opm" words v d d') :
    ∃ a : Arithmetic, v.lexeme = a.spelling ∧ words = [(.arithmetic, a.spelling)] ∧ d' = d := by
  obtain ⟨hname, hv, rfl, rfl⟩ := h
  have hkind : v.kind = .arithmetic := Token.kind_of_terminalName rfl (by decide) hname
  unfold Token.Spelled at hv
  rw [hkind] at hv
  obtain ⟨a, ha⟩ : ∃ a : Arithmetic, v.lexeme = a.spelling := by
    simp only [List.mem_cons, List.not_mem_nil, or_false] at hv
    rcases hv with h | h | h | h
    · exact ⟨.plus, h⟩
    · exact ⟨.minus, h⟩
    · exact ⟨.times, h⟩
    · exact ⟨.divide, h⟩
  exact ⟨a, ha, by rw [Token.word, hkind, ha], rfl⟩

/-- An operator that compares. -/
theorem relation (h : IsToken "opr" words v d d') :
    ∃ r : Comparator, v.lexeme = r.spelling ∧ words = [(.relational, r.spelling)] ∧ d' = d := by
  obtain ⟨hname, hv, rfl, rfl⟩ := h
  have hkind : v.kind = .relational := Token.kind_of_terminalName rfl (by decide) hname
  unfold Token.Spelled at hv
  rw [hkind] at hv
  obtain ⟨r, hr⟩ : ∃ r : Comparator, v.lexeme = r.spelling := by
    simp only [List.mem_cons, List.not_mem_nil, or_false] at hv
    rcases hv with h | h | h | h | h | h
    · exact ⟨.less, h⟩
    · exact ⟨.lessEqual, h⟩
    · exact ⟨.different, h⟩
    · exact ⟨.greater, h⟩
    · exact ⟨.greaterEqual, h⟩
    · exact ⟨.equal, h⟩
  exact ⟨r, hr, by rw [Token.word, hkind, hr], rfl⟩

end IsToken

/-! ## What the symbols of the grammar stand for -/

/-- A type. -/
def IsType : Reading := fun words v d d' =>
  v.type ≠ .untyped ∧ words = [typeWord v.type] ∧ d' = { d with pendingType := v.type }

/-- Names in a declaration, which get its type. -/
def IsNames : Reading := fun words _ d d' =>
  ∃ names : List Name, names ≠ [] ∧ words = nameWords names ∧
    (d.pendingType ≠ .untyped → d' = { d with
      types := fun name =>
        if name ∈ names.map Name.text then d.pendingType else d.types name
      pendingNames := names.map Name.text ++ d.pendingNames })

/-- A declaration. -/
def IsDeclaration : Reading := fun words _ d d' =>
  ∃ declaration : Declaration, words = declaration.words ∧
    (d.pendingNames = [] → d' = d.declare declaration)

/-- The declarations of a program up to their end, behind some words. -/
def IsDeclarations (front : List Word) : Reading := fun words _ d d' =>
  ∃ declarations : List Declaration,
    words = front ++ (declarations.flatMap Declaration.words ++ [reserved .varfim, semicolon]) ∧
      (d.pendingNames = [] → d' = declarations.foldl Draft.declare d)

/-- What can be written out. -/
def IsArgument : Reading := fun words v d d' =>
  (v.kind = .literal ∨ v.kind = .number ∨ v.kind = .identifier) ∧ v.Spelled ∧
    words = [v.word] ∧ d' = d

/-- An operand, whose value has its type. -/
def IsOperand : Reading := fun words v d d' =>
  ∃ e : Operand, words = [e.word] ∧ v.lexeme = e.text ∧ v.type = e.type d.types ∧
    e.Declared d.types ∧ d' = d

/-- An expression, whose value is computed. -/
def IsExpression : Reading := fun words v d d' =>
  ∃ e : Expression, words = e.words ∧ v.lexeme = e.result d.temporaries ∧ v.type ≠ .untyped ∧
    e.Declared d.types ∧
    d' = (d.write ((e.statements d.temporaries).map .statement)).reserve e.temporaries

/-- A comparison, which is computed and remembered. -/
def IsComparison : Reading := fun words v d d' =>
  ∃ t : Comparison, words = t.words ∧ v.lexeme = temporaryName d.temporaries ∧
    t.Declared d.types ∧
    d' = { (d.write [.statement (t.statement d.temporaries)]).reserve 1 with
      lastRelational := some (t.statement d.temporaries) }

/-- **A block** in front of the words that end it. -/
def IsBlock (stop : List Word) : Reading := fun words _ d d' =>
  ∃ b : Block, words = b.words ++ stop ∧ b.Declared d.types ∧
    d.Grows (b.lines d.types d.temporaries) b.temporaries d'

/-- The head of a conditional, whose block is open. -/
def IsConditionalHead : Reading := fun words _ d d' =>
  ∃ t : Comparison, words = conditionalHead t ∧ t.Declared d.types ∧
    d.Grows [.statement (t.statement d.temporaries),
      .opening (.ifHolds (temporaryName d.temporaries))] 1 d'

/-- The head of a loop, whose block is open and whose comparison is kept for its end. -/
def IsLoopHead : Reading := fun words _ d d' =>
  ∃ t : Comparison, words = loopHead t ∧ t.Declared d.types ∧
    d' = { (d.write [.statement (t.statement d.temporaries),
        .opening (.whileHolds (temporaryName d.temporaries))]).reserve 1 with
      lastRelational := none
      openLoops := some (t.statement d.temporaries) :: d.openLoops }

/-- The draft that nothing was written into. -/
def Draft.blank : Draft := ⟨[], 0, fun _ => .untyped, .untyped, [], none, []⟩

/-- **A program**, whose lines are written into a blank draft. -/
def IsProgram : Reading := fun words _ d d' =>
  ∃ program : Program, words = program.words ∧
    (d = .blank → program.main.Declared program.types ∧ d'.lines = program.lines ∧
      d'.types = program.types)

/-- **What a symbol of the grammar stands for.** -/
def Meaning (a : GrammarSymbol) : Reading :=
  match a with
  | "P" => IsProgram
  | "V" => IsDeclarations [reserved .varinicio]
  | "LV" => IsDeclarations []
  | "D" => IsDeclaration
  | "L" => IsNames
  | "TIPO" => IsType
  | "A" => IsBlock [reserved .fim]
  | "ES" => IsBlock []
  | "ARG" => IsArgument
  | "CMD" => IsBlock []
  | "LD" => IsExpression
  | "OPRD" => IsOperand
  | "COND" => IsBlock []
  | "CAB" => IsConditionalHead
  | "EXP_R" => IsComparison
  | "CP" => IsBlock [reserved .fimse]
  | "R" => IsBlock []
  | "CABR" => IsLoopHead
  | "CPR" => IsBlock [reserved .fimrepita]
  | _ => IsToken a

/-- **What a sequence of symbols stands for**, from left to right. -/
inductive Phrases : List GrammarSymbol → List Word → List (Spanned Token) → Draft → Draft → Prop
  | nil {d : Draft} : Phrases [] [] [] d d
  | cons {a : GrammarSymbol} {symbols : List GrammarSymbol} {words rest : List Word}
      {v : Spanned Token} {values : List (Spanned Token)} {d d' d'' : Draft}
      (head : Meaning a words v.value d d') (tail : Phrases symbols rest values d' d'') :
      Phrases (a :: symbols) (words ++ rest) (v :: values) d d''

namespace Phrases

/-- Two sequences, one after the other. -/
theorem append {u u' : List GrammarSymbol} {words words' : List Word}
    {values values' : List (Spanned Token)} {d d' d'' : Draft} (h : Phrases u words values d d')
    (h' : Phrases u' words' values' d' d'') :
    Phrases (u ++ u') (words ++ words') (values ++ values') d d'' := by
  induction h with
  | nil => exact h'
  | cons head _ ih =>
    rw [List.append_assoc]
    exact .cons head (ih h')

/-- A sequence in two parts. -/
theorem split {u u' : List GrammarSymbol} {words : List Word} {values values' : List (Spanned Token)}
    {d d'' : Draft} (h : Phrases (u ++ u') words (values ++ values') d d'')
    (hlength : u.length = values.length) :
    ∃ front back d', words = front ++ back ∧ Phrases u front values d d' ∧
      Phrases u' back values' d' d'' := by
  induction u generalizing words values d with
  | nil =>
    obtain rfl := List.length_eq_zero_iff.mp hlength.symm
    exact ⟨[], words, d, rfl, .nil, h⟩
  | cons a u ih =>
    cases values with
    | nil => cases hlength
    | cons v values =>
      cases h with
      | cons head tail =>
        obtain ⟨front, back, d', rfl, hu, hu'⟩ := ih tail (by simpa using hlength)
        exact ⟨_, back, d', (List.append_assoc _ _ _).symm, .cons head hu, hu'⟩

variable {a b e f g : GrammarSymbol} {words : List Word} {values : List (Spanned Token)}
  {d d' : Draft}

/-- A sequence of one symbol. -/
theorem one (h : Phrases [a] words values d d') :
    ∃ v, values = [v] ∧ Meaning a words v.value d d' := by
  cases h with
  | cons head tail =>
    cases tail
    rw [List.append_nil]
    exact ⟨_, rfl, head⟩

/-- A sequence of two symbols. -/
theorem two (h : Phrases [a, b] words values d d') :
    ∃ x y v w d₁, words = x ++ y ∧ values = [v, w] ∧ Meaning a x v.value d d₁ ∧
      Meaning b y w.value d₁ d' := by
  cases h with
  | cons head tail =>
    obtain ⟨w, rfl, hb⟩ := tail.one
    exact ⟨_, _, _, w, _, rfl, rfl, head, hb⟩

/-- A sequence of three symbols. -/
theorem three (h : Phrases [a, b, e] words values d d') :
    ∃ x y z v w u d₁ d₂, words = x ++ (y ++ z) ∧ values = [v, w, u] ∧
      Meaning a x v.value d d₁ ∧ Meaning b y w.value d₁ d₂ ∧ Meaning e z u.value d₂ d' := by
  cases h with
  | cons head tail =>
    obtain ⟨y, z, w, u, d₂, rfl, rfl, hb, he⟩ := tail.two
    exact ⟨_, y, z, _, w, u, _, d₂, rfl, rfl, head, hb, he⟩

/-- A sequence of four symbols. -/
theorem four (h : Phrases [a, b, e, f] words values d d') :
    ∃ x y z s v w u t d₁ d₂ d₃, words = x ++ (y ++ (z ++ s)) ∧ values = [v, w, u, t] ∧
      Meaning a x v.value d d₁ ∧ Meaning b y w.value d₁ d₂ ∧ Meaning e z u.value d₂ d₃ ∧
      Meaning f s t.value d₃ d' := by
  cases h with
  | cons head tail =>
    obtain ⟨y, z, s, w, u, t, d₂, d₃, rfl, rfl, hb, he, hf⟩ := tail.three
    exact ⟨_, y, z, s, _, w, u, t, _, d₂, d₃, rfl, rfl, head, hb, he, hf⟩

/-- A sequence of five symbols. -/
theorem five (h : Phrases [a, b, e, f, g] words values d d') :
    ∃ x y z s r v w u t q d₁ d₂ d₃ d₄, words = x ++ (y ++ (z ++ (s ++ r))) ∧
      values = [v, w, u, t, q] ∧ Meaning a x v.value d d₁ ∧ Meaning b y w.value d₁ d₂ ∧
      Meaning e z u.value d₂ d₃ ∧ Meaning f s t.value d₃ d₄ ∧ Meaning g r q.value d₄ d' := by
  cases h with
  | cons head tail =>
    obtain ⟨y, z, s, r, w, u, t, q, d₂, d₃, d₄, rfl, rfl, hb, he, hf, hg⟩ := tail.four
    exact ⟨_, y, z, s, r, _, w, u, t, q, _, d₂, d₃, d₄, rfl, rfl, head, hb, he, hf, hg⟩

end Phrases

end Mgol
