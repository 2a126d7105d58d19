import Mgol.Proofs.Typing.Survey

/-! # What symbols add to a survey

What the symbols on the stack of a parser stand for, if something may be wrong with the types: the
part of the program that they were read from, and the faults that were found in it.

* **`Survey.Account`** — what a symbol of the grammar adds to a survey.
* **`Surveyed`** — what a sequence of symbols adds to it. -/

namespace Mgol

open Ast

namespace Survey

/-- What a symbol may add to a survey: its value, and the surveys before and after it. -/
abbrev Addition := Spanned Token → Survey → Survey → Prop

variable (place : Nat → Option Position)

/-! ## What the symbols of the grammar add -/

/-- A terminal adds its word. -/
def OfToken (a : GrammarSymbol) : Addition := fun v s s' =>
  v.value.terminalName = a ∧ v.value.Spelled ∧ place s.read.length = some v.span.start ∧
    s' = s.note [v.value.word] []

/-- A type begins a declaration. -/
def OfType : Addition := fun v s s' =>
  v.value.type ≠ .untyped ∧
    s' = { s.note [typeWord v.value.type] [] with pendingType := v.value.type }

/-- Names in a declaration are declared. -/
def OfNames : Addition := fun _ s s' =>
  ∃ names : List Name, names ≠ [] ∧
    s' = { (nameEntries s.read.length names).foldl (enter s.pendingType) s with
      read := s.read ++ nameWords names }

/-- A declaration. -/
def OfDeclaration : Addition := fun _ s s' => ∃ d : Declaration, s' = s.declare d

/-- The declarations of a program up to their end, behind some words. -/
def OfDeclarations (front : List Word) : Addition := fun _ s s' =>
  ∃ declarations : List Declaration,
    s' = (declarations.foldl declare (s.note front [])).note [reserved .varfim, semicolon] []

/-- What can be written out, before it is known to be declared. -/
def OfArgument : Addition := fun v s s' =>
  (v.value.kind = .literal ∨ v.value.kind = .number ∨ v.value.kind = .identifier) ∧
    v.value.Spelled ∧ place s.read.length = some v.span.start ∧ s' = s.note [v.value.word] []

/-- An operand adds its faults, and its value has its type. -/
def OfOperand : Addition := fun v s s' =>
  ∃ e : Operand, place s.read.length = some v.span.start ∧ v.value.type = e.type s.types ∧
    s' = s.note [e.word] (e.faults s.types s.read.length)

/-- An expression adds its faults, and its value has its type. -/
def OfExpression : Addition := fun v s s' =>
  ∃ e : Expression, v.value.type = e.type s.types ∧
    s' = s.note e.words (e.faults s.types s.read.length)

/-- A comparison adds its faults. -/
def OfComparison : Addition := fun _ s s' =>
  ∃ t : Comparison, s' = s.note t.words (t.faults s.types s.read.length)

/-- **A block adds its faults**; it stands in front of the words that end it. -/
def OfBlock (stop : List Word) : Addition := fun _ s s' =>
  ∃ b : Block, s' = s.note (b.words ++ stop) (b.faults s.types s.read.length)

/-- The words in front of a body add the faults of their comparison. -/
def OfHead (head : Comparison → List Word) : Addition := fun _ s s' =>
  ∃ t : Comparison, s' = s.note (head t) (t.faults s.types (s.read.length + 2))

/-- **A program adds its faults** to a blank survey. -/
def OfProgram : Addition := fun _ s s' =>
  ∃ program : Program, s'.read = s.read ++ program.words ∧
    (s = blank → s'.found = program.faults)

/-- **What a symbol of the grammar adds to a survey.** -/
def Account (a : GrammarSymbol) : Addition :=
  match a with
  | "P" => OfProgram
  | "V" => OfDeclarations [reserved .varinicio]
  | "LV" => OfDeclarations []
  | "D" => OfDeclaration
  | "L" => OfNames
  | "TIPO" => OfType
  | "A" => OfBlock [reserved .fim]
  | "ES" => OfBlock []
  | "ARG" => OfArgument place
  | "CMD" => OfBlock []
  | "LD" => OfExpression
  | "OPRD" => OfOperand place
  | "COND" => OfBlock []
  | "CAB" => OfHead conditionalHead
  | "EXP_R" => OfComparison
  | "CP" => OfBlock [reserved .fimse]
  | "R" => OfBlock []
  | "CABR" => OfHead loopHead
  | "CPR" => OfBlock [reserved .fimrepita]
  | _ => OfToken place a

/-- A terminal adds its word. -/
theorem account_terminal (t : Token) :
    Account place t.terminalName = OfToken place t.terminalName := by
  unfold Token.terminalName
  cases t.kind with
  | keyword word => cases word <;> rfl
  | _ => rfl

end Survey

/-- **What a sequence of symbols adds to a survey**, from left to right. -/
inductive Surveyed (place : Nat → Option Position) :
    List GrammarSymbol → List (Spanned Token) → Survey → Survey → Prop
  | nil {s : Survey} : Surveyed place [] [] s s
  | cons {a : GrammarSymbol} {symbols : List GrammarSymbol} {v : Spanned Token}
      {values : List (Spanned Token)} {s s' s'' : Survey} (head : Survey.Account place a v s s')
      (tail : Surveyed place symbols values s' s'') :
      Surveyed place (a :: symbols) (v :: values) s s''

namespace Surveyed

variable {place : Nat → Option Position}

/-- Two sequences, one after the other. -/
theorem append {u u' : List GrammarSymbol} {values values' : List (Spanned Token)}
    {s s' s'' : Survey} (h : Surveyed place u values s s') (h' : Surveyed place u' values' s' s'') :
    Surveyed place (u ++ u') (values ++ values') s s'' := by
  induction h with
  | nil => exact h'
  | cons head _ ih => exact .cons head (ih h')

/-- A sequence in two parts. -/
theorem split {u u' : List GrammarSymbol} {values values' : List (Spanned Token)} {s s'' : Survey}
    (h : Surveyed place (u ++ u') (values ++ values') s s'') (hlength : u.length = values.length) :
    ∃ s', Surveyed place u values s s' ∧ Surveyed place u' values' s' s'' := by
  induction u generalizing values s with
  | nil =>
    obtain rfl := List.length_eq_zero_iff.mp hlength.symm
    exact ⟨s, .nil, h⟩
  | cons a u ih =>
    cases values with
    | nil => cases hlength
    | cons v values =>
      cases h with
      | cons head tail =>
        obtain ⟨s', hu, hu'⟩ := ih tail (by simpa using hlength)
        exact ⟨s', .cons head hu, hu'⟩

variable {a b e f g : GrammarSymbol} {values : List (Spanned Token)} {s s' : Survey}

/-- A sequence of one symbol. -/
theorem one (h : Surveyed place [a] values s s') :
    ∃ v, values = [v] ∧ Survey.Account place a v s s' := by
  obtain _ | ⟨head, _ | _⟩ := h
  exact ⟨_, rfl, head⟩

/-- A sequence of two symbols. -/
theorem two (h : Surveyed place [a, b] values s s') :
    ∃ v w s₁, values = [v, w] ∧ Survey.Account place a v s s₁ ∧
      Survey.Account place b w s₁ s' := by
  obtain _ | ⟨head, tail⟩ := h
  obtain ⟨w, rfl, hb⟩ := tail.one
  exact ⟨_, w, _, rfl, head, hb⟩

/-- A sequence of three symbols. -/
theorem three (h : Surveyed place [a, b, e] values s s') :
    ∃ v w u s₁ s₂, values = [v, w, u] ∧ Survey.Account place a v s s₁ ∧
      Survey.Account place b w s₁ s₂ ∧ Survey.Account place e u s₂ s' := by
  obtain _ | ⟨head, tail⟩ := h
  obtain ⟨w, u, s₂, rfl, hb, he⟩ := tail.two
  exact ⟨_, w, u, _, s₂, rfl, head, hb, he⟩

/-- A sequence of four symbols. -/
theorem four (h : Surveyed place [a, b, e, f] values s s') :
    ∃ v w u t s₁ s₂ s₃, values = [v, w, u, t] ∧ Survey.Account place a v s s₁ ∧
      Survey.Account place b w s₁ s₂ ∧ Survey.Account place e u s₂ s₃ ∧
      Survey.Account place f t s₃ s' := by
  obtain _ | ⟨head, tail⟩ := h
  obtain ⟨w, u, t, s₂, s₃, rfl, hb, he, hf⟩ := tail.three
  exact ⟨_, w, u, t, _, s₂, s₃, rfl, head, hb, he, hf⟩

/-- A sequence of five symbols. -/
theorem five (h : Surveyed place [a, b, e, f, g] values s s') :
    ∃ v w u t q s₁ s₂ s₃ s₄, values = [v, w, u, t, q] ∧ Survey.Account place a v s s₁ ∧
      Survey.Account place b w s₁ s₂ ∧ Survey.Account place e u s₂ s₃ ∧
      Survey.Account place f t s₃ s₄ ∧ Survey.Account place g q s₄ s' := by
  obtain _ | ⟨head, tail⟩ := h
  obtain ⟨w, u, t, q, s₂, s₃, s₄, rfl, hb, he, hf, hg⟩ := tail.four
  exact ⟨_, w, u, t, q, _, s₂, s₃, s₄, rfl, head, hb, he, hf, hg⟩

end Surveyed

namespace Survey

variable {place : Nat → Option Position} {v : Spanned Token} {s s' : Survey}

/-! ## Tokens -/

namespace OfToken

variable {a : GrammarSymbol}

/-- The token of a terminal. -/
theorem isToken (h : OfToken place a v s s') (d : Draft) :
    IsToken a [v.value.word] v.value d d := ⟨h.1, h.2.1, rfl, rfl⟩

/-- A token of a class that has one spelling. -/
theorem fixed (h : OfToken place a v s s') (k : TokenClass) {lexeme : String}
    (hspelling : k.spelling? = some lexeme) (hk : k.terminal? = some a) (ha : a ≠ "") :
    s' = s.note [(k, lexeme)] [] := by
  have hword := ((h.isToken .blank).fixed k hspelling hk ha).1
  rw [← hword]
  exact h.2.2.2

/-- A reserved word. -/
theorem reserved (word : Keyword) (h : OfToken place word.spelling v s s') :
    s' = s.note [Ast.reserved word] [] :=
  h.fixed (.keyword word) rfl rfl (by cases word <;> decide)

/-- A semicolon. -/
theorem semicolon (h : OfToken place "pt_v" v s s') : s' = s.note [Ast.semicolon] [] :=
  h.fixed .semicolon rfl rfl (by decide)

/-- A name. -/
theorem name (h : OfToken place "id" v s s') :
    ∃ x : Name, v.value.lexeme = x.text ∧ place s.read.length = some v.span.start ∧
      s' = s.note [x.word] [] := by
  obtain ⟨x, hx, hword, _⟩ := (h.isToken .blank).name
  refine ⟨x, hx, h.2.2.1, ?_⟩
  rw [← hword]
  exact h.2.2.2

/-- An arithmetic operator. -/
theorem arithmetic (h : OfToken place "opm" v s s') :
    ∃ a : Arithmetic, v.value.lexeme = a.spelling ∧
      s' = s.note [(.arithmetic, a.spelling)] [] := by
  obtain ⟨a, ha, hword, _⟩ := (h.isToken .blank).arithmetic
  refine ⟨a, ha, ?_⟩
  rw [← hword]
  exact h.2.2.2

/-- An operator that compares. -/
theorem relation (h : OfToken place "opr" v s s') :
    ∃ r : Comparator, v.value.lexeme = r.spelling ∧
      s' = s.note [(.relational, r.spelling)] [] := by
  obtain ⟨r, hr, hword, _⟩ := (h.isToken .blank).relation
  refine ⟨r, hr, ?_⟩
  rw [← hword]
  exact h.2.2.2

end OfToken

end Survey

end Mgol
