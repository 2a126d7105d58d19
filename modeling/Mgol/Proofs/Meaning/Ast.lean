import Mgol.Proofs.Meaning.Machine
import Mgol.Proofs.Scanner.Spelling

/-! # Programs as trees

A program of MGol as a tree, the words it is written with, and what it does when it runs.

* **`Ast.Operand`, `Ast.Expression`, `Ast.Comparison`, `Ast.Command`, `Ast.Block`,
  `Ast.Declaration`, `Ast.Program`** — the parts of a program.
* **`Ast.Program.words`, `Ast.Program.eq_of_words`** — the words that a program is written with,
  which tell it apart from other programs.
* **`Ast.Block.run`, `Ast.Program.run`** — what a program does. -/

namespace Mgol.Ast

open Machine

/-! ## The parts of a program -/

/-- **A name**: it begins with a letter. -/
structure Name where
  text : String
  letter : beginsWith Char.isAlpha text = true

/-- **A number**: it begins with a digit. -/
structure Numeral where
  text : String
  digit : beginsWith Char.isDigit text = true

/-- The arithmetic operators. -/
inductive Arithmetic where
  | plus
  | minus
  | times
  | divide
  deriving DecidableEq

/-- How an arithmetic operator is spelled. -/
def Arithmetic.spelling : Arithmetic → String
  | plus => "+"
  | minus => "-"
  | times => "*"
  | divide => "/"

/-- The operators that compare. -/
inductive Comparator where
  | less
  | lessEqual
  | different
  | greater
  | greaterEqual
  | equal
  deriving DecidableEq

/-- How an operator that compares is spelled. -/
def Comparator.spelling : Comparator → String
  | less => "<"
  | lessEqual => "<="
  | different => "<>"
  | greater => ">"
  | greaterEqual => ">="
  | equal => "="

/-- **An operand** is a variable or a number. -/
inductive Operand where
  | name (x : Name)
  | number (n : Numeral)

/-- **An expression** has one operand, or two and an operator between them. -/
inductive Expression where
  | operand (e : Operand)
  | operation (left : Operand) (operator : Arithmetic) (right : Operand)

/-- **A comparison** of two operands. -/
structure Comparison where
  left : Operand
  operator : Comparator
  right : Operand

/-- **What can be written out**: a text, or the value of an operand. -/
inductive Argument where
  | text (body : List Char)
  | operand (e : Operand)

/-- **A command** reads a variable, writes something out or gives a variable a value. -/
inductive Command where
  | read (name : Name)
  | write (argument : Argument)
  | assign (name : Name) (value : Expression)

/-- **A sequence of commands, conditionals and loops.** -/
inductive Block where
  | done
  | command (c : Command) (next : Block)
  | conditional (test : Comparison) (body next : Block)
  | loop (test : Comparison) (body next : Block)

/-- **A declaration** of one or more names of a type. -/
structure Declaration where
  type : DataType
  names : List Name
  typed : type ≠ .untyped
  named : names ≠ []

/-- **A program**: its declarations, and what it does. -/
structure Program where
  declarations : List Declaration
  main : Block

/-! ## Words -/

/-- A word of the source, without its type. -/
abbrev Word := TokenClass × String

/-- The word of a reserved word. -/
def reserved (word : Keyword) : Word := (.keyword word, word.spelling)

/-- The word behind a command or a declaration. -/
def semicolon : Word := (.semicolon, ";")

/-- The word of a name. -/
def Name.word (x : Name) : Word := (.identifier, x.text)

/-- The word of an operand. -/
def Operand.word : Operand → Word
  | name x => x.word
  | number n => (.number, n.text)

/-- The words of an expression. -/
def Expression.words : Expression → List Word
  | operand e => [e.word]
  | operation left operator right => [left.word, (.arithmetic, operator.spelling), right.word]

/-- The words of a comparison. -/
def Comparison.words (t : Comparison) : List Word :=
  [t.left.word, (.relational, t.operator.spelling), t.right.word]

/-- The word of what is written out; a text stands in quotes. -/
def Argument.word : Argument → Word
  | text body => (.literal, String.ofList ('"' :: body ++ ['"']))
  | operand e => e.word

/-- The words of a command. -/
def Command.words : Command → List Word
  | read x => [reserved .leia, x.word, semicolon]
  | write argument => [reserved .escreva, argument.word, semicolon]
  | assign x value => x.word :: (.assignment, "<-") :: value.words ++ [semicolon]

/-- The words before the body of a conditional. -/
def conditionalHead (t : Comparison) : List Word :=
  reserved .se :: (.openParen, "(") :: t.words ++ [(.closeParen, ")"), reserved .entao]

/-- The words before the body of a loop. -/
def loopHead (t : Comparison) : List Word :=
  reserved .repita :: (.openParen, "(") :: t.words ++ [(.closeParen, ")")]

/-- The words of a block. -/
def Block.words : Block → List Word
  | done => []
  | command c next => c.words ++ next.words
  | conditional t body next => conditionalHead t ++ (body.words ++ reserved .fimse :: next.words)
  | loop t body next => loopHead t ++ (body.words ++ reserved .fimrepita :: next.words)

/-- The word of a type. -/
def typeWord : DataType → Word
  | .integer => reserved .inteiro
  | .real => reserved .real
  | .literal => reserved .literal
  | .untyped => (.nonterminal, "")

/-- The words of names with commas between them. -/
def nameWords : List Name → List Word
  | [] => []
  | [x] => [x.word]
  | x :: rest => x.word :: (.comma, ",") :: nameWords rest

/-- The words of a declaration. -/
def Declaration.words (d : Declaration) : List Word :=
  typeWord d.type :: nameWords d.names ++ [semicolon]

/-- **The words that a program is written with.** -/
def Program.words (p : Program) : List Word :=
  reserved .inicio :: reserved .varinicio :: p.declarations.flatMap Declaration.words
    ++ reserved .varfim :: semicolon :: p.main.words ++ [reserved .fim]

/-! ## Words tell programs apart -/

/-- Arithmetic operators are spelled differently. -/
theorem Arithmetic.eq_of_spelling {a b : Arithmetic} (h : a.spelling = b.spelling) : a = b := by
  cases a <;> cases b <;> first | rfl | exact absurd h (by decide)

/-- Operators that compare are spelled differently. -/
theorem Comparator.eq_of_spelling {a b : Comparator} (h : a.spelling = b.spelling) : a = b := by
  cases a <;> cases b <;> first | rfl | exact absurd h (by decide)

/-- Names are told apart by their texts. -/
theorem Name.eq_of_text {x y : Name} (h : x.text = y.text) : x = y := by
  cases x
  cases y
  cases h
  rfl

/-- Numbers are told apart by their texts. -/
theorem Numeral.eq_of_text {m n : Numeral} (h : m.text = n.text) : m = n := by
  cases m
  cases n
  cases h
  rfl

/-- Operands are told apart by their words. -/
theorem Operand.eq_of_word {e e' : Operand} (h : e.word = e'.word) : e = e' := by
  cases e with
  | name x =>
    cases e' with
    | name y => rw [Name.eq_of_text (Prod.mk.inj h).2]
    | number n => cases (Prod.mk.inj h).1
  | number m =>
    cases e' with
    | name y => cases (Prod.mk.inj h).1
    | number n => rw [Numeral.eq_of_text (Prod.mk.inj h).2]

/-- Arguments are told apart by their words. -/
theorem Argument.eq_of_word {a a' : Argument} (h : a.word = a'.word) : a = a' := by
  have hkind : ∀ e : Operand, e.word.1 ≠ .literal := by
    intro e
    cases e <;> simp [Operand.word, Name.word]
  cases a with
  | text body =>
    cases a' with
    | text body' =>
      have htext := congrArg String.toList (Prod.mk.inj h).2
      rw [String.toList_ofList, String.toList_ofList] at htext
      rw [List.append_cancel_right (List.cons.inj htext).2]
    | operand e => exact absurd (Prod.ext_iff.mp h).1.symm (hkind e)
  | operand e =>
    cases a' with
    | text body' => exact absurd (Prod.ext_iff.mp h).1 (hkind e)
    | operand e' => rw [Operand.eq_of_word h]

/-- Expressions in front of a semicolon are told apart by their words. -/
theorem Expression.eq_of_words {e e' : Expression} {rest rest' : List Word}
    (h : e.words ++ semicolon :: rest = e'.words ++ semicolon :: rest') :
    e = e' ∧ rest = rest' := by
  cases e with
  | operand e =>
    cases e' with
    | operand e' =>
      simp only [words, List.cons_append, List.nil_append, List.cons.injEq] at h
      exact ⟨by rw [Operand.eq_of_word h.1], h.2.2⟩
    | operation l op r => simp [words, semicolon] at h
  | operation l op r =>
    cases e' with
    | operand e' => simp [words, semicolon] at h
    | operation l' op' r' =>
      simp only [words, List.cons_append, List.nil_append, List.cons.injEq, Prod.mk.injEq] at h
      obtain ⟨hl, ⟨_, hop⟩, hr, _, hrest⟩ := h
      exact ⟨by rw [Operand.eq_of_word hl, Arithmetic.eq_of_spelling hop, Operand.eq_of_word hr],
        hrest⟩

/-- Comparisons are told apart by their words. -/
theorem Comparison.eq_of_words {t t' : Comparison} {rest rest' : List Word}
    (h : t.words ++ rest = t'.words ++ rest') : t = t' ∧ rest = rest' := by
  cases t
  cases t'
  simp only [words, List.cons_append, List.nil_append, List.cons.injEq, Prod.mk.injEq] at h
  obtain ⟨hl, ⟨_, hop⟩, hr, hrest⟩ := h
  rw [Operand.eq_of_word hl, Comparator.eq_of_spelling hop, Operand.eq_of_word hr]
  exact ⟨rfl, hrest⟩

/-- Commands are told apart by their words. -/
theorem Command.eq_of_words {c c' : Command} {rest rest' : List Word}
    (h : c.words ++ rest = c'.words ++ rest') : c = c' ∧ rest = rest' := by
  cases c with
  | read x =>
    cases c' with
    | read y =>
      simp only [words, List.cons_append, List.nil_append, List.cons.injEq] at h
      obtain ⟨_, hx, _, hrest⟩ := h
      rw [Name.eq_of_text (Prod.mk.inj hx).2]
      exact ⟨rfl, hrest⟩
    | write a => simp [words, reserved] at h
    | assign y e => simp [words, reserved, Name.word] at h
  | write a =>
    cases c' with
    | read y => simp [words, reserved] at h
    | write a' =>
      simp only [words, List.cons_append, List.nil_append, List.cons.injEq] at h
      obtain ⟨_, ha, _, hrest⟩ := h
      rw [Argument.eq_of_word ha]
      exact ⟨rfl, hrest⟩
    | assign y e => simp [words, reserved, Name.word] at h
  | assign x e =>
    cases c' with
    | read y => simp [words, reserved, Name.word] at h
    | write a => simp [words, reserved, Name.word] at h
    | assign y e' =>
      simp only [words, List.cons_append, List.append_assoc, List.nil_append, List.cons.injEq] at h
      obtain ⟨hx, _, htail⟩ := h
      obtain ⟨he, hrest⟩ := Expression.eq_of_words htail
      rw [Name.eq_of_text (Prod.mk.inj hx).2, he]
      exact ⟨rfl, hrest⟩

/-- The class of the first word of a command. -/
def Command.first : Command → TokenClass
  | read _ => .keyword .leia
  | write _ => .keyword .escreva
  | assign _ _ => .identifier

/-- The class of the first word of a block with a reserved word behind it. -/
def Block.first (stop : Keyword) : Block → TokenClass
  | done => .keyword stop
  | command c _ => c.first
  | conditional _ _ _ => .keyword .se
  | loop _ _ _ => .keyword .repita

/-- The reserved words that stand behind a block. -/
def closers : List Keyword := [.fim, .fimse, .fimrepita]

/-- A reserved word begins no command, unless it is one of two. -/
theorem Command.first_ne (c : Command) {word : Keyword} (hread : word ≠ .leia)
    (hwrite : word ≠ .escreva) : c.first ≠ .keyword word := by
  cases c with
  | read x => simpa [first] using hread.symm
  | write a => simpa [first] using hwrite.symm
  | assign x e => simp [first]

/-- The same words begin with the same word. -/
theorem Block.first_of_words {b b' : Block} {stop : Keyword} {rest rest' : List Word}
    (h : b.words ++ reserved stop :: rest = b'.words ++ reserved stop :: rest') :
    b.first stop = b'.first stop := by
  have hfirst : ∀ (b : Block) (rest : List Word),
      (b.words ++ reserved stop :: rest).head?.map Prod.fst = some (b.first stop) := by
    intro b rest
    cases b with
    | done => rfl
    | command c next => cases c <;> rfl
    | conditional t body next => rfl
    | loop t body next => rfl
  -- the first words are equal, and so are their classes
  have hhead := congrArg (fun words => words.head?.map Prod.fst) h
  simp only [hfirst] at hhead
  exact Option.some.inj hhead

/-- **Blocks are told apart by their words**, also when more stands behind the word that closes
them. -/
theorem Block.eq_of_words {b b' : Block} {stop : Keyword} (hstop : stop ∈ closers)
    {rest rest' : List Word}
    (h : b.words ++ reserved stop :: rest = b'.words ++ reserved stop :: rest') :
    b = b' ∧ rest = rest' := by
  induction b generalizing b' stop rest rest' with
  | done =>
    have hfirst := first_of_words h
    cases b' with
    | done => exact ⟨rfl, (List.cons.inj h).2⟩
    | command c next =>
      refine absurd hfirst.symm (c.first_ne ?_ ?_) <;> (rintro rfl; simp [closers] at hstop)
    | conditional t body next =>
      cases TokenClass.keyword.inj hfirst
      simp [closers] at hstop
    | loop t body next =>
      cases TokenClass.keyword.inj hfirst
      simp [closers] at hstop
  | command c next ih =>
    have hfirst := first_of_words h
    cases b' with
    | done =>
      refine absurd hfirst (c.first_ne ?_ ?_) <;> (rintro rfl; simp [closers] at hstop)
    | command c' next' =>
      rw [words, words, List.append_assoc, List.append_assoc] at h
      obtain ⟨rfl, htail⟩ := Command.eq_of_words h
      obtain ⟨rfl, hrest⟩ := ih hstop htail
      exact ⟨rfl, hrest⟩
    | conditional t body next => exact absurd hfirst (c.first_ne (by decide) (by decide))
    | loop t body next => exact absurd hfirst (c.first_ne (by decide) (by decide))
  | conditional t body next ihbody ihnext =>
    have hfirst := first_of_words h
    cases b' with
    | done =>
      cases TokenClass.keyword.inj hfirst
      simp [closers] at hstop
    | command c next => exact absurd hfirst.symm (c.first_ne (by decide) (by decide))
    | conditional t' body' next' =>
      simp only [words, conditionalHead, List.cons_append, List.append_assoc, List.nil_append,
        List.cons.injEq, true_and] at h
      obtain ⟨rfl, htail⟩ := Comparison.eq_of_words h
      -- the body ends at its own word, whatever closes the block around it
      obtain ⟨rfl, hafter⟩ := ihbody (by decide) (List.cons.inj (List.cons.inj htail).2).2
      obtain ⟨rfl, hrest⟩ := ihnext hstop hafter
      exact ⟨rfl, hrest⟩
    | loop t' body' next' => cases TokenClass.keyword.inj hfirst
  | loop t body next ihbody ihnext =>
    have hfirst := first_of_words h
    cases b' with
    | done =>
      cases TokenClass.keyword.inj hfirst
      simp [closers] at hstop
    | command c next => exact absurd hfirst.symm (c.first_ne (by decide) (by decide))
    | conditional t' body' next' => cases TokenClass.keyword.inj hfirst
    | loop t' body' next' =>
      simp only [words, loopHead, List.cons_append, List.append_assoc, List.nil_append,
        List.cons.injEq, true_and] at h
      obtain ⟨rfl, htail⟩ := Comparison.eq_of_words h
      obtain ⟨rfl, hafter⟩ := ihbody (by decide) (List.cons.inj htail).2
      obtain ⟨rfl, hrest⟩ := ihnext hstop hafter
      exact ⟨rfl, hrest⟩

/-- Lists of names are told apart by their words. -/
theorem eq_of_nameWords {xs ys : List Name} {rest rest' : List Word}
    (h : nameWords xs ++ semicolon :: rest = nameWords ys ++ semicolon :: rest') :
    xs = ys ∧ rest = rest' := by
  induction xs using nameWords.induct generalizing ys with
  | case1 =>
    match ys with
    | [] => exact ⟨rfl, (List.cons.inj h).2⟩
    | [y] => simp [nameWords, semicolon, Name.word] at h
    | y :: z :: ys => simp [nameWords, semicolon, Name.word] at h
  | case2 x =>
    match ys with
    | [] => simp [nameWords, semicolon, Name.word] at h
    | [y] =>
      obtain ⟨hx, htail⟩ := List.cons.inj h
      rw [Name.eq_of_text (Prod.mk.inj hx).2]
      exact ⟨rfl, (List.cons.inj htail).2⟩
    | y :: z :: ys => simp [nameWords, semicolon] at h
  | case3 x xs hmore ih =>
    rw [nameWords] at h
    · match ys with
      | [] => simp [nameWords, semicolon, Name.word] at h
      | [y] => simp [nameWords, semicolon] at h
      | y :: z :: ys =>
        obtain ⟨hx, htail⟩ := List.cons.inj h
        obtain ⟨hxs, hrest⟩ := ih (List.cons.inj htail).2
        rw [Name.eq_of_text (Prod.mk.inj hx).2, hxs]
        exact ⟨rfl, hrest⟩
    · exact hmore

/-- Types are told apart by their words. -/
theorem eq_of_typeWord {a b : DataType} (h : typeWord a = typeWord b) : a = b := by
  cases a <;> cases b <;> first | rfl | exact absurd h (by decide)

/-- Declarations are told apart by their words. -/
theorem Declaration.eq_of_words {d d' : Declaration} {rest rest' : List Word}
    (h : d.words ++ rest = d'.words ++ rest') : d = d' ∧ rest = rest' := by
  cases d
  cases d'
  simp only [words, List.cons_append, List.append_assoc, List.nil_append, List.cons.injEq] at h
  obtain ⟨htype, htail⟩ := h
  cases eq_of_typeWord htype
  obtain ⟨rfl, hrest⟩ := eq_of_nameWords htail
  exact ⟨rfl, hrest⟩

/-- Lists of declarations are told apart by their words. -/
theorem eq_of_declarationWords {ds ds' : List Declaration} {rest rest' : List Word}
    (h : ds.flatMap Declaration.words ++ reserved .varfim :: rest =
      ds'.flatMap Declaration.words ++ reserved .varfim :: rest') : ds = ds' ∧ rest = rest' := by
  -- a declaration begins with its type
  have hfirst : ∀ d : Declaration, typeWord d.type ≠ reserved .varfim := by
    intro d
    cases d.type <;> decide
  induction ds generalizing ds' with
  | nil =>
    cases ds' with
    | nil => exact ⟨rfl, (List.cons.inj h).2⟩
    | cons d' ds' => exact absurd (List.cons.inj h).1.symm (hfirst d')
  | cons d ds ih =>
    cases ds' with
    | nil => exact absurd (List.cons.inj h).1 (hfirst d)
    | cons d' ds' =>
      rw [List.flatMap_cons, List.flatMap_cons, List.append_assoc, List.append_assoc] at h
      obtain ⟨rfl, htail⟩ := Declaration.eq_of_words h
      obtain ⟨rfl, hrest⟩ := ih htail
      exact ⟨rfl, hrest⟩

/-- **Programs are told apart by their words.** -/
theorem Program.eq_of_words {p p' : Program} (h : p.words = p'.words) : p = p' := by
  cases p
  cases p'
  simp only [words, List.cons_append, List.append_assoc, List.cons.injEq, true_and] at h
  obtain ⟨rfl, htail⟩ := eq_of_declarationWords h
  obtain ⟨rfl, _⟩ := Block.eq_of_words (by decide) (List.cons.inj htail).2
  rfl

/-! ## Types -/

/-- The types of names after a declaration. -/
def Declaration.extend (types : String → DataType) (d : Declaration) : String → DataType :=
  fun name => if name ∈ d.names.map Name.text then d.type else types name

/-- **The types that a program declares.** -/
def Program.types (p : Program) : String → DataType :=
  p.declarations.foldl Declaration.extend fun _ => .untyped

/-- **The names that a program declares.** -/
def Program.declared (p : Program) : List String :=
  p.declarations.flatMap fun d => d.names.map Name.text

/-- A name with a type was declared. -/
theorem Program.mem_declared {p : Program} {name : String} (h : p.types name ≠ .untyped) :
    name ∈ p.declared := by
  -- a type was there before or comes from a declaration
  have hgo : ∀ (declarations : List Declaration) (types : String → DataType),
      declarations.foldl Declaration.extend types name ≠ .untyped →
      types name ≠ .untyped ∨ ∃ d ∈ declarations, name ∈ d.names.map Name.text := by
    intro declarations
    induction declarations with
    | nil => exact fun types h => .inl h
    | cons d declarations ih =>
      intro types h
      rcases ih _ h with htyped | ⟨d', hd', hname⟩
      · by_cases hname : name ∈ d.names.map Name.text
        · exact .inr ⟨d, List.mem_cons_self, hname⟩
        · rw [Declaration.extend, if_neg hname] at htyped
          exact .inl htyped
      · exact .inr ⟨d', List.mem_cons_of_mem _ hd', hname⟩
  rcases hgo _ _ h with habsurd | ⟨d, hd, hname⟩
  · exact absurd rfl habsurd
  · exact List.mem_flatMap.mpr ⟨d, hd, hname⟩

/-! ## What programs do -/

section Run

variable {Value Input : Type} (m : Interpretation Value Input) (types : String → DataType)

/-- The value of an operand. -/
def Operand.eval (w : World Value Input) : Operand → Value
  | name x => w.store x.text
  | number n => m.number n.text

/-- The value of an expression. -/
def Expression.eval (w : World Value Input) : Expression → Value
  | operand e => e.eval m w
  | operation left operator right =>
    m.apply operator.spelling (left.eval m w) (right.eval m w)

/-- Whether a comparison holds. -/
def Comparison.holds (t : Comparison) (w : World Value Input) : Bool :=
  m.holds (m.apply t.operator.spelling (t.left.eval m w) (t.right.eval m w))

/-- The type of an operand: a number is real if it has a decimal point. -/
def Operand.type : Operand → DataType
  | name x => types x.text
  | number n => Lexicon.typeOf .number n.text

/-- What a command does. -/
def Command.run (w : World Value Input) : Command → World Value Input
  | read x => w.read m (types x.text) x.text
  | write (.text body) => w.write .literal (m.text body)
  | write (.operand e) => w.write (e.type types) (e.eval m w)
  | assign x value => w.set x.text (value.eval m w)

/-- **What a block does**, with a number of rounds for each loop. A conditional runs its body once if
its comparison holds; a loop runs its body as long as its comparison, which is evaluated before each
round, holds. -/
def Block.run (n : Nat) : Block → World Value Input → Outcome Value Input
  | done, w => .ended w
  | command c next, w => next.run n (c.run m types w)
  | conditional t body next, w =>
    if t.holds m w then (body.run n w).andThen (next.run n) else next.run n w
  | loop t body next, w => (rounds (t.holds m) (body.run n) n w).andThen (next.run n)

/-- **What a program does**, with a number of rounds for each loop. -/
def Program.run (n : Nat) (p : Program) (w : World Value Input) : Outcome Value Input :=
  p.main.run m p.types n w

variable {m types}

/-- More rounds change nothing for a block that has ended. -/
theorem Block.run_ended_of_le {n n' : Nat} (hle : n ≤ n') {b : Block} {w v : World Value Input}
    (h : b.run m types n w = .ended v) : b.run m types n' w = .ended v := by
  induction b generalizing w v with
  | done => exact h
  | command c next ih => exact ih h
  | conditional t body next ihbody ihnext =>
    rw [Block.run] at h ⊢
    by_cases ht : t.holds m w = true
    · rw [if_pos ht, Outcome.andThen_eq_ended_iff] at h ⊢
      obtain ⟨u, hu, hv⟩ := h
      exact ⟨u, ihbody hu, ihnext hv⟩
    · rw [if_neg ht] at h ⊢
      exact ihnext h
  | loop t body next ihbody ihnext =>
    rw [Block.run, Outcome.andThen_eq_ended_iff] at h ⊢
    obtain ⟨u, hu, hv⟩ := h
    exact ⟨u, rounds_ended_of_le (fun _ _ => ihbody) hle hu, ihnext hv⟩

/-- **More rounds change nothing for a program that has ended.** -/
theorem Program.run_ended_of_le {n n' : Nat} (hle : n ≤ n') {p : Program} {w v : World Value Input}
    (h : p.run m n w = .ended v) : p.run m n' w = .ended v :=
  Block.run_ended_of_le hle h

end Run

end Mgol.Ast
