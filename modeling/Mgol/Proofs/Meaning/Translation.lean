import Mgol.Proofs.Meaning.Body
import Mgol.Proofs.Meaning.Ast
import Mgol.Proofs.Scanner.Spelling
import Mgol.Semantics.Actions

/-! # The translation of programs

The lines that a program is translated into, given the first temporary that is free, and the proof
that they do what the program does.

* **`Ast.Block.lines`, `Ast.Program.lines`** — the lines of a translation.
* **`Ast.Block.readLines_lines`, `Ast.Program.ofLines?_lines`** — they are read as a body.
* **`Ast.Block.run_body`, `Ast.Program.run_body`** — the body does what the program does. -/

namespace Mgol.Ast

open Target Machine

/-! ## The lines of a translation -/

/-- An operand as it is written in C. -/
def Operand.text : Operand → String
  | name x => x.text
  | number n => n.text

/-- The statements that compute an expression. -/
def Expression.statements (k : Nat) : Expression → List Statement
  | operand _ => []
  | operation left operator right =>
    [.compute (temporaryName k) left.text operator.spelling right.text]

/-- What stands for the value of an expression once it is computed. -/
def Expression.result (k : Nat) : Expression → String
  | operand e => e.text
  | operation .. => temporaryName k

/-- How many temporaries an expression needs. -/
def Expression.temporaries : Expression → Nat
  | operand _ => 0
  | operation .. => 1

/-- The statement that computes a comparison. -/
def Comparison.statement (k : Nat) (t : Comparison) : Statement :=
  .compute (temporaryName k) t.left.text (SemanticAction.cRelational t.operator.spelling)
    t.right.text

/-- The statements of a command. -/
def Command.statements (types : String → DataType) (k : Nat) : Command → List Statement
  | read x => [.read (types x.text) x.text]
  | write (.text body) => [.writeText (cLiteral (String.ofList ('"' :: body ++ ['"'])))]
  | write (.operand e) => [.write (e.type types) e.text]
  | assign x value =>
    value.statements k ++
      [if types x.text = .literal then .copy x.text (value.result k)
       else .assign x.text (value.result k)]

/-- How many temporaries a command needs. -/
def Command.temporaries : Command → Nat
  | assign _ value => value.temporaries
  | _ => 0

namespace Block

/-- How many temporaries a block needs. -/
def temporaries : Block → Nat
  | done => 0
  | command c next => c.temporaries + next.temporaries
  | conditional _ body next => 1 + body.temporaries + next.temporaries
  | loop _ body next => 1 + body.temporaries + next.temporaries

/-- **The lines of a block.** A loop computes its comparison once before it and again at its end. -/
def lines (types : String → DataType) : Nat → Block → List LineBody
  | _, done => []
  | k, command c next =>
    (c.statements types k).map .statement ++ next.lines types (k + c.temporaries)
  | k, conditional t body next =>
    [.statement (t.statement k), .opening (.ifHolds (temporaryName k))]
      ++ (body.lines types (k + 1)
        ++ .closing :: next.lines types (k + (1 + body.temporaries)))
  | k, loop t body next =>
    [.statement (t.statement k), .opening (.whileHolds (temporaryName k))]
      ++ (body.lines types (k + 1) ++ .statement (t.statement k)
        :: .closing :: next.lines types (k + (1 + body.temporaries)))

/-- One block after the other. -/
def append : Block → Block → Block
  | done, b => b
  | command c next, b => command c (next.append b)
  | conditional t body next, b => conditional t body (next.append b)
  | loop t body next, b => loop t body (next.append b)

/-- The words of one block after the other. -/
theorem words_append (a b : Block) : (a.append b).words = a.words ++ b.words := by
  induction a with
  | done => rfl
  | command c next ih => simp [append, words, ih]
  | conditional t body next _ ih => simp [append, words, ih]
  | loop t body next _ ih => simp [append, words, ih]

/-- The temporaries of one block after the other. -/
theorem temporaries_append (a b : Block) :
    (a.append b).temporaries = a.temporaries + b.temporaries := by
  induction a with
  | done => simp [append, temporaries]
  | command c next ih => simp only [append, temporaries, ih]; omega
  | conditional t body next _ ih => simp only [append, temporaries, ih]; omega
  | loop t body next _ ih => simp only [append, temporaries, ih]; omega

/-- The lines of one block after the other. -/
theorem lines_append (types : String → DataType) (k : Nat) (a b : Block) :
    (a.append b).lines types k = a.lines types k ++ b.lines types (k + a.temporaries) := by
  induction a generalizing k with
  | done => simp [append, lines, temporaries]
  | command c next ih => simp [append, lines, temporaries, ih, Nat.add_assoc]
  | conditional t body next _ ih => simp [append, lines, temporaries, ih, Nat.add_assoc]
  | loop t body next _ ih => simp [append, lines, temporaries, ih, Nat.add_assoc]

end Block

/-- The line of a declaration. -/
def Declaration.line (d : Declaration) : LineBody :=
  .statement (.declare d.type (d.names.map Name.text))

/-- **The lines of a program.** -/
def Program.lines (p : Program) : List LineBody :=
  p.declarations.map Declaration.line ++ p.main.lines p.types 0

/-! ## The body that the lines are read as -/

/-- The body of a block in front of what comes next. -/
def Block.body (types : String → DataType) : Nat → Block → Body → Body
  | _, done, after => after
  | k, command c next, after =>
    (c.statements types k).foldr Body.statement (next.body types (k + c.temporaries) after)
  | k, conditional t body next, after =>
    .statement (t.statement k)
      (.block (.ifHolds (temporaryName k)) (body.body types (k + 1) .done)
        (next.body types (k + (1 + body.temporaries)) after))
  | k, loop t body next, after =>
    .statement (t.statement k)
      (.block (.whileHolds (temporaryName k))
        (body.body types (k + 1) (.statement (t.statement k) .done))
        (next.body types (k + (1 + body.temporaries)) after))

/-- No statement of a command is of unknown meaning. -/
theorem Command.statements_ne_verbatim {types : String → DataType} {k : Nat} {c : Command}
    {s : Statement} (hs : s ∈ c.statements types k) (text : String) : s ≠ .verbatim text := by
  rintro rfl
  match c with
  | .read x => simp [statements] at hs
  | .write (.text body) => simp [statements] at hs
  | .write (.operand e) => simp [statements] at hs
  | .assign x (.operand e) =>
    simp only [statements, Expression.statements, List.nil_append, List.mem_singleton] at hs
    split at hs <;> cases hs
  | .assign x (.operation l op r) =>
    simp only [statements, Expression.statements, List.singleton_append, List.mem_cons,
      List.not_mem_nil, or_false, reduceCtorEq, false_or] at hs
    split at hs <;> cases hs

/-- Statements are read one by one. -/
theorem readLines_statements {statements : List Statement}
    (h : ∀ s ∈ statements, ∀ text, s ≠ .verbatim text) (after : Body) (outer : List Body) :
    Body.readLines (statements.map .statement) (after :: outer) =
      some (statements.foldr Body.statement after :: outer) := by
  induction statements with
  | nil => rfl
  | cons s statements ih =>
    rw [List.map_cons, Body.readLines_cons, ih fun s' hs' => h s' (List.mem_cons_of_mem _ hs'),
      Option.bind_some]
    cases s with
    | verbatim text => exact absurd rfl (h _ List.mem_cons_self text)
    | _ => rfl

/-- **The lines of a block are read as its body.** -/
theorem Block.readLines_lines (types : String → DataType) (k : Nat) (b : Block) (after : Body)
    (outer : List Body) :
    Body.readLines (b.lines types k) (after :: outer) =
      some (b.body types k after :: outer) := by
  induction b generalizing k after outer with
  | done => rfl
  | command c next ih =>
    rw [lines, Body.readLines_append, ih, Option.bind_some]
    exact readLines_statements (fun s hs => Command.statements_ne_verbatim hs) _ _
  | conditional t body next ihbody ihnext =>
    -- read from the back: what follows, the closing brace, the body and the header
    rw [lines, Body.readLines_append, Body.readLines_append, Body.readLines_cons, ihnext]
    simp only [Option.bind_some, Body.readLine, ihbody]
    rfl
  | loop t body next ihbody ihnext =>
    rw [lines, Body.readLines_append, Body.readLines_append, Body.readLines_cons,
      Body.readLines_cons, ihnext]
    simp only [Option.bind_some, Body.readLine, Comparison.statement, ihbody]
    rfl

/-- The body of a program. -/
def Program.body (p : Program) : Body :=
  (p.declarations.map fun d => Statement.declare d.type (d.names.map Name.text)).foldr
    Body.statement (p.main.body p.types 0 .done)

/-- Statements are read in front of a body. -/
theorem ofLines?_append {statements : List Statement}
    (h : ∀ s ∈ statements, ∀ text, s ≠ .verbatim text) {lines : List LineBody} {body : Body}
    (hbody : Body.ofLines? lines = some body) :
    Body.ofLines? (statements.map .statement ++ lines) =
      some (statements.foldr Body.statement body) := by
  unfold Body.ofLines? at hbody ⊢
  split at hbody
  · next body' hread =>
    obtain rfl := Option.some.inj hbody
    rw [Body.readLines_append, hread, Option.bind_some, readLines_statements h]
  · cases hbody

/-- **The lines of a program are read as its body.** -/
theorem Program.ofLines?_lines (p : Program) : Body.ofLines? p.lines = some p.body := by
  have hlines : p.declarations.map Declaration.line =
      (p.declarations.map fun d => Statement.declare d.type (d.names.map Name.text)).map
        .statement := by
    rw [List.map_map]
    rfl
  have hmain : Body.ofLines? (p.main.lines p.types 0) = some (p.main.body p.types 0 .done) := by
    rw [Body.ofLines?, Block.readLines_lines]
  rw [lines, hlines]
  refine ofLines?_append (fun s hs text => ?_) hmain
  obtain ⟨d, _, rfl⟩ := List.mem_map.mp hs
  simp

/-! ## Programs whose names are declared -/

/-- An operand whose name has a type. -/
def Operand.Declared (types : String → DataType) : Operand → Prop
  | name x => types x.text ≠ .untyped
  | number _ => True

/-- The type of a number is a type. -/
theorem typeOf_number_ne_untyped (lexeme : String) :
    Lexicon.typeOf .number lexeme ≠ .untyped := by
  unfold Lexicon.typeOf
  simp only
  split
  · decide
  · decide

/-- A declared operand has a type. -/
theorem Operand.type_ne_untyped {e : Operand} {types : String → DataType}
    (h : e.Declared types) : e.type types ≠ .untyped := by
  cases e with
  | name x => exact h
  | number n => exact typeOf_number_ne_untyped n.text

/-- An expression whose names have types. -/
def Expression.Declared (types : String → DataType) : Expression → Prop
  | operand e => e.Declared types
  | operation left _ right => left.Declared types ∧ right.Declared types

/-- A comparison whose names have types. -/
def Comparison.Declared (types : String → DataType) (t : Comparison) : Prop :=
  t.left.Declared types ∧ t.right.Declared types

/-- A command whose names have types. -/
def Command.Declared (types : String → DataType) : Command → Prop
  | read x => types x.text ≠ .untyped
  | write (.text _) => True
  | write (.operand e) => e.Declared types
  | assign x value => types x.text ≠ .untyped ∧ value.Declared types

/-- **A block whose names have types.** -/
def Block.Declared (types : String → DataType) : Block → Prop
  | done => True
  | command c next => c.Declared types ∧ next.Declared types
  | conditional t body next => t.Declared types ∧ body.Declared types ∧ next.Declared types
  | loop t body next => t.Declared types ∧ body.Declared types ∧ next.Declared types

/-- The names of one block after the other. -/
theorem Block.declared_append {types : String → DataType} {a b : Block} (ha : a.Declared types)
    (hb : b.Declared types) : (a.append b).Declared types := by
  induction a with
  | done => exact hb
  | command c next ih => exact ⟨ha.1, ih ha.2⟩
  | conditional t body next _ ih => exact ⟨ha.1, ha.2.1, ih ha.2.2⟩
  | loop t body next _ ih => exact ⟨ha.1, ha.2.1, ih ha.2.2⟩

/-! ## The body does what the program does -/

/-- **The names that a run looks at**: those that are no temporaries. -/
def Visible (name : String) : Prop := ∀ k, name ≠ temporaryName k

/-- A temporary is read as a variable. -/
theorem beginsWith_temporaryName (k : Nat) :
    beginsWith Char.isAlpha (temporaryName k) = true := by
  unfold beginsWith temporaryName
  rw [String.toList_append]
  rfl

/-- What begins with a digit does not begin with a letter. -/
theorem not_beginsWith_isAlpha {s : String} (h : beginsWith Char.isDigit s = true) :
    beginsWith Char.isAlpha s = false := by
  unfold beginsWith at h ⊢
  cases hhead : s.toList.head? with
  | none => rfl
  | some c =>
    rw [hhead, Option.any_some] at h
    rw [Option.any_some]
    exact isAlpha_of_isDigit h

section Run

variable {Value Input : Type} (m : Interpretation Value Input) {types : String → DataType}
  (hvisible : ∀ name, types name ≠ .untyped → Visible name) {w w' : World Value Input}

/-- A temporary has the value that it was given. -/
theorem operandValue_set_temporary (w : World Value Input) (k : Nat) (value : Value) :
    operandValue m (w.set (temporaryName k) value) (temporaryName k) = value := by
  unfold operandValue
  rw [if_pos (beginsWith_temporaryName k)]
  simp [World.set]

/-- Worlds stay alike when a temporary changes. -/
theorem alike_set_temporary (h : w.Alike Visible w') (k : Nat) (value : Value) :
    w.Alike Visible (w'.set (temporaryName k) value) :=
  h.set_hidden (fun hv => hv k rfl) value

include hvisible in
/-- An operand is read in C as it is in MGol. -/
theorem Operand.operandValue_text {e : Operand} (he : e.Declared types)
    (h : w.Alike Visible w') : operandValue m w' e.text = e.eval m w := by
  unfold operandValue
  cases e with
  | name x =>
    rw [text, if_pos x.letter]
    exact h.store_eq _ (hvisible _ he)
  | number n =>
    rw [text, not_beginsWith_isAlpha n.digit]
    rfl

/-- The operators that compare are read back. -/
theorem operatorOf_cRelational (r : Comparator) :
    operatorOf (SemanticAction.cRelational r.spelling) = r.spelling := by
  cases r <;> decide

/-- The arithmetic operators are read as they are. -/
theorem operatorOf_arithmetic (a : Arithmetic) : operatorOf a.spelling = a.spelling := by
  cases a <;> decide

include hvisible in
/-- **The statements of an expression compute it.** -/
theorem Expression.run_statements {e : Expression} (he : e.Declared types)
    (h : w.Alike Visible w') (k : Nat) :
    w.Alike Visible ((e.statements k).foldl (Statement.run m) w') ∧
      operandValue m ((e.statements k).foldl (Statement.run m) w') (e.result k) = e.eval m w := by
  cases e with
  | operand e => exact ⟨h, e.operandValue_text m hvisible he h⟩
  | operation left operator right =>
    have hvalue : m.apply (operatorOf operator.spelling) (operandValue m w' left.text)
        (operandValue m w' right.text) = eval m w (.operation left operator right) := by
      rw [operatorOf_arithmetic, left.operandValue_text m hvisible he.1 h,
        right.operandValue_text m hvisible he.2 h]
      rfl
    rw [statements, List.foldl_cons, List.foldl_nil, Statement.run, hvalue]
    exact ⟨alike_set_temporary h k _, operandValue_set_temporary m w' k _⟩

include hvisible in
/-- **The statement of a comparison computes whether it holds.** -/
theorem Comparison.run_statement {t : Comparison} (ht : t.Declared types)
    (h : w.Alike Visible w') (k : Nat) :
    w.Alike Visible ((t.statement k).run m w') ∧
      m.holds (operandValue m ((t.statement k).run m w') (temporaryName k)) = t.holds m w := by
  rw [statement, Statement.run, operatorOf_cRelational,
    t.left.operandValue_text m hvisible ht.1 h, t.right.operandValue_text m hvisible ht.2 h,
    operandValue_set_temporary]
  exact ⟨alike_set_temporary h k _, rfl⟩

include hvisible in
/-- **The statements of a command do what it does.** -/
theorem Command.run_statements {c : Command} (hc : c.Declared types) (h : w.Alike Visible w')
    (k : Nat) :
    (c.run m types w).Alike Visible ((c.statements types k).foldl (Statement.run m) w') := by
  match c with
  | .read x => exact h.read m _ _
  | .write (.text body) =>
    rw [statements, List.foldl_cons, List.foldl_nil, Statement.run, literalText_cLiteral]
    exact h.write _ _
  | .write (.operand e) =>
    rw [statements, List.foldl_cons, List.foldl_nil, Statement.run,
      e.operandValue_text m hvisible hc h]
    exact h.write _ _
  | .assign x value =>
    obtain ⟨halike, hvalue⟩ := value.run_statements m hvisible hc.2 h k
    rw [statements, List.foldl_append, List.foldl_cons, List.foldl_nil]
    -- copying a text and assigning a number are the same here
    have hassign : ∀ u : World Value Input,
        Statement.run m u (if types x.text = .literal then .copy x.text (value.result k)
          else .assign x.text (value.result k)) =
        u.set x.text (operandValue m u (value.result k)) := by
      intro u
      split <;> rfl
    rw [hassign, hvalue]
    exact halike.set _ _

/-- Statements run one by one, and then what comes next. -/
theorem run_foldr_statement (statements : List Statement) (after : Body) (n : Nat)
    (w : World Value Input) :
    (statements.foldr Body.statement after).run m n w =
      after.run m n (statements.foldl (Statement.run m) w) := by
  induction statements generalizing w with
  | nil => rfl
  | cons s statements ih => exact ih _

/-- Declarations do nothing. -/
theorem foldl_run_declare {statements : List Statement}
    (h : ∀ s ∈ statements, ∃ type names, s = .declare type names) (w : World Value Input) :
    statements.foldl (Statement.run m) w = w := by
  induction statements with
  | nil => rfl
  | cons s statements ih =>
    obtain ⟨⟨type, names, rfl⟩, hrest⟩ := List.forall_mem_cons.mp h
    exact ih hrest

/-- A run that is followed by nothing. -/
theorem andThen_done (n : Nat) (o : Outcome Value Input) :
    o.andThen (Body.done.run m n) = o := by
  cases o <;> rfl

/-- **A run of a body that does what a run of a block does**, and then what comes next. -/
def Follows (after : World Value Input → Outcome Value Input) (o : Outcome Value Input)
    (o' : Outcome Value Input) : Prop :=
  ∃ middle, o.Alike Visible middle ∧ o' = middle.andThen after

/-- Runs that are alike, followed by such runs, are such runs. -/
theorem Follows.of_alike {after : World Value Input → Outcome Value Input}
    {o o' : Outcome Value Input} (h : o.Alike Visible o')
    {next next' : World Value Input → Outcome Value Input}
    (hnext : ∀ u u', u.Alike Visible u' → Follows after (next u) (next' u')) :
    Follows after (o.andThen next) (o'.andThen next') := by
  cases h with
  | ended alike => exact hnext _ _ alike
  | running alike => exact ⟨_, .running alike, rfl⟩

include hvisible in
/-- **The body of a block does what the block does**, in every world that differs in temporaries
only. -/
theorem Block.run_body {b : Block} (hb : b.Declared types) (n k : Nat) (after : Body)
    (h : w.Alike Visible w') :
    Follows (after.run m n) (b.run m types n w) ((b.body types k after).run m n w') := by
  induction b generalizing k w w' after with
  | done => exact ⟨.ended w', .ended h, rfl⟩
  | command c next ih =>
    rw [body, run_foldr_statement]
    exact ih hb.2 _ _ (c.run_statements m hvisible hb.1 h k)
  | conditional t body next ihbody ihnext =>
    obtain ⟨ht, hbody, hnext⟩ := hb
    -- the comparison is in its temporary when the header is reached
    obtain ⟨halike, htest⟩ := t.run_statement m hvisible ht h k
    rw [Block.body, Body.run, Body.run, Block.run, htest]
    by_cases hholds : t.holds m w = true
    · rw [if_pos hholds, if_pos hholds]
      obtain ⟨middle, hmiddle, heq⟩ := ihbody hbody (k + 1) .done halike
      rw [andThen_done] at heq
      rw [heq]
      exact .of_alike hmiddle fun u u' hu => ihnext hnext _ after hu
    · rw [if_neg hholds, if_neg hholds]
      exact ihnext hnext _ after halike
  | loop t body next ihbody ihnext =>
    obtain ⟨ht, hbody, hnext⟩ := hb
    rw [Block.body, Body.run, Body.run, Block.run]
    -- before each round the temporary holds the comparison, evaluated in the world of that round
    refine .of_alike (rounds_alike (I := fun u u' => u.Alike Visible u' ∧
      m.holds (operandValue m u' (temporaryName k)) = t.holds m u) (fun _ _ hu => hu.1)
      (fun _ _ hu => hu.2) ?_ n (t.run_statement m hvisible ht h k)) fun u u' hu =>
        ihnext hnext _ after hu
    -- a round that ends computes the comparison for the next one
    intro u u' hu
    obtain ⟨middle, hmiddle, heq⟩ := ihbody hbody (k + 1) (.statement (t.statement k) .done) hu.1
    rw [heq]
    generalize body.run m types n u = o at hmiddle ⊢
    cases hmiddle with
    | ended alike => exact .inl ⟨_, _, rfl, rfl, t.run_statement m hvisible ht alike k⟩
    | running alike => exact .inr ⟨_, _, rfl, rfl, alike⟩

end Run

/-- **The body of a program does what the program does.** -/
theorem Program.run_body {Value Input : Type} (m : Interpretation Value Input) {p : Program}
    (hp : p.main.Declared p.types) (hvisible : ∀ name ∈ p.declared, Visible name) (n : Nat)
    (w : World Value Input) : (p.run m n w).Alike Visible (p.body.run m n w) := by
  have hdeclarations : ∀ s ∈ p.declarations.map fun d =>
      Statement.declare d.type (d.names.map Name.text), ∃ type names, s = .declare type names :=
    List.forall_mem_map.mpr fun d _ => ⟨_, _, rfl⟩
  unfold Program.body
  rw [run_foldr_statement, foldl_run_declare m hdeclarations]
  obtain ⟨middle, hmiddle, heq⟩ := Block.run_body m
    (fun name hname => hvisible name (mem_declared hname)) hp n 0 .done
    (⟨fun _ _ => rfl, rfl, rfl⟩ : w.Alike Visible w)
  rw [heq, andThen_done]
  exact hmiddle

end Mgol.Ast
