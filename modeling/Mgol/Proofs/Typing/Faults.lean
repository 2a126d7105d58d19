import Mgol.Proofs.Meaning.Translation
import Mgol.Report.Code

/-! # The type errors of a program

What is wrong with the types of a program, said of its tree: names that are used without a
declaration, operands and assignments whose types differ, arithmetic on texts, and names that are
declared again. A fault stands at a word of the program, which is known by its number.

* **`Ast.Fault`** — a type error.
* **`Ast.Expression.faults`, `Ast.Command.faults`, `Ast.Block.faults`** — the faults of the parts of
  a program, under the types of its names.
* **`Ast.Program.given`** — the types of names: a name has the type of its first declaration.
* **`Ast.Program.faults`** — the faults of a program.
* **`Ast.Program.given_eq_untyped_iff`** — a name has no type exactly if it is never declared.
* **`Ast.Program.countP_redeclared`** — a name that is declared `n` times is redeclared `n - 1`
  times. -/

namespace Mgol.Ast

/-- **A type error**: its code, the number of the word that it stands at, and the lexeme that it is
about. -/
structure Fault where
  code : Code
  word : Nat
  about : String
  deriving DecidableEq

/-! ## Uses of names -/

section Uses

variable (types : String → DataType) (i : Nat)

/-- A name that is used without a type. -/
def undeclared (name : String) : List Fault :=
  if types name = .untyped then [⟨.undeclaredIdentifier, i, name⟩] else []

/-- Two operands of an operator that both have a type, and not the same. -/
def mismatch (left right : DataType) (operator : String) : List Fault :=
  if left ≠ .untyped ∧ right ≠ .untyped ∧ left ≠ right then [⟨.typeMismatch, i, operator⟩] else []

/-- Two texts that are operands of an arithmetic operator. -/
def literals (left right : DataType) (operator : String) : List Fault :=
  if left = .literal ∧ right = .literal then [⟨.literalInArithmetic, i, operator⟩] else []

/-- A target with a type that gets a value of another type. -/
def misassigned (target value : DataType) (name : String) : List Fault :=
  if target ≠ .untyped ∧ value ≠ .untyped ∧ target ≠ value then
    [⟨.assignmentTypeMismatch, i, name⟩]
  else []

/-- The faults of an operand at word `i`. -/
def Operand.faults : Operand → List Fault
  | name x => undeclared types i x.text
  | number _ => []

/-- The faults of an expression whose words begin at word `i`. -/
def Expression.faults : Expression → List Fault
  | operand e => e.faults types i
  | operation left operator right =>
    left.faults types i ++ right.faults types (i + 2)
      ++ (mismatch i (left.type types) (right.type types) operator.spelling
        ++ literals i (left.type types) (right.type types) operator.spelling)

/-- The type of an expression. An operation has the type of its operands, unless something is wrong
with them. -/
def Expression.type : Expression → DataType
  | operand e => e.type types
  | operation left _ right =>
    if left.type types = right.type types ∧ left.type types ≠ .literal then left.type types
    else .untyped

/-- The faults of a comparison. -/
def Comparison.faults (t : Comparison) : List Fault :=
  t.left.faults types i ++ t.right.faults types (i + 2)
    ++ mismatch i (t.left.type types) (t.right.type types) t.operator.spelling

/-- The faults of a command. -/
def Command.faults : Command → List Fault
  | read x => undeclared types (i + 1) x.text
  | write (.text _) => []
  | write (.operand e) => e.faults types (i + 1)
  | assign x value =>
    value.faults types (i + 2)
      ++ (undeclared types i x.text ++ misassigned i (types x.text) (value.type types) x.text)

end Uses

/-- **The faults of a block** whose words begin at word `i`. -/
def Block.faults (types : String → DataType) : Nat → Block → List Fault
  | _, done => []
  | i, command c next => c.faults types i ++ next.faults types (i + c.words.length)
  | i, conditional t body next =>
    t.faults types (i + 2)
      ++ (body.faults types (i + (conditionalHead t).length)
        ++ next.faults types (i + ((conditionalHead t).length + (body.words.length + 1))))
  | i, loop t body next =>
    t.faults types (i + 2)
      ++ (body.faults types (i + (loopHead t).length)
        ++ next.faults types (i + ((loopHead t).length + (body.words.length + 1))))

/-- The faults of one block after the other. -/
theorem Block.faults_append (types : String → DataType) (i : Nat) (a b : Block) :
    (a.append b).faults types i = a.faults types i ++ b.faults types (i + a.words.length) := by
  induction a generalizing i with
  | done => rfl
  | command c next ih => simp [append, faults, words, ih, Nat.add_assoc]
  | conditional t body next _ ih =>
    have hplace : ∀ n, i + ((conditionalHead t).length + (body.words.length + 1)) + n =
        i + ((conditionalHead t).length + (body.words.length + (n + 1))) := by omega
    simp [append, faults, words, ih, hplace]
  | loop t body next _ ih =>
    have hplace : ∀ n, i + ((loopHead t).length + (body.words.length + 1)) + n =
        i + ((loopHead t).length + (body.words.length + (n + 1))) := by omega
    simp [append, faults, words, ih, hplace]

/-! ## Declarations -/

/-- The names that words declare from word `i` on, each with its place. The last name is declared
first. -/
def nameEntries : Nat → List Name → List (String × Nat)
  | _, [] => []
  | i, x :: rest => nameEntries (i + 2) rest ++ [(x.text, i)]

/-- The names of declarations whose words begin at word `i`, in the order in which they are
declared. -/
def entries : Nat → List Declaration → List (String × Nat)
  | _, [] => []
  | i, d :: rest => nameEntries (i + 1) d.names ++ entries (i + d.words.length) rest

/-- The entries whose name was declared before, among the names `seen` or an earlier entry. -/
def repeats : List String → List (String × Nat) → List Fault
  | _, [] => []
  | seen, (x, i) :: rest =>
    (if x ∈ seen then [⟨.redeclaration, i, x⟩] else []) ++ repeats (x :: seen) rest

/-- The type that declarations give a name: that of the first one with the name. -/
def givenBy (declarations : List Declaration) (x : String) : DataType :=
  match declarations.find? fun d => x ∈ d.names.map Name.text with
  | some d => d.type
  | none => .untyped

namespace Program

/-- **The type that a program gives a name**: that of the first declaration of the name, and none if
there is no declaration of it. -/
def given (p : Program) : String → DataType := givenBy p.declarations

/-- **The declarations of names that were declared before.** -/
def redeclarations (p : Program) : List Fault := repeats [] (entries 2 p.declarations)

/-- The number of words before the block of a program. -/
def before (p : Program) : Nat := 4 + (p.declarations.flatMap Declaration.words).length

/-- **The faults of a program.** -/
def faults (p : Program) : List Fault :=
  p.redeclarations ++ p.main.faults p.given p.before

end Program

/-! ## Names that are declared -/

/-- A first declaration decides about its names. -/
theorem givenBy_cons (d : Declaration) (declarations : List Declaration) (x : String) :
    givenBy (d :: declarations) x =
      if x ∈ d.names.map Name.text then d.type else givenBy declarations x := by
  unfold givenBy
  rw [List.find?_cons]
  by_cases hx : x ∈ d.names.map Name.text
  · simp only [hx, decide_true, if_true]
  · simp only [hx, decide_false, if_false]

/-- **A name has no type exactly if it is never declared.** -/
theorem Program.given_eq_untyped_iff (p : Program) (x : String) :
    p.given x = .untyped ↔ x ∉ p.declared := by
  unfold given declared
  induction p.declarations with
  | nil => simp [givenBy]
  | cons d declarations ih =>
    rw [givenBy_cons, List.flatMap_cons, List.mem_append, not_or, ← ih]
    by_cases hx : x ∈ d.names.map Name.text
    · simp [hx, d.typed]
    · simp [hx]

/-! ## How often a name is redeclared -/

/-- What is repeated in a first part and in a second one behind it. -/
theorem repeats_append (seen : List String) (a b : List (String × Nat)) :
    repeats seen (a ++ b) = repeats seen a ++ repeats ((a.map Prod.fst).reverse ++ seen) b := by
  induction a generalizing seen with
  | nil => rfl
  | cons e a ih =>
    obtain ⟨x, i⟩ := e
    simp [repeats, ih]

/-- Every entry of a name that was seen is repeated. -/
theorem countP_repeats_of_mem {seen : List String} {x : String} (hx : x ∈ seen)
    (es : List (String × Nat)) :
    (repeats seen es).countP (fun f => f.about = x) = (es.map Prod.fst).count x := by
  induction es generalizing seen with
  | nil => rfl
  | cons e es ih =>
    obtain ⟨y, i⟩ := e
    rw [repeats, List.countP_append, ih (List.mem_cons_of_mem y hx), List.map_cons,
      List.count_cons, Nat.add_comm]
    congr 1
    by_cases hy : y = x
    · subst hy
      simp [hx]
    · split <;> simp [hy]

/-- Every entry of a new name is repeated but the first. -/
theorem countP_repeats {seen : List String} {x : String} (hx : x ∉ seen)
    (es : List (String × Nat)) :
    (repeats seen es).countP (fun f => f.about = x) = (es.map Prod.fst).count x - 1 := by
  induction es generalizing seen with
  | nil => rfl
  | cons e es ih =>
    obtain ⟨y, i⟩ := e
    rw [repeats, List.countP_append, List.map_cons, List.count_cons]
    by_cases hy : y = x
    · subst hy
      -- from its first entry on the name was seen
      rw [countP_repeats_of_mem List.mem_cons_self]
      simp [hx]
    · have hx' : x ∉ y :: seen := by
        rw [List.mem_cons, not_or]
        exact ⟨Ne.symm hy, hx⟩
      rw [ih hx']
      split <;> simp [hy]

/-- What is repeated is a redeclaration. -/
theorem code_of_mem_repeats {seen : List String} {es : List (String × Nat)} {f : Fault}
    (h : f ∈ repeats seen es) : f.code = .redeclaration := by
  induction es generalizing seen with
  | nil => cases h
  | cons e es ih =>
    rcases List.mem_append.mp h with h | h
    · split at h
      · rw [List.mem_singleton.mp h]
      · cases h
    · exact ih h

/-- The entries of names are the names, in whatever order. -/
theorem count_nameEntries (i : Nat) (names : List Name) (x : String) :
    ((nameEntries i names).map Prod.fst).count x = (names.map Name.text).count x := by
  induction names generalizing i with
  | nil => rfl
  | cons y names ih =>
    rw [nameEntries, List.map_append, List.count_append, ih, List.map_cons, List.count_cons]
    simp [List.count_cons]

/-- The entries of declarations are the declared names, in whatever order. -/
theorem count_entries (i : Nat) (declarations : List Declaration) (x : String) :
    ((entries i declarations).map Prod.fst).count x =
      (declarations.flatMap fun d => d.names.map Name.text).count x := by
  induction declarations generalizing i with
  | nil => rfl
  | cons d declarations ih =>
    rw [entries, List.map_append, List.count_append, count_nameEntries, ih, List.flatMap_cons,
      List.count_append]

/-- **Faults other than redeclarations.** -/
def OtherFaults (faults : List Fault) : Prop := ∀ f ∈ faults, f.code ≠ .redeclaration

namespace OtherFaults

/-- Nothing is wrong where there are no faults. -/
theorem nil : OtherFaults [] := fun _ h => by cases h

/-- Faults side by side. -/
theorem append {a b : List Fault} (ha : OtherFaults a) (hb : OtherFaults b) :
    OtherFaults (a ++ b) := fun f hf => (List.mem_append.mp hf).elim (ha f) (hb f)

/-- One fault under a condition. -/
theorem ite {condition : Prop} [Decidable condition] {code : Code} (h : code ≠ .redeclaration)
    {i : Nat} {about : String} : OtherFaults (if condition then [⟨code, i, about⟩] else []) := by
  intro f hf
  split at hf
  · rw [List.mem_singleton.mp hf]
    exact h
  · cases hf

variable (types : String → DataType)

/-- An operand redeclares nothing. -/
theorem operand (i : Nat) (e : Operand) : OtherFaults (e.faults types i) := by
  cases e with
  | name x => exact .ite (by decide)
  | number n => exact .nil

/-- An expression redeclares nothing. -/
theorem expression (i : Nat) (e : Expression) : OtherFaults (e.faults types i) := by
  cases e with
  | operand e => exact operand types i e
  | operation left operator right =>
    have hmismatch : OtherFaults (mismatch i (left.type types) (right.type types)
        operator.spelling) := .ite (by decide)
    exact ((operand types i left).append (operand types _ right)).append
      (hmismatch.append (.ite (by decide)))

/-- A comparison redeclares nothing. -/
theorem comparison (i : Nat) (t : Comparison) : OtherFaults (t.faults types i) :=
  ((operand types i t.left).append (operand types _ t.right)).append (.ite (by decide))

/-- A command redeclares nothing. -/
theorem command (i : Nat) (c : Command) : OtherFaults (c.faults types i) := by
  cases c with
  | read x => exact .ite (by decide)
  | write argument =>
    cases argument with
    | text body => exact .nil
    | operand e => exact operand types _ e
  | assign x value =>
    have hundeclared : OtherFaults (undeclared types i x.text) := .ite (by decide)
    exact (expression types _ value).append (hundeclared.append (.ite (by decide)))

/-- A block redeclares nothing. -/
theorem block (i : Nat) (b : Block) : OtherFaults (b.faults types i) := by
  induction b generalizing i with
  | done => exact .nil
  | command c next ih => exact (command types i c).append (ih _)
  | conditional t body next ihbody ihnext =>
    exact (comparison types _ t).append ((ihbody _).append (ihnext _))
  | loop t body next ihbody ihnext =>
    exact (comparison types _ t).append ((ihbody _).append (ihnext _))

end OtherFaults

/-- **A name that is declared `n` times is redeclared `n - 1` times.** -/
theorem Program.countP_redeclared (p : Program) (x : String) :
    p.faults.countP (fun f => f.code = .redeclaration ∧ f.about = x) = p.declared.count x - 1 := by
  have hmain : (p.main.faults p.given p.before).countP
      (fun f => f.code = .redeclaration ∧ f.about = x) = 0 := by
    rw [List.countP_eq_zero]
    intro f hf
    simp [OtherFaults.block p.given p.before p.main f hf]
  have hdeclared : p.redeclarations.countP (fun f => f.code = .redeclaration ∧ f.about = x) =
      p.redeclarations.countP (fun f => f.about = x) := by
    refine List.countP_congr fun f hf => ?_
    simp [code_of_mem_repeats hf]
  rw [faults, List.countP_append, hmain, hdeclared, redeclarations, countP_repeats (by simp),
    count_entries, Nat.add_zero]
  rfl

end Mgol.Ast
