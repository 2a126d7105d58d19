import Mgol.Proofs.Meaning.Compiler
import Std.Data.String.ToNat

/-! # Types of generated code

When the lines of generated code are well typed while they are written. A line is judged behind the
lines before it, with the types of variables and the kinds of temporaries at hand.

* **`Target.Scope`, `Target.Scope.HasType`** — what names mean, and the type of an operand.
* **`Target.Scope.Accepts`, `Target.Scope.AcceptsAll`** — a line, and lines, that are well typed.
* **`Target.Scope.AcceptsAll.relational`** — conditions were computed by comparing.
* **`Target.Statement.Suits`** — what has to be known of statements beside the program that they
  come from: the kinds of the temporaries that they compute. -/

namespace Mgol.Target

/-! ## Names in code -/

/-- The names that a line declares. -/
def LineBody.declared : LineBody → List String
  | .statement (.declare _ names) => names
  | _ => []

/-- What a statement uses, names and constants alike. The temporary that it computes is not used. -/
def Statement.operands : Statement → List String
  | declare _ _ | writeText _ | verbatim _ => []
  | read _ name => [name]
  | write _ operand => [operand]
  | assign target value | copy target value => [target, value]
  | compute _ left _ right => [left, right]

/-- What a line uses. -/
def LineBody.operands : LineBody → List String
  | .statement s => s.operands
  | .opening (.ifHolds condition) | .opening (.whileHolds condition) => [condition]
  | .opening (.verbatim _) | .closing => []

/-- A head that tests a condition. -/
def Header.Tests (h : Header) (condition : String) : Prop :=
  h = .ifHolds condition ∨ h = .whileHolds condition

/-- A head tests one condition, which is what it uses. -/
theorem Header.Tests.operands_eq {h : Header} {condition : String} (ht : h.Tests condition) :
    (LineBody.opening h).operands = [condition] := by
  rcases ht with rfl | rfl <;> rfl

/-- What begins with a digit is no name and no temporary. -/
theorem not_letter_of_digit {x : String} (h : beginsWith Char.isDigit x = true) :
    beginsWith Char.isAlpha x ≠ true := by
  rw [Ast.not_beginsWith_isAlpha h]
  decide

/-- A name that some lines declare with a type. -/
def Declares (lines : List LineBody) (x : String) (type : DataType) : Prop :=
  ∃ names, .statement (.declare type names) ∈ lines ∧ x ∈ names

/-- A temporary that some lines compute with an operator. -/
def Computes (lines : List LineBody) (k : Nat) (operator : String) : Prop :=
  ∃ left right, .statement (.compute (temporaryName k) left operator right) ∈ lines

/-- A name is declared by some lines or by others. -/
theorem declares_append {front back : List LineBody} {x : String} {type : DataType} :
    Declares (front ++ back) x type ↔ Declares front x type ∨ Declares back x type := by
  simp only [Declares, List.mem_append, or_and_right, exists_or]

/-- A temporary is computed by some lines or by others. -/
theorem computes_append {front back : List LineBody} {k : Nat} {operator : String} :
    Computes (front ++ back) k operator ↔ Computes front k operator ∨ Computes back k operator := by
  simp only [Computes, List.mem_append, exists_or]

/-- Temporaries with different numbers have different names. -/
theorem temporaryName_injective {k k' : Nat} (h : temporaryName k = temporaryName k') : k = k' :=
  Nat.repr_inj.mp ((String.append_right_inj "T").mp h)

/-! ## Types -/

/-- **What names mean in code**: the types of its variables, and the kinds of its temporaries. -/
structure Scope where
  types : String → DataType
  temporaries : Array TemporaryKind

namespace Scope

variable (scope : Scope) (earlier : List LineBody)

/-- **The type of an operand** behind earlier lines: a constant has that of its spelling, a variable
the one it was declared with, and a temporary that of its kind once it is computed. -/
inductive HasType : String → DataType → Prop
  | constant {text : String} (digit : beginsWith Char.isDigit text = true) :
      HasType text (Lexicon.typeOf .number text)
  | name {x : String} {type : DataType} (declared : Declares earlier x type) : HasType x type
  | temporary {k : Nat} {kind : TemporaryKind} {operator : String}
      (numbered : scope.temporaries[k]? = some kind) (computed : Computes earlier k operator) :
      HasType (temporaryName k) kind.dataType

/-- **A line that is well typed** behind earlier lines.

* A declaration has the type of its names in the registry.
* A variable is read, and an operand written, with the conversion of its type.
* An assignment has the same type on both sides, and copies exactly texts.
* An operation has two operands of one type; its result is declared with the C type of that type if
  it is arithmetic on numbers, and as a truth value if it compares.
* A condition is a truth value that was computed by comparing. -/
inductive Accepts : LineBody → Prop
  | declare {type : DataType} {names : List String} (typed : type ≠ .untyped)
      (registered : ∀ x ∈ names, scope.types x = type) :
      Accepts (.statement (.declare type names))
  | read {type : DataType} {x : String} (target : Declares earlier x type) :
      Accepts (.statement (.read type x))
  | write {type : DataType} {operand : String} (value : scope.HasType earlier operand type) :
      Accepts (.statement (.write type operand))
  | writeText {literal : String} : Accepts (.statement (.writeText literal))
  | assign {type : DataType} {x operand : String} (target : Declares earlier x type)
      (value : scope.HasType earlier operand type) (other : type ≠ .literal) :
      Accepts (.statement (.assign x operand))
  | copy {x operand : String} (target : Declares earlier x .literal)
      (value : scope.HasType earlier operand .literal) : Accepts (.statement (.copy x operand))
  | arithmetic {k : Nat} {kind : TemporaryKind} {left operator right : String} {type : DataType}
      (numbered : scope.temporaries[k]? = some kind) (other : kind ≠ .truth)
      (arithmetic : operator ∈ arithmeticOperators) (first : scope.HasType earlier left type)
      (second : scope.HasType earlier right type) (numeric : type.isNumeric = true)
      (declared : type.cType? = some kind.cType) :
      Accepts (.statement (.compute (temporaryName k) left operator right))
  | relational {k : Nat} {left operator right : String} {type : DataType}
      (numbered : scope.temporaries[k]? = some .truth)
      (relational : operator ∈ relationalOperators) (first : scope.HasType earlier left type)
      (second : scope.HasType earlier right type) :
      Accepts (.statement (.compute (temporaryName k) left operator right))
  | opening {header : Header} {k : Nat} {operator : String} (tests : header.Tests (temporaryName k))
      (numbered : scope.temporaries[k]? = some .truth)
      (relational : operator ∈ relationalOperators) (computed : Computes earlier k operator) :
      Accepts (.opening header)
  | closing : Accepts .closing

/-- **Lines that are well typed**, each behind those before it. -/
def AcceptsAll (scope : Scope) : List LineBody → List LineBody → Prop
  | _, [] => True
  | earlier, line :: rest =>
    scope.Accepts earlier line ∧ scope.AcceptsAll (earlier ++ [line]) rest

variable {scope earlier} {lines : List LineBody}

/-- Lines are well typed if the first ones are, and the others behind them. -/
theorem acceptsAll_append (lines' : List LineBody) :
    scope.AcceptsAll earlier (lines ++ lines') ↔
      scope.AcceptsAll earlier lines ∧ scope.AcceptsAll (earlier ++ lines) lines' := by
  induction lines generalizing earlier with
  | nil => simp [AcceptsAll]
  | cons line lines ih => simp [AcceptsAll, ih, and_assoc]

/-- Every one of well typed lines is well typed behind those before it. -/
theorem AcceptsAll.accepts (h : scope.AcceptsAll earlier lines) {front back : List LineBody}
    {line : LineBody} (heq : lines = front ++ line :: back) :
    scope.Accepts (earlier ++ front) line := by
  rw [heq, acceptsAll_append] at h
  exact h.2.1

/-- **Conditions were computed by comparing**, and by nothing else. -/
theorem AcceptsAll.relational (h : scope.AcceptsAll earlier lines) {header : Header} {k : Nat}
    {operator : String} (hheader : .opening header ∈ lines)
    (htests : header.Tests (temporaryName k)) (hcomputes : Computes lines k operator) :
    operator ∈ relationalOperators := by
  have htruth : scope.temporaries[k]? = some .truth := by
    obtain ⟨front, back, heq⟩ := List.append_of_mem hheader
    cases h.accepts heq with
    | opening tests numbered =>
      have hname := htests.operands_eq.symm.trans tests.operands_eq
      rw [temporaryName_injective (List.cons.inj hname).1]
      exact numbered
  obtain ⟨left, right, hline⟩ := hcomputes
  obtain ⟨front, back, heq⟩ := List.append_of_mem hline
  generalize hbody : LineBody.statement (.compute (temporaryName k) left operator right) = line
    at heq
  cases h.accepts heq with
  | arithmetic numbered other =>
    injection hbody with hstatement
    injection hstatement with hname
    rw [← temporaryName_injective hname, htruth] at numbered
    exact absurd (Option.some.inj numbered).symm other
  | relational _ relational =>
    injection hbody with hstatement
    injection hstatement with _ _ hoperator
    rw [hoperator]
    exact relational
  | _ => simp at hbody

end Scope

/-! ## Code -/

namespace CodeBuffer

/-- **The variables that code declares.** -/
def variableNames (code : CodeBuffer) : List String := code.bodies.flatMap LineBody.declared

end CodeBuffer

/-! ## What has to be known of statements -/

/-- The kind of the result of an operator, by the type of its left operand. -/
def resultKind? (operator : String) (type : DataType) : Option TemporaryKind :=
  if operator ∈ arithmeticOperators then TemporaryKind.ofArithmetic? type else some .truth

/-- The type of an operand by its spelling, whether it was declared or not. -/
def Scope.written (scope : Scope) (operand : String) : DataType :=
  if beginsWith Char.isAlpha operand then scope.types operand else Lexicon.typeOf .number operand

/-- **A statement that suits a scope**: a temporary is of the kind of what is computed into it. -/
def Statement.Suits (scope : Scope) : Statement → Prop
  | compute temporary left operator _ =>
    ∃ k kind, temporary = temporaryName k ∧ scope.temporaries[k]? = some kind ∧
      resultKind? operator (scope.written left) = some kind
  | _ => True

end Mgol.Target
