import Mgol.Proofs.Target.Typing

/-! # Well typed programs

When a program is closed and well typed as it is read. A line is judged by the lines before it
alone: the temporaries are declared there like the variables, and all that is known besides is the
type that each variable should have.

* **`Target.HasType`, `Target.Typed`** — the type of an operand, and a line that is well typed.
* **`Target.Typed.closed`** — a well typed line uses what earlier lines declare and compute.
* **`Target.WellTyped`** — lines that are all well typed, with one type for every operand.
* **`Target.WellTyped.of_acceptsAll`** — a program is well typed if its lines were when they were
  written. -/

namespace Mgol.Target

variable {earlier lines : List LineBody} {operand x : String} {type type' : DataType}

/-! ## Lines -/

/-- **The type of an operand** behind earlier lines: a constant has that of its spelling, and a name
the one it was declared with. A temporary has a type once it is computed. -/
inductive HasType (earlier : List LineBody) : String → DataType → Prop
  | constant {text : String} (digit : beginsWith Char.isDigit text = true) :
      HasType earlier text (Lexicon.typeOf .number text)
  | declared {x : String} {type : DataType} (declared : Declares earlier x type)
      (plain : ¬IsTemporary x) : HasType earlier x type
  | temporary {k : Nat} {type : DataType} {operator : String}
      (declared : Declares earlier (temporaryName k) type)
      (computed : Computes earlier k operator) : HasType earlier (temporaryName k) type

/-- **A line that is well typed** behind earlier lines.

* A variable is read, and an operand written, with the conversion of its type.
* An assignment has the same type on both sides, and copies exactly texts.
* An arithmetic operation has two numbers of the type that its temporary is declared with.
* A comparison has two operands of one type, and its temporary is declared as an integer.
* A condition is declared as an integer, and was computed by comparing. -/
inductive Typed (earlier : List LineBody) : LineBody → Prop
  | declare {type : DataType} {names : List String} :
      Typed earlier (.statement (.declare type names))
  | read {type : DataType} {x : String} (target : Declares earlier x type)
      (plain : ¬IsTemporary x) : Typed earlier (.statement (.read type x))
  | write {type : DataType} {operand : String} (value : HasType earlier operand type) :
      Typed earlier (.statement (.write type operand))
  | writeText {literal : String} : Typed earlier (.statement (.writeText literal))
  | assign {type : DataType} {x operand : String} (target : Declares earlier x type)
      (plain : ¬IsTemporary x) (value : HasType earlier operand type) (other : type ≠ .literal) :
      Typed earlier (.statement (.assign x operand))
  | copy {x operand : String} (target : Declares earlier x .literal) (plain : ¬IsTemporary x)
      (value : HasType earlier operand .literal) : Typed earlier (.statement (.copy x operand))
  | arithmetic {k : Nat} {left operator right : String} {type : DataType}
      (target : Declares earlier (temporaryName k) type)
      (arithmetic : operator ∈ arithmeticOperators) (numeric : type.isNumeric = true)
      (first : HasType earlier left type) (second : HasType earlier right type) :
      Typed earlier (.statement (.compute (temporaryName k) left operator right))
  | relational {k : Nat} {left operator right : String} {type : DataType}
      (target : Declares earlier (temporaryName k) .integer)
      (relational : operator ∈ relationalOperators) (first : HasType earlier left type)
      (second : HasType earlier right type) :
      Typed earlier (.statement (.compute (temporaryName k) left operator right))
  | opening {header : Header} {k : Nat} {operator : String} (tests : header.Tests (temporaryName k))
      (declared : Declares earlier (temporaryName k) .integer)
      (relational : operator ∈ relationalOperators) (computed : Computes earlier k operator) :
      Typed earlier (.opening header)
  | closing : Typed earlier .closing

/-- **A name that may be used** behind earlier lines: one of them declares it and, if it looks like
a temporary, it is one and is computed before. -/
def Usable (earlier : List LineBody) (x : String) : Prop :=
  (∃ type, Declares earlier x type) ∧
    (IsTemporary x → ∃ k operator, x = temporaryName k ∧ Computes earlier k operator)

/-- A name with a type may be used. -/
theorem HasType.usable (h : HasType earlier operand type)
    (hletter : beginsWith Char.isAlpha operand = true) : Usable earlier operand := by
  cases h with
  | constant digit => exact absurd hletter (not_letter_of_digit digit)
  | declared declared plain => exact ⟨⟨_, declared⟩, fun h => absurd h plain⟩
  | temporary declared computed => exact ⟨⟨_, declared⟩, fun _ => ⟨_, _, rfl, computed⟩⟩

/-- A name with a type is declared with it. -/
theorem HasType.declares (h : HasType earlier operand type)
    (hletter : beginsWith Char.isAlpha operand = true) : Declares earlier operand type := by
  cases h with
  | constant digit => exact absurd hletter (not_letter_of_digit digit)
  | declared declared | temporary declared => exact declared

/-- **An operand has one type**, if all names are declared with one and begin with a letter. -/
theorem HasType.unique (h : HasType earlier operand type) (h' : HasType earlier operand type')
    (honce : ∀ x type type', Declares earlier x type → Declares earlier x type' → type = type')
    (hletter : ∀ x type, Declares earlier x type → beginsWith Char.isAlpha x = true) :
    type = type' := by
  by_cases hoperand : beginsWith Char.isAlpha operand = true
  · exact honce operand type type' (h.declares hoperand) (h'.declares hoperand)
  · -- what begins with no letter is a constant
    have hconstant : ∀ {type}, HasType earlier operand type →
        type = Lexicon.typeOf .number operand := by
      intro type h
      cases h with
      | constant => rfl
      | declared declared | temporary declared => exact absurd (hletter _ _ declared) hoperand
    rw [hconstant h, hconstant h']

/-- **A well typed line is closed**: all names that it uses may be used. -/
theorem Typed.closed {line : LineBody} (h : Typed earlier line) (hx : x ∈ line.operands)
    (hletter : beginsWith Char.isAlpha x = true) : Usable earlier x := by
  cases h with
  | declare | writeText | closing => cases hx
  | read target plain =>
    rw [List.mem_singleton.mp hx]
    exact ⟨⟨_, target⟩, fun h => absurd h plain⟩
  | write value =>
    rw [List.mem_singleton.mp hx] at hletter ⊢
    exact value.usable hletter
  | assign target plain value | copy target plain value =>
    rcases List.mem_pair.mp hx with rfl | rfl
    · exact ⟨⟨_, target⟩, fun h => absurd h plain⟩
    · exact value.usable hletter
  | arithmetic _ _ _ first second | relational _ _ first second =>
    rcases List.mem_pair.mp hx with rfl | rfl
    · exact first.usable hletter
    · exact second.usable hletter
  | opening tests declared _ computed =>
    rw [tests.operands_eq] at hx
    rw [List.mem_singleton.mp hx]
    exact ⟨⟨_, declared⟩, fun _ => ⟨_, _, rfl, computed⟩⟩

/-! ## Programs -/

/-- **Lines that are closed and well typed**, where variables should have types.

* Every name that a line uses is declared by an earlier line, and every temporary is computed by
  one.
* The names that are declared and look like no temporaries are the variables with a type, and they
  are declared with it.
* Every line is well typed behind those before it.
* Every operand has one type.
* A temporary that is tested is computed by comparing, and by nothing else. -/
structure WellTyped (lines : List LineBody) (types : String → DataType) : Prop where
  closed : ∀ front line back, lines = front ++ line :: back →
    ∀ x ∈ line.operands, beginsWith Char.isAlpha x = true → Usable front x
  declared : ∀ x type, ¬IsTemporary x →
    (Declares lines x type ↔ types x = type ∧ type ≠ .untyped)
  typed : ∀ front line back, lines = front ++ line :: back → Typed front line
  unambiguous : ∀ operand type type', HasType lines operand type → HasType lines operand type' →
    type = type'
  tested : ∀ header k operator, .opening header ∈ lines → header.Tests (temporaryName k) →
    Computes lines k operator → operator ∈ relationalOperators

namespace CodeBuffer

variable {code : CodeBuffer}

/-- **The temporaries are declared** with the types of their kinds. -/
theorem declares_declarationBodies :
    Declares code.declarationBodies x type ↔
      ∃ k kind, code.temporaries[k]? = some kind ∧ x = temporaryName k ∧ type = kind.dataType := by
  constructor
  · rintro ⟨names, hline, hx⟩
    obtain ⟨k, kind, hkind, heq⟩ := mem_declarationBodies.mp hline
    injection heq with heq
    injection heq with htype hnames
    subst hnames
    exact ⟨k, kind, hkind, List.mem_singleton.mp hx, htype⟩
  · rintro ⟨k, kind, hkind, rfl, rfl⟩
    exact ⟨_, mem_declarationBodies.mpr ⟨k, kind, hkind, rfl⟩, List.mem_singleton_self _⟩

/-- The declarations of temporaries compute nothing. -/
theorem not_computes_declarationBodies {k : Nat} {operator : String} :
    ¬Computes code.declarationBodies k operator := by
  rintro ⟨left, right, hline⟩
  obtain ⟨_, _, _, heq⟩ := mem_declarationBodies.mp hline
  cases heq

/-- A line of a program declares a temporary, or stands in the body behind such lines. -/
theorem split_bodies {front back : List LineBody} {line : LineBody}
    (h : code.declarationBodies ++ code.bodies = front ++ line :: back) :
    line ∈ code.declarationBodies ∨
      ∃ inner, front = code.declarationBodies ++ inner ∧ code.bodies = inner ++ line :: back := by
  rcases List.append_eq_append_iff.mp h with ⟨inner, hfront, hback⟩ | ⟨_ | ⟨_, more⟩, hfront, hback⟩
  · exact .inr ⟨inner, hfront, hback⟩
  · refine .inr ⟨[], ?_, hback.symm⟩
    rw [hfront, List.append_nil, List.append_nil]
  · obtain ⟨rfl, -⟩ := List.cons.inj hback
    rw [hfront]
    exact .inl (List.mem_append_right _ List.mem_cons_self)

end CodeBuffer

/-! ## Lines as they are written -/

variable {code : CodeBuffer} {types : String → DataType}

/-- An operand has the same type in the text of a program as it had when its line was written,
unless a variable looks like a temporary. -/
theorem HasType.of_scope (h : Scope.HasType ⟨types, code.temporaries⟩ earlier operand type)
    (hplain : ∀ x type, Declares earlier x type → ¬IsTemporary x) :
    HasType (code.declarationBodies ++ earlier) operand type := by
  cases h with
  | constant digit => exact .constant digit
  | name declared => exact .declared (declares_append.mpr (.inr declared)) (hplain _ _ declared)
  | temporary numbered computed =>
    exact .temporary (declares_append.mpr
      (.inl (CodeBuffer.declares_declarationBodies.mpr ⟨_, _, numbered, rfl, rfl⟩)))
      (computes_append.mpr (.inr computed))

/-- A temporary is declared in front of the body, with the type of its kind. -/
theorem declares_temporary {k : Nat} {kind : TemporaryKind}
    (h : code.temporaries[k]? = some kind) :
    Declares (code.declarationBodies ++ earlier) (temporaryName k) kind.dataType :=
  declares_append.mpr (.inl (CodeBuffer.declares_declarationBodies.mpr ⟨k, kind, h, rfl, rfl⟩))

/-- **A line is well typed in the text** if it was when it was written. -/
theorem Typed.of_scope {line : LineBody}
    (h : Scope.Accepts ⟨types, code.temporaries⟩ earlier line)
    (hplain : ∀ x type, Declares earlier x type → ¬IsTemporary x) :
    Typed (code.declarationBodies ++ earlier) line := by
  have hbehind : ∀ {x type}, Declares earlier x type →
      Declares (code.declarationBodies ++ earlier) x type := fun h => declares_append.mpr (.inr h)
  cases h with
  | declare => exact .declare
  | read target => exact .read (hbehind target) (hplain _ _ target)
  | write value => exact .write (.of_scope value hplain)
  | writeText => exact .writeText
  | assign target value other =>
    exact .assign (hbehind target) (hplain _ _ target) (.of_scope value hplain) other
  | copy target value =>
    exact .copy (hbehind target) (hplain _ _ target) (.of_scope value hplain)
  | @arithmetic k kind left operator right type numbered other arithmetic first second numeric
      declared =>
    -- kinds of numbers with the same name in C are the same
    have htype : kind.dataType = type := by
      cases kind <;> cases type <;> simp_all [DataType.cType?, TemporaryKind.cType,
        TemporaryKind.dataType]
    exact .arithmetic (htype ▸ declares_temporary numbered) arithmetic numeric
      (.of_scope first hplain) (.of_scope second hplain)
  | relational numbered relational first second =>
    exact .relational (declares_temporary numbered) relational (.of_scope first hplain)
      (.of_scope second hplain)
  | opening tests numbered relational computed =>
    exact .opening tests (declares_temporary numbered) relational
      (computes_append.mpr (.inr computed))
  | closing => exact .closing

/-- Every name that code declares has its type in the registry. -/
theorem Scope.AcceptsAll.registered {scope : Scope} (h : scope.AcceptsAll earlier lines)
    (hx : Declares lines x type) : scope.types x = type ∧ type ≠ .untyped := by
  obtain ⟨names, hline, hmem⟩ := hx
  obtain ⟨front, back, heq⟩ := List.append_of_mem hline
  cases h.accepts heq with
  | declare typed registered => exact ⟨registered x hmem, typed⟩

/-- What a program declares: temporaries with the types of their kinds in front, variables in its
body. -/
theorem declares_program :
    Declares (code.declarationBodies ++ code.bodies) x type ↔
      (∃ k kind, code.temporaries[k]? = some kind ∧ x = temporaryName k ∧ type = kind.dataType) ∨
        Declares code.bodies x type := by
  rw [declares_append, CodeBuffer.declares_declarationBodies]

/-- Every name of a program is declared with one type, unless a variable looks like a temporary. -/
theorem Scope.AcceptsAll.declares_unique
    (h : Scope.AcceptsAll ⟨types, code.temporaries⟩ [] code.bodies)
    (hplain : ∀ x type, Declares code.bodies x type → ¬IsTemporary x)
    (hx : Declares (code.declarationBodies ++ code.bodies) x type)
    (hx' : Declares (code.declarationBodies ++ code.bodies) x type') : type = type' := by
  -- a temporary and a variable do not share a name, so both are declared in one place
  rcases declares_program.mp hx with ⟨k, kind, hkind, rfl, rfl⟩ | hx
  · rcases declares_program.mp hx' with ⟨k', kind', hkind', hname, rfl⟩ | hx'
    · rw [← temporaryName_injective hname, hkind] at hkind'
      rw [Option.some.inj hkind']
    · exact absurd (isTemporary_temporaryName k) (hplain _ _ hx')
  · rcases declares_program.mp hx' with ⟨k, _, _, rfl, _⟩ | hx'
    · exact absurd (isTemporary_temporaryName k) (hplain _ _ hx)
    · exact (h.registered hx).1.symm.trans (h.registered hx').1

/-- Every line of a program is well typed behind those before it. -/
theorem Scope.AcceptsAll.typed (h : Scope.AcceptsAll ⟨types, code.temporaries⟩ [] code.bodies)
    (hplain : ∀ x type, Declares code.bodies x type → ¬IsTemporary x) {front back : List LineBody}
    {line : LineBody} (heq : code.declarationBodies ++ code.bodies = front ++ line :: back) :
    Typed front line := by
  rcases CodeBuffer.split_bodies heq with hline | ⟨inner, rfl, hbodies⟩
  · obtain ⟨k, kind, -, rfl⟩ := CodeBuffer.mem_declarationBodies.mp hline
    exact .declare
  · refine .of_scope (h.accepts hbodies) fun x type ⟨names, hline, hx⟩ => hplain x type ?_
    rw [hbodies]
    exact ⟨names, List.mem_append_left _ hline, hx⟩

/-- **A program is closed and well typed** if its lines were when they were written, all variables
with a type are declared, and none looks like a temporary. -/
theorem WellTyped.of_acceptsAll (h : Scope.AcceptsAll ⟨types, code.temporaries⟩ [] code.bodies)
    (hdeclared : ∀ x, types x ≠ .untyped → Declares code.bodies x (types x))
    (hletter : ∀ x type, Declares code.bodies x type → beginsWith Char.isAlpha x = true)
    (hplain : ∀ x type, Declares code.bodies x type → ¬IsTemporary x) :
    WellTyped (code.allLines.map Line.body) types := by
  rw [CodeBuffer.map_body_allLines]
  exact {
    closed := fun front line back heq x hx => (h.typed hplain heq).closed hx
    declared := by
      intro x type hx
      have hbody : Declares (code.declarationBodies ++ code.bodies) x type ↔
          Declares code.bodies x type := by
        rw [declares_program, or_iff_right]
        rintro ⟨k, _, _, rfl, _⟩
        exact hx (isTemporary_temporaryName k)
      rw [hbody]
      refine ⟨h.registered, ?_⟩
      rintro ⟨rfl, hne⟩
      exact hdeclared x hne
    typed := fun front line back heq => h.typed hplain heq
    unambiguous := by
      intro operand type type' hx hx'
      refine hx.unique hx' (fun x _ _ => h.declares_unique hplain) fun x type hx => ?_
      rcases declares_program.mp hx with ⟨k, _, _, rfl, _⟩ | hx
      · exact Ast.beginsWith_temporaryName k
      · exact hletter x type hx
    tested := by
      -- heads and computations stand in the body, where the kinds of temporaries are known
      intro header k operator hheader htests hcomputes
      have hbody : LineBody.opening header ∈ code.bodies := by
        refine (List.mem_append.mp hheader).resolve_left fun hline => ?_
        obtain ⟨_, _, _, heq⟩ := CodeBuffer.mem_declarationBodies.mp hline
        cases heq
      exact h.relational hbody htests
        ((computes_append.mp hcomputes).resolve_left CodeBuffer.not_computes_declarationBodies) }

end Mgol.Target
