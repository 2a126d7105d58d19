import Mgol.Proofs.Target.Typing
import Mgol.Proofs.Meaning.Reduction
import Mgol.Proofs.Typing.Faults

/-! # The lines of faultless programs

A program without faults is translated into lines that are well typed, one after the other, as soon
as its temporaries are of the kinds of what is computed into them.

* **`Ast.Expression.accepts`, `Ast.Comparison.accepts`, `Ast.Command.accepts`,
  `Ast.Block.accepts`** — the lines of the parts of a program.
* **`Ast.Program.types_eq_given`** — without redeclarations it does not matter which declaration of
  a name counts.
* **`Ast.Program.accepts`** — the lines of a program. -/

namespace Mgol.Ast

open Target

/-! ## Parts without faults -/

variable {types : String → DataType} {i k : Nat}

/-- A name that is no fault is declared. -/
theorem declared_of_undeclared_eq_nil {name : String} (h : undeclared types i name = []) :
    types name ≠ .untyped := by
  intro huntyped
  rw [undeclared, if_pos huntyped] at h
  cases h

/-- Operands of different types are a fault, if both have one. -/
theorem eq_of_mismatch_eq_nil {left right : DataType} {operator : String}
    (h : mismatch i left right operator = []) (hleft : left ≠ .untyped) (hright : right ≠ .untyped) :
    left = right := by
  by_contra hne
  rw [mismatch, if_pos ⟨hleft, hright, hne⟩] at h
  cases h

/-- Names in an operand without faults are declared. -/
theorem Operand.declared_of_faults {e : Operand} (h : e.faults types i = []) :
    e.Declared types := by
  cases e with
  | name x => exact declared_of_undeclared_eq_nil h
  | number n => trivial

/-- Two operands without faults have one type. -/
theorem Operand.types_of_faults {left right : Operand} {operator : String}
    (hleft : left.faults types i = []) {i' : Nat} (hright : right.faults types i' = [])
    (hmismatch : mismatch i (left.type types) (right.type types) operator = []) :
    left.Declared types ∧ right.Declared types ∧ left.type types = right.type types := by
  have hl := declared_of_faults hleft
  have hr := declared_of_faults hright
  exact ⟨hl, hr, eq_of_mismatch_eq_nil hmismatch (type_ne_untyped hl) (type_ne_untyped hr)⟩

/-- Operands of an operation without faults are numbers. -/
theorem Expression.numeric_of_faults {left right : Operand} {operator : Arithmetic}
    (h : (operation left operator right).faults types i = []) :
    left.Declared types ∧ right.Declared types ∧ left.type types = right.type types ∧
      (left.type types).isNumeric = true := by
  simp only [faults, List.append_eq_nil_iff] at h
  obtain ⟨⟨hleft, hright⟩, hmismatch, hliterals⟩ := h
  obtain ⟨hl, hr, hsame⟩ := Operand.types_of_faults hleft hright hmismatch
  refine ⟨hl, hr, hsame, ?_⟩
  have htyped := Operand.type_ne_untyped hl
  rw [← hsame, literals] at hliterals
  cases htype : left.type types with
  | integer | real => rfl
  | literal => simp [htype] at hliterals
  | untyped => exact absurd htype htyped

/-- The type of an operation without faults. -/
theorem Expression.type_of_faults {left right : Operand} {operator : Arithmetic}
    (h : (operation left operator right).faults types i = []) :
    (operation left operator right).type types = left.type types := by
  obtain ⟨_, _, hsame, hnumeric⟩ := numeric_of_faults h
  have hother : left.type types ≠ .literal := by
    intro hliteral
    rw [hliteral] at hnumeric
    cases hnumeric
  rw [type, if_pos ⟨hsame, hother⟩]

/-- An expression without faults has a type. -/
theorem Expression.type_ne_untyped {e : Expression} (h : e.faults types i = []) :
    e.type types ≠ .untyped := by
  cases e with
  | operand e => exact Operand.type_ne_untyped (Operand.declared_of_faults h)
  | operation left operator right =>
    rw [type_of_faults h]
    exact Operand.type_ne_untyped (numeric_of_faults h).1

/-- A variable and the value it gets have one type, if the assignment has no faults. -/
theorem Command.assign_of_faults {x : Name} {value : Expression}
    (h : (assign x value).faults types i = []) :
    value.faults types (i + 2) = [] ∧ types x.text ≠ .untyped ∧
      types x.text = value.type types := by
  simp only [faults, List.append_eq_nil_iff] at h
  obtain ⟨hvalue, hname, hmisassigned⟩ := h
  have htyped := declared_of_undeclared_eq_nil hname
  refine ⟨hvalue, htyped, ?_⟩
  by_contra hne
  rw [misassigned, if_pos ⟨htyped, Expression.type_ne_untyped hvalue, hne⟩] at hmisassigned
  cases hmisassigned

/-! ## Lines of the parts -/

/-- **A scope in which lines can follow**: every name with a type was declared with it, and has it in
the registry. -/
structure Covers (scope : Scope) (earlier : List LineBody) (types : String → DataType) : Prop where
  declared : ∀ x, types x ≠ .untyped → Declares earlier x (types x)
  registered : ∀ x, types x ≠ .untyped → scope.types x = types x

variable {scope : Scope} {earlier : List LineBody}

/-- More lines may come in between. -/
theorem Covers.append (h : Covers scope earlier types) (lines : List LineBody) :
    Covers scope (earlier ++ lines) types where
  declared x hx := declares_append.mpr (.inl (h.declared x hx))
  registered := h.registered

/-- The type of an operand can be told from its spelling. -/
theorem Operand.written_text (scope : Scope) (e : Operand) :
    scope.written e.text = e.type scope.types := by
  unfold Scope.written
  cases e with
  | name x =>
    rw [text, if_pos x.letter]
    rfl
  | number n =>
    rw [text, if_neg (not_letter_of_digit n.digit)]
    rfl

/-- A declared operand has its type, also in its spelling. -/
theorem Operand.hasType {e : Operand} (hcovers : Covers scope earlier types)
    (h : e.Declared types) :
    scope.HasType earlier e.text (e.type types) ∧ scope.written e.text = e.type types := by
  rw [written_text]
  cases e with
  | name x => exact ⟨.name (hcovers.declared x.text h), hcovers.registered x.text h⟩
  | number n => exact ⟨.constant n.digit, rfl⟩

/-- The kind of a temporary that suits what is computed into it. -/
theorem kind_of_suits {left right : String} {operator : String} {type : DataType}
    (h : (Statement.compute (temporaryName k) left operator right).Suits scope)
    (hleft : scope.written left = type) :
    ∃ kind, scope.temporaries[k]? = some kind ∧ resultKind? operator type = some kind := by
  obtain ⟨k', kind, hname, hnumbered, hkind⟩ := h
  obtain rfl := temporaryName_injective hname
  exact ⟨kind, hnumbered, by rw [← hleft]; exact hkind⟩

/-- What a kind of numbers is good for. -/
theorem cType_of_ofArithmetic? {type : DataType} {kind : TemporaryKind}
    (h : TemporaryKind.ofArithmetic? type = some kind) :
    kind ≠ .truth ∧ type.cType? = some kind.cType ∧ kind.dataType = type := by
  cases type with
  | integer | real =>
    obtain rfl := Option.some.inj h
    decide
  | literal | untyped => cases h

/-- Arithmetic operators are arithmetic in C, and those that compare do so in C. -/
theorem spelling_mem_arithmeticOperators (a : Arithmetic) :
    a.spelling ∈ arithmeticOperators := by
  cases a <;> decide

/-- Operators that compare in C. -/
theorem cRelational_mem_relationalOperators (r : Comparator) :
    SemanticAction.cRelational r.spelling ∈ relationalOperators ∧
      SemanticAction.cRelational r.spelling ∉ arithmeticOperators := by
  cases r <;> decide

/-- **The lines of an expression** are well typed, and its result has its type behind them. -/
theorem Expression.accepts {e : Expression} (hcovers : Covers scope earlier types)
    (hfaults : e.faults types i = []) (hsuits : ∀ s ∈ e.statements k, s.Suits scope) :
    scope.AcceptsAll earlier ((e.statements k).map .statement) ∧
      scope.HasType (earlier ++ (e.statements k).map .statement) (e.result k) (e.type types) := by
  cases e with
  | operand e =>
    have htype := (Operand.hasType hcovers (Operand.declared_of_faults hfaults)).1
    refine ⟨trivial, ?_⟩
    rw [statements, List.map_nil, List.append_nil]
    exact htype
  | operation left operator right =>
    obtain ⟨hl, hr, hsame, hnumeric⟩ := numeric_of_faults hfaults
    obtain ⟨hleft, hwritten⟩ := Operand.hasType hcovers hl
    obtain ⟨hright, _⟩ := Operand.hasType hcovers hr
    have hmem := spelling_mem_arithmeticOperators operator
    -- the temporary is of the kind of its operands
    obtain ⟨kind, hnumbered, hkind⟩ :=
      kind_of_suits (hsuits _ List.mem_cons_self) hwritten
    rw [resultKind?, if_pos hmem] at hkind
    obtain ⟨hother, hdeclared, hvalue⟩ := cType_of_ofArithmetic? hkind
    refine ⟨⟨.arithmetic hnumbered hother hmem hleft (by rw [hsame]; exact hright) hnumeric
      hdeclared, trivial⟩, ?_⟩
    rw [type_of_faults hfaults, ← hvalue]
    exact .temporary hnumbered ⟨left.text, right.text, List.mem_append_right _ List.mem_cons_self⟩

/-- **The line of a comparison** is well typed and computes a truth value. -/
theorem Comparison.accepts {t : Comparison} (hcovers : Covers scope earlier types)
    (hfaults : t.faults types i = []) (hsuits : (t.statement k).Suits scope) :
    scope.Accepts earlier (.statement (t.statement k)) ∧
      scope.temporaries[k]? = some .truth := by
  simp only [faults, List.append_eq_nil_iff] at hfaults
  obtain ⟨⟨hleft, hright⟩, hmismatch⟩ := hfaults
  obtain ⟨hl, hr, hsame⟩ := Operand.types_of_faults hleft hright hmismatch
  obtain ⟨hfirst, hwritten⟩ := Operand.hasType hcovers hl
  obtain ⟨hsecond, _⟩ := Operand.hasType hcovers hr
  obtain ⟨hmem, hnot⟩ := cRelational_mem_relationalOperators t.operator
  obtain ⟨kind, hnumbered, hkind⟩ := kind_of_suits hsuits hwritten
  rw [resultKind?, if_neg hnot] at hkind
  obtain rfl := Option.some.inj hkind
  exact ⟨.relational hnumbered hmem hfirst (by rw [hsame]; exact hsecond), hnumbered⟩

/-- The lines in front of a body are well typed: a comparison, and a head that tests it. -/
theorem Comparison.acceptsAll_head {t : Comparison} (hcovers : Covers scope earlier types)
    (hfaults : t.faults types i = []) (hsuits : (t.statement k).Suits scope) {header : Header}
    (htests : header.Tests (temporaryName k)) :
    scope.AcceptsAll earlier [.statement (t.statement k), .opening header] := by
  obtain ⟨hcompute, htruth⟩ := accepts hcovers hfaults hsuits
  refine ⟨hcompute, .opening htests htruth (cRelational_mem_relationalOperators t.operator).1 ?_,
    trivial⟩
  exact ⟨t.left.text, t.right.text, List.mem_append_right _ List.mem_cons_self⟩

/-- **The lines of a command** are well typed. -/
theorem Command.accepts {c : Command} (hcovers : Covers scope earlier types)
    (hfaults : c.faults types i = []) (hsuits : ∀ s ∈ c.statements types k, s.Suits scope) :
    scope.AcceptsAll earlier ((c.statements types k).map .statement) := by
  match c with
  | .read x =>
    have htyped := declared_of_undeclared_eq_nil hfaults
    exact ⟨.read (hcovers.declared x.text htyped), trivial⟩
  | .write (.text body) => exact ⟨.writeText, trivial⟩
  | .write (.operand e) =>
    have hdeclared : e.Declared types := Operand.declared_of_faults hfaults
    exact ⟨.write (Operand.hasType hcovers hdeclared).1, trivial⟩
  | .assign x value =>
    obtain ⟨hvalue, htyped, hsame⟩ := assign_of_faults hfaults
    obtain ⟨hlines, htype⟩ := Expression.accepts hcovers hvalue
      fun s hs => hsuits s (List.mem_append_left _ hs)
    have htarget := (hcovers.append ((value.statements k).map .statement)).declared x.text htyped
    rw [statements, List.map_append, Scope.acceptsAll_append]
    refine ⟨hlines, ?_, trivial⟩
    rw [hsame] at htarget ⊢
    -- texts are copied, and anything else is assigned
    by_cases hliteral : value.type types = .literal
    · rw [if_pos hliteral]
      rw [hliteral] at htarget htype
      exact .copy htarget htype
    · rw [if_neg hliteral]
      exact .assign htarget htype hliteral

/-- **The lines of a block** are well typed. -/
theorem Block.accepts {b : Block} (hcovers : Covers scope earlier types)
    (hfaults : b.faults types i = [])
    (hsuits : ∀ s, .statement s ∈ b.lines types k → s.Suits scope) :
    scope.AcceptsAll earlier (b.lines types k) := by
  induction b generalizing earlier i k with
  | done => trivial
  | command c next ih =>
    rw [faults, List.append_eq_nil_iff] at hfaults
    rw [lines] at hsuits ⊢
    rw [Scope.acceptsAll_append]
    refine ⟨Command.accepts hcovers hfaults.1 fun s hs => hsuits s ?_,
      ih (hcovers.append _) hfaults.2 fun s hs => hsuits s (List.mem_append_right _ hs)⟩
    exact List.mem_append_left _ (List.mem_map_of_mem hs)
  | conditional t body next ihbody ihnext =>
    simp only [faults, List.append_eq_nil_iff] at hfaults
    obtain ⟨htest, hbody, hnext⟩ := hfaults
    rw [lines] at hsuits ⊢
    rw [Scope.acceptsAll_append, Scope.acceptsAll_append]
    have hinside := (hcovers.append [.statement (t.statement k),
      .opening (.ifHolds (temporaryName k))])
    exact ⟨Comparison.acceptsAll_head hcovers htest (hsuits _ (by simp)) (.inl rfl),
      ihbody hinside hbody fun s hs => hsuits s (by simp [hs]), .closing,
      ihnext ((hinside.append _).append _) hnext fun s hs => hsuits s (by simp [hs])⟩
  | loop t body next ihbody ihnext =>
    simp only [faults, List.append_eq_nil_iff] at hfaults
    obtain ⟨htest, hbody, hnext⟩ := hfaults
    rw [lines] at hsuits ⊢
    rw [Scope.acceptsAll_append, Scope.acceptsAll_append]
    have hinside := (hcovers.append [.statement (t.statement k),
      .opening (.whileHolds (temporaryName k))])
    have hsuit := hsuits (t.statement k) (by simp)
    -- the comparison is computed again at the end of the loop, behind the same declarations
    exact ⟨Comparison.acceptsAll_head hcovers htest hsuit (.inr rfl),
      ihbody hinside hbody fun s hs => hsuits s (by simp [hs]),
      (Comparison.accepts (hinside.append _) htest hsuit).1, .closing,
      ihnext (((hinside.append _).append _).append _) hnext fun s hs => hsuits s (by simp [hs])⟩

/-! ## Lines of programs -/

/-- **Without faults no name is declared twice.** -/
theorem Program.nodup_declared {p : Program} (h : p.faults = []) : p.declared.Nodup := by
  refine List.nodup_iff_count_le_one.mpr fun x => ?_
  have hcount := p.countP_redeclared x
  rw [h, List.countP_nil] at hcount
  omega

/-- Where no name is declared twice, it does not matter which declaration of a name counts. -/
theorem foldl_extend_eq_givenBy {declarations : List Declaration}
    (h : (declarations.flatMap fun d => d.names.map Name.text).Nodup) (types : String → DataType)
    (x : String) :
    declarations.foldl Declaration.extend types x =
      if x ∈ declarations.flatMap fun d => d.names.map Name.text then givenBy declarations x
      else types x := by
  induction declarations generalizing types with
  | nil => rfl
  | cons d declarations ih =>
    rw [List.flatMap_cons, List.nodup_append'] at h
    obtain ⟨_, hrest, hdisjoint⟩ := h
    rw [List.foldl_cons, ih hrest, givenBy_cons, List.flatMap_cons]
    by_cases hx : x ∈ d.names.map Name.text
    · have hnot := hdisjoint hx
      rw [if_neg hnot, if_pos hx, if_pos (List.mem_append_left _ hx), Declaration.extend,
        if_pos hx]
    · rw [if_neg hx, Declaration.extend, if_neg hx]
      simp only [List.mem_append, hx, false_or]

/-- The types that the translation goes by are those that a faultless program gives its names. -/
theorem Program.types_eq_given {p : Program} (h : p.faults = []) : p.types = p.given := by
  funext x
  rw [types, foldl_extend_eq_givenBy (nodup_declared h)]
  by_cases hx : x ∈ p.declared
  · exact if_pos hx
  · rw [(p.given_eq_untyped_iff x).mpr hx]
    exact if_neg hx

/-- Where no name is declared twice, every declaration of a name counts. -/
theorem givenBy_of_mem {declarations : List Declaration}
    (h : (declarations.flatMap fun d => d.names.map Name.text).Nodup) {d : Declaration}
    (hd : d ∈ declarations) {x : String} (hx : x ∈ d.names.map Name.text) :
    givenBy declarations x = d.type := by
  induction declarations with
  | nil => cases hd
  | cons first declarations ih =>
    rw [List.flatMap_cons, List.nodup_append'] at h
    obtain ⟨_, hrest, hdisjoint⟩ := h
    rw [givenBy_cons]
    rcases List.mem_cons.mp hd with rfl | hd
    · exact if_pos hx
    · rw [if_neg fun hfirst => hdisjoint hfirst (List.mem_flatMap.mpr ⟨d, hd, hx⟩)]
      exact ih hrest hd

/-- A name with a type stands in a declaration of that type. -/
theorem exists_of_givenBy {declarations : List Declaration} {x : String}
    (h : givenBy declarations x ≠ .untyped) :
    ∃ d ∈ declarations, x ∈ d.names.map Name.text ∧ d.type = givenBy declarations x := by
  unfold givenBy at h ⊢
  cases hfind : declarations.find? fun d => x ∈ d.names.map Name.text with
  | none =>
    rw [hfind] at h
    exact absurd rfl h
  | some d => exact ⟨d, List.mem_of_find?_eq_some hfind, by simpa using List.find?_some hfind, rfl⟩

/-- **A name with a type is declared with it** in front of the block. -/
theorem Program.declares_declarations {p : Program} (hfaults : p.faults = []) {x : String}
    (hx : p.types x ≠ .untyped) : Declares (p.declarations.map Declaration.line) x (p.types x) := by
  rw [types_eq_given hfaults] at hx ⊢
  obtain ⟨d, hd, hname, htype⟩ := exists_of_givenBy hx
  rw [given, ← htype]
  exact ⟨d.names.map Name.text, List.mem_map_of_mem hd, hname⟩

/-- Declarations are well typed in the registry, whatever stands before them. -/
theorem acceptsAll_declarations {declarations : List Declaration}
    (h : ∀ d ∈ declarations, ∀ x ∈ d.names.map Name.text, scope.types x = d.type) :
    scope.AcceptsAll earlier (declarations.map Declaration.line) := by
  induction declarations generalizing earlier with
  | nil => trivial
  | cons d declarations ih =>
    exact ⟨.declare d.typed (h d List.mem_cons_self),
      ih fun d' hd' => h d' (List.mem_cons_of_mem _ hd')⟩

/-- **The lines of a program without faults** are well typed. -/
theorem Program.accepts {p : Program} (hfaults : p.faults = []) (htypes : scope.types = p.types)
    (hsuits : ∀ s, .statement s ∈ p.lines → s.Suits scope) : scope.AcceptsAll [] p.lines := by
  have hgiven := types_eq_given hfaults
  have hmain : p.main.faults p.types p.before = [] := by
    rw [faults, List.append_eq_nil_iff, ← hgiven] at hfaults
    exact hfaults.2
  rw [lines, Scope.acceptsAll_append, List.nil_append]
  constructor
  · refine acceptsAll_declarations fun d hd x hx => ?_
    rw [htypes, hgiven]
    exact givenBy_of_mem (nodup_declared hfaults) hd hx
  · refine Block.accepts ⟨fun x hx => ?_, fun x _ => by rw [htypes]⟩ hmain
      fun s hs => hsuits s (List.mem_append_right _ hs)
    exact declares_declarations hfaults hx

end Mgol.Ast
