import Mgol.Proofs.Target.WellTyped
import Mgol.Proofs.Typing.Kinds

/-! # The code that is handed out

What is known of the code of every program that a compiler hands out: the program it comes from has
no faults, and its lines are those of the translation. So the code is closed and well typed, unless
a variable looks like a temporary, and no name is declared twice, unless a variable is called like
one of the temporaries.

* **`Compiler.Delivers`, `Compiler.exists_delivers`** — what a program that is handed out comes
  with.
* **`Compiler.compile_well_typed`** — the program is closed and well typed, as it is read.
* **`Target.CodeBuffer.declaredNames`, `Compiler.compile_declares_once_iff`** — when every name is
  declared once.
* **`Compiler.compile_declares_twice`** — a program that is handed out with a name that is declared
  twice. -/

namespace Mgol

open Target Ast

/-! ## Names -/

/-- Whether a name is a `T` and digits. -/
def looksTemporary (name : String) : Bool :=
  match name.toList with
  | 'T' :: digits => !digits.isEmpty && digits.all Char.isDigit
  | _ => false

/-- Whether a name looks like a temporary can be told from its characters. -/
theorem looksTemporary_iff {name : String} : looksTemporary name = true ↔ IsTemporary name := by
  unfold looksTemporary
  constructor
  · intro h
    split at h
    · next digits hname =>
      rw [Bool.and_eq_true, Bool.not_eq_true', List.isEmpty_eq_false_iff, List.all_eq_true] at h
      exact ⟨digits, h.1, h.2, by rw [← hname, String.ofList_toList]⟩
    · cases h
  · rintro ⟨digits, hne, hdigits, rfl⟩
    rw [String.toList_ofList]
    simpa [hne] using hdigits

instance : DecidablePred IsTemporary := fun _ => decidable_of_iff _ looksTemporary_iff

namespace Ast

/-- A command declares nothing. -/
theorem Command.declared_statements (c : Command) (types : String → DataType) (k : Nat) :
    ((c.statements types k).map LineBody.statement).flatMap LineBody.declared = [] := by
  match c with
  | .read _ | .write (.text _) | .write (.operand _) => rfl
  | .assign x value =>
    cases value with
    | operand e =>
      simp only [statements, Expression.statements, List.nil_append]
      split <;> rfl
    | operation left operator right =>
      simp only [statements, Expression.statements]
      split <;> rfl

/-- A block declares nothing. -/
theorem Block.declared_lines (b : Block) (types : String → DataType) (k : Nat) :
    (b.lines types k).flatMap LineBody.declared = [] := by
  induction b generalizing k with
  | done => rfl
  | command c next ih => rw [lines, List.flatMap_append, c.declared_statements, ih, List.append_nil]
  | conditional t body next ihbody ihnext =>
    simp [lines, ihbody, ihnext, LineBody.declared, Comparison.statement]
  | loop t body next ihbody ihnext =>
    simp [lines, ihbody, ihnext, LineBody.declared, Comparison.statement]

/-- **The lines of a program declare its names**, in their order. -/
theorem Program.declared_lines (p : Program) : p.lines.flatMap LineBody.declared = p.declared := by
  rw [lines, List.flatMap_append, Block.declared_lines, List.append_nil, List.flatMap_map]
  rfl

/-- A name that is declared begins with a letter. -/
theorem Program.letter_of_mem_declared {p : Program} {x : String} (h : x ∈ p.declared) :
    beginsWith Char.isAlpha x = true := by
  obtain ⟨d, _, hx⟩ := List.mem_flatMap.mp h
  obtain ⟨name, _, rfl⟩ := List.mem_map.mp hx
  exact name.letter

end Ast

namespace Target.CodeBuffer

/-- **The names that a program declares**: its temporaries, and the variables in its lines. -/
def declaredNames (code : CodeBuffer) : List String :=
  (List.range code.temporaries.size).map temporaryName ++ code.variableNames

/-- The temporaries are declared in their order. -/
theorem declared_declarationStatements (k : Nat) (kinds : List TemporaryKind) :
    ((declarationStatements k kinds).map LineBody.statement).flatMap LineBody.declared =
      (List.range' k kinds.length).map temporaryName := by
  induction kinds generalizing k with
  | nil => rfl
  | cons kind kinds ih =>
    rw [declarationStatements, List.map_cons, List.flatMap_cons, ih]
    rfl

/-- **All lines of a program declare its names.** -/
theorem declared_allLines (code : CodeBuffer) :
    (code.allLines.map Line.body).flatMap LineBody.declared = code.declaredNames := by
  rw [map_body_allLines, List.flatMap_append, declarationBodies, declared_declarationStatements,
    Array.length_toList, ← List.range_eq_range']
  rfl

/-- Where no variable is declared twice, a name is declared twice exactly if a variable is called
like a temporary. -/
theorem nodup_declaredNames_iff {code : CodeBuffer} (h : code.variableNames.Nodup) :
    code.declaredNames.Nodup ↔
      ∀ k < code.temporaries.size, temporaryName k ∉ code.variableNames := by
  have hnumbered : ((List.range code.temporaries.size).map temporaryName).Nodup :=
    List.nodup_range.map fun k k' => temporaryName_injective
  rw [declaredNames, List.nodup_append']
  constructor
  · rintro ⟨_, _, hdisjoint⟩ k hk
    exact hdisjoint (List.mem_map_of_mem (List.mem_range.mpr hk))
  · intro hother
    refine ⟨hnumbered, h, fun x hx => ?_⟩
    obtain ⟨k, hk, rfl⟩ := List.mem_map.mp hx
    exact hother k (List.mem_range.mp hk)

end Target.CodeBuffer

/-! ## What is handed out -/

/-- **A program that was read without an error has no faults**: each of them would have been
reported. -/
theorem ParseState.faultless_of_run {whole : List PlacedWord} {failure : Option String}
    {capacity : Nat} {symbols : List GrammarSymbol} {p p' : ParseState}
    (hsafe : p.Safe failure capacity symbols) (h : p.Inspects whole symbols) {o : SyntaxOptions}
    {n : Nat} (hrun : p.run .mgol o n = .accepted p') (hsilent : p'.diagnostics = #[])
    (hclean : p'.executor.work.errorCount = 0) {program : Program}
    (hwords : program.words = whole.map Prod.fst) : program.faults = [] := by
  have hunalarmed : ¬p'.Alarmed := by
    rintro ⟨d, hd, _⟩
    rw [hsilent] at hd
    simp at hd
  obtain ⟨other, all, hother, hall, hpoints⟩ := faults_of_run hsafe h hrun hunalarmed
  obtain rfl : other = program := Program.eq_of_words (hother.trans hwords.symm)
  have hnone : all = [] := List.eq_nil_of_length_eq_zero (hall.counted.symm.trans hclean)
  rw [hnone, List.map_nil] at hpoints
  exact List.map_eq_nil_iff.mp hpoints.symm

namespace Compiler

/-- **What a program that is handed out comes with**: the tokens of its source are the words of a
program without faults, the text is that of the code that was written and is read back as its lines,
these are those of the program, and its names and temporaries have their types. -/
structure Delivers (c : Compiler) (input : Input) (j : Journal) (result : Compilation)
    (text : String) (tokens : Array (Spanned Token)) (program : Program) (code : CodeBuffer) :
    Prop where
  scanned : (c.scannerOf input j).scanAll.1 = .ok tokens
  words_eq : program.words = wordsOf tokens.toList
  ahead : (c.scannerOf input j).Ahead program.words
  written : c.written? input j = some code
  text_eq : text = code.program
  lines_eq : code.bodies = program.lines
  read : programLines? text = some code.allLines
  types_eq : result.registry.typeOf = program.types
  faultless : program.faults = []
  suits : ∀ s, .statement s ∈ code.bodies →
    s.Suits ⟨result.registry.typeOf, code.temporaries⟩

variable {preferences : Preferences} {input : Input} {name : String} {j : Journal}
  {result : Compilation} {text : String}

/-- The registry of a compilation is that of the scanner in the end. -/
theorem registry_of_accepted {c : Compiler} (hresult : (c.compile input name j).1 = .ok result)
    {p p' : ParseState} {j' : Journal}
    (hstart : startState (c.scannerOf input j) (.mgol c.preferences.syntactic.effectiveCapacity)
      c.preferences.syntactic.effectiveCapacity = (.ok p, j'))
    (hrun : p.run c.tables c.preferences.syntactic Limits.parseMoves = .accepted p') :
    result.registry = p'.scanner.registry := by
  have hparse : c.parseInput input j = (ParseEnd.accepted p').result := by
    unfold parseInput parse parseWith parseWithin
    rw [← scannerOf, hstart]
    simp only [hrun]
  unfold compile at hresult
  rw [hparse] at hresult
  obtain rfl := Except.ok.inj hresult
  rfl

/-- **Every program that is handed out comes with its source.** -/
theorem exists_delivers (hresult : (Compiler.compile { preferences } input name j).1 = .ok result)
    (hprogram : result.program = some text) :
    ∃ tokens program code, Delivers { preferences } input j result text tokens program code := by
  obtain ⟨p, j', p', hstart, hrun, hsilent, hclean, htext⟩ := accepted_of_program hresult hprogram
  have hregistry := registry_of_accepted hresult hstart hrun
  have hfluent : (scannerOf { preferences } input j).Fluent :=
    Scanner.fluent_ofInput input _ _
  rcases startState_cases (scannerOf { preferences } input j)
      (.mgol preferences.syntactic.effectiveCapacity) preferences.syntactic with
    ⟨t, s, states, hfound, _, hitems, hcapacity, hstart'⟩ | ⟨e, s, _, hstart'⟩
  · cases hstart'.symm.trans hstart
    have hsafe := safe_of_startState hfluent.sound hfound hitems hcapacity
    obtain ⟨program, hahead, hdeclared, hlines, htypes, hfits⟩ := ParseState.written_of_run hsafe
      (ParseState.composes_of_start hfluent Registry.typeOf_reserved hfound)
      ParseState.fits_of_start hrun hsilent hclean
    obtain ⟨tokens, hscan, hwords⟩ := hfluent.scanAll hahead
    have hplaced : program.words = ((visibleOf tokens.toList).map Token.placed).map Prod.fst := by
      rw [← hwords, wordsOf_eq_map_visibleOf, List.map_map]
      rfl
    have hfaultless := ParseState.faultless_of_run hsafe
      (ParseState.inspects_of_start hfluent Registry.typeOf_reserved
        (Scanner.spread_of_scanAll hscan) hfound) hrun hsilent hclean hplaced
    refine ⟨tokens, program, p'.executor.work.code, ?_⟩
    exact {
      scanned := hscan
      words_eq := hwords.symm
      ahead := hahead
      written := by
        unfold written?
        simp only [hstart, hrun]
      text_eq := htext.symm
      lines_eq := hlines
      read := by
        rw [← htext]
        exact program.programLines?_of_lines_eq hlines hdeclared hfluent hahead
      types_eq := by
        rw [hregistry]
        exact htypes
      faultless := hfaultless
      suits := fun s hs => by
        rw [hregistry]
        exact hfits s (.inl hs) }
  · cases hstart'.symm.trans hstart

namespace Delivers

variable {c : Compiler} {tokens : Array (Spanned Token)} {program : Program} {code : CodeBuffer}

/-- The variables of the code are the names that the program declares. -/
theorem variableNames_eq (h : c.Delivers input j result text tokens program code) :
    code.variableNames = program.declared := by
  rw [CodeBuffer.variableNames, h.lines_eq, program.declared_lines]

/-- No variable is declared twice. -/
theorem nodup_variableNames (h : c.Delivers input j result text tokens program code) :
    code.variableNames.Nodup := by
  rw [h.variableNames_eq]
  exact Program.nodup_declared h.faultless

/-- Every line of the code is well typed. -/
theorem acceptsAll (h : c.Delivers input j result text tokens program code) :
    Scope.AcceptsAll ⟨result.registry.typeOf, code.temporaries⟩ [] code.bodies := by
  have hsuits := h.suits
  rw [h.lines_eq] at hsuits ⊢
  exact Program.accepts h.faultless h.types_eq hsuits

end Delivers

/-- **The program that is handed out is closed and well typed.** If a compiler with the tables of
MGol hands out a program, its text is that of the code that was written and is read as C line by
line: the declarations of the temporaries, and the lines of the code. Unless a variable is declared
that looks like a temporary, these lines are closed and well typed with the types of the registry.
-/
theorem compile_well_typed
    (hresult : (Compiler.compile { preferences } input name j).1 = .ok result)
    (hprogram : result.program = some text) :
    ∃ code, written? { preferences } input j = some code ∧ text = code.program ∧
      programLines? text = some code.allLines ∧
      ((∀ x ∈ code.variableNames, ¬IsTemporary x) →
        WellTyped (code.allLines.map Line.body) result.registry.typeOf) := by
  obtain ⟨tokens, program, code, hdelivers⟩ := exists_delivers hresult hprogram
  refine ⟨code, hdelivers.written, hdelivers.text_eq, hdelivers.read, fun hother => ?_⟩
  have hname : ∀ x type, Declares code.bodies x type → x ∈ code.variableNames := by
    rintro x type ⟨names, hline, hx⟩
    exact List.mem_flatMap.mpr ⟨_, hline, hx⟩
  refine .of_acceptsAll hdelivers.acceptsAll (fun x hx => ?_) (fun x type hx => ?_)
    fun x type hx => hother x (hname x type hx)
  · rw [hdelivers.lines_eq]
    rw [hdelivers.types_eq] at hx ⊢
    exact declares_append.mpr (.inl (Program.declares_declarations hdelivers.faultless hx))
  · have hmem := hname x type hx
    rw [hdelivers.variableNames_eq] at hmem
    exact Program.letter_of_mem_declared hmem

/-- A compilation with a program, as a result and a text. -/
theorem exists_text {outcome : Except CompileError Compilation}
    (h : (outcome.toOption.bind Compilation.program).isSome = true) :
    ∃ result text, outcome = .ok result ∧ result.program = some text := by
  obtain ⟨text, htext⟩ := Option.isSome_iff_exists.mp h
  obtain ⟨result, hresult, hprogram⟩ := Option.bind_eq_some_iff.mp htext
  cases outcome with
  | error e => cases hresult
  | ok result' => exact ⟨result, text, by rw [Option.some.inj hresult], hprogram⟩

/-- A compilation that succeeds with a program, as a result. -/
theorem exists_success {outcome : Except CompileError Compilation} {text : String}
    (h : outcome.toOption.map (fun result => (result.program, result.success)) =
      some (some text, true)) :
    ∃ result, outcome = .ok result ∧ result.program = some text ∧ result.success = true := by
  obtain ⟨result, hresult, heq⟩ := exists_ok_of_map h
  obtain ⟨hprogram, hsuccess⟩ := Prod.mk.inj heq
  exact ⟨result, hresult, hprogram, hsuccess⟩

/-- A source with variables of every type, an operation on each kind of numbers, and a loop. -/
def mixedSource : String :=
  "inicio varinicio inteiro A; real B; literal S; varfim; S <- S; B <- B * 0.5; "
    ++ "repita (A > 0) A <- A - 1; fimrepita escreva B; fim"

/-- The program of that source is closed and well typed: its temporaries are declared as they are
used. -/
theorem compile_well_typed_mixed :
    ∃ (result : Compilation) (text : String) (lines : List Line),
      (Compiler.compileText {} mixedSource {}).1 = .ok result ∧ result.program = some text ∧
      programLines? text = some lines ∧
      (lines.take 6).map Line.body = [.statement (.declare .real ["T0"]),
        .statement (.declare .integer ["T1"]), .statement (.declare .integer ["T2"]),
        .statement (.declare .integer ["A"]), .statement (.declare .real ["B"]),
        .statement (.declare .literal ["S"])] ∧
      WellTyped (lines.map Line.body) result.registry.typeOf := by
  have hgiven : ((Compiler.compileText {} mixedSource {}).1.toOption.bind
      Compilation.program).isSome = true := by decide +kernel
  have hwritten : (written? {} ⟨Text.encode mixedSource, none⟩ {}).map
      (fun code => (code.variableNames, (code.allLines.take 6).map Line.body)) =
        some (["A", "B", "S"], [.statement (.declare .real ["T0"]),
          .statement (.declare .integer ["T1"]), .statement (.declare .integer ["T2"]),
          .statement (.declare .integer ["A"]), .statement (.declare .real ["B"]),
          .statement (.declare .literal ["S"])]) := by decide +kernel
  obtain ⟨result, text, hresult, hprogram⟩ := exists_text hgiven
  obtain ⟨code, hcode, _, hread, htyped⟩ := compile_well_typed hresult hprogram
  rw [hcode] at hwritten
  obtain ⟨hnames, hlines⟩ := Prod.mk.inj (Option.some.inj hwritten)
  refine ⟨result, text, code.allLines, hresult, hprogram, hread, hlines, htyped ?_⟩
  rw [hnames]
  decide

/-! ## Names that are declared twice -/

/-- **When every name is declared once.** If a compiler with the tables of MGol hands out a program,
then the names that are declared in its text are those of the code that was written, and none of
them is declared twice exactly if no variable is called like one of the temporaries of the code. -/
theorem compile_declares_once_iff
    (hresult : (Compiler.compile { preferences } input name j).1 = .ok result)
    (hprogram : result.program = some text) :
    ∃ code lines, written? { preferences } input j = some code ∧ text = code.program ∧
      programLines? text = some lines ∧
      (lines.map Line.body).flatMap LineBody.declared = code.declaredNames ∧
      (code.declaredNames.Nodup ↔
        ∀ k < code.temporaries.size, temporaryName k ∉ code.variableNames) := by
  obtain ⟨tokens, program, code, hdelivers⟩ := exists_delivers hresult hprogram
  exact ⟨code, code.allLines, hdelivers.written, hdelivers.text_eq, hdelivers.read,
    code.declared_allLines, CodeBuffer.nodup_declaredNames_iff hdelivers.nodup_variableNames⟩

/-- A source whose variables look like temporaries, but are called like none of its own. -/
def apartSource : String :=
  "inicio varinicio inteiro T1, T00; varfim; T1 <- T00 + 2; fim"

/-- Every name is declared once in the code of that source. -/
theorem compile_declares_once_iff_apart :
    ∃ (result : Compilation) (text : String) (code : CodeBuffer),
      (Compiler.compileText {} apartSource {}).1 = .ok result ∧ result.program = some text ∧
      text = code.program ∧ code.declaredNames = ["T0", "T1", "T00"] ∧
      code.declaredNames.Nodup := by
  have hgiven : ((Compiler.compileText {} apartSource {}).1.toOption.bind
      Compilation.program).isSome = true := by decide +kernel
  have hwritten : (written? {} ⟨Text.encode apartSource, none⟩ {}).map
      (fun code => (code.variableNames, code.temporaries)) =
        some (["T1", "T00"], #[.integer]) := by decide +kernel
  obtain ⟨result, text, hresult, hprogram⟩ := exists_text hgiven
  obtain ⟨code, lines, hcode, htext, _, _, honce⟩ := compile_declares_once_iff hresult hprogram
  rw [hcode] at hwritten
  obtain ⟨hnames, hkinds⟩ := Prod.mk.inj (Option.some.inj hwritten)
  have hdeclared : code.declaredNames = ["T0", "T1", "T00"] := by
    rw [CodeBuffer.declaredNames, hnames, hkinds]
    decide
  refine ⟨result, text, code, hresult, hprogram, htext, hdeclared, honce.mpr ?_⟩
  rw [hnames, hkinds]
  decide

/-- A source whose variable is called like its first temporary. -/
def clashSource : String := "inicio varinicio inteiro T0; varfim; T0 <- 1 + 2; fim"

/-- **A name that is declared twice**: the code of that source, which is handed out without an
error, declares the variable and the temporary by one name, and so does its text. -/
theorem compile_declares_twice :
    ∃ (result : Compilation) (text : String) (code : CodeBuffer) (lines : List Line),
      (Compiler.compileText {} clashSource {}).1 = .ok result ∧ result.program = some text ∧
      result.success = true ∧ written? {} ⟨Text.encode clashSource, none⟩ {} = some code ∧
      text = code.program ∧ programLines? text = some lines ∧
      (lines.map Line.body).flatMap LineBody.declared = ["T0", "T0"] ∧
      code.declaredNames = ["T0", "T0"] ∧ ¬code.declaredNames.Nodup := by
  have hgiven : (Compiler.compileText {} clashSource {}).1.toOption.map
      (fun result => (result.program, result.success)) =
        (written? {} ⟨Text.encode clashSource, none⟩ {}).map
          fun code => (some code.program, true) := by decide +kernel
  have hwritten : (written? {} ⟨Text.encode clashSource, none⟩ {}).map
      (fun code => (decide (programLines? code.program = some code.allLines),
        code.declaredNames)) = some (true, ["T0", "T0"]) := by decide +kernel
  obtain ⟨code, hcode, hcomputed⟩ := Option.map_eq_some_iff.mp hwritten
  obtain ⟨hread, hdeclared⟩ := Prod.mk.inj hcomputed
  rw [hcode] at hgiven
  obtain ⟨result, hresult, hprogram, hsuccess⟩ := exists_success hgiven
  refine ⟨result, code.program, code, code.allLines, hresult, hprogram, hsuccess, hcode, rfl,
    of_decide_eq_true hread, code.declared_allLines.trans hdeclared, hdeclared, ?_⟩
  rw [hdeclared]
  decide

end Compiler

end Mgol
