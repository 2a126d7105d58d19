import Mgol.Compiler.Basic
import Mgol.Proofs.Meaning.Legible
import Mgol.Proofs.Meaning.Parse

/-! # Compilers preserve meaning

The text that a compiler hands out, read as C, does what the program that was compiled does.

* **`Compiler.written?`** — the code that a compilation has written.
* **`Target.Means`** — a text that does what a program does.
* **`Compiler.compile_preserves_meaning`** — every program that is handed out means the same as the
  only program with the words of its source. -/

namespace Mgol

open Machine Target Ast

/-! ## Names of temporaries -/

/-- **A name that looks like a temporary**: a `T` and digits. -/
def IsTemporary (name : String) : Prop :=
  ∃ digits : List Char, digits ≠ [] ∧ (∀ c ∈ digits, c.isDigit = true) ∧
    name = String.ofList ('T' :: digits)

/-- Temporaries look like temporaries. -/
theorem isTemporary_temporaryName (k : Nat) : IsTemporary (temporaryName k) := by
  refine ⟨Nat.toDigits 10 k, Nat.toDigits_ne_nil, fun c hc => ?_, ?_⟩
  · exact Nat.isDigit_of_mem_toDigits (by decide) (by decide) hc
  · rw [temporaryName, Nat.toString_eq_ofList_toDigits, String.ofList_cons]
    rfl

/-- Other names are none of the temporaries. -/
theorem visible_of_not_isTemporary {name : String} (h : ¬IsTemporary name) : Visible name := by
  rintro k rfl
  exact h (isTemporary_temporaryName k)

/-! ## What is handed out -/

/-- **A text that means the same as a program**: read as C, it has a body which, whatever constants
and operators mean and whatever store and input it begins with, reads and writes the same, ends
exactly when the program does and leaves the same values of the variables that are declared. -/
def Target.Means (text : String) (p : Program) : Prop :=
  ∃ lines body, programLines? text = some lines ∧
    Body.ofLines? (lines.map Line.body) = some body ∧
    ∀ (Value Input : Type) (m : Interpretation Value Input) (n : Nat) (w : World Value Input),
      (p.run m n w).Alike (· ∈ p.declared) (body.run m n w)

/-- **Lines of a translation mean the same as the program**, behind the declarations of their
temporaries, if its names have types and none of them looks like a temporary. -/
theorem Target.means_of_lines_eq {p : Program} {code : CodeBuffer} {text : String}
    (hread : programLines? text = some code.allLines)
    (hlines : code.lines.toList.map Line.body = p.lines) (hp : p.main.Declared p.types)
    (hnames : ∀ x ∈ p.declared, ¬IsTemporary x) : Means text p := by
  have hdeclare : ∀ s ∈ CodeBuffer.declarationStatements 0 code.temporaries.toList,
      ∃ type names, s = .declare type names := by
    intro s hs
    obtain ⟨i, kind, -, rfl⟩ := CodeBuffer.mem_declarationStatements.mp hs
    exact ⟨_, _, rfl⟩
  refine ⟨code.allLines, (CodeBuffer.declarationStatements 0 code.temporaries.toList).foldr
    Body.statement p.body, hread, ?_, fun Value Input m n w => ?_⟩
  · rw [CodeBuffer.map_body_allLines, CodeBuffer.bodies, hlines]
    refine ofLines?_append (fun s hs text => ?_) p.ofLines?_lines
    obtain ⟨type, names, rfl⟩ := hdeclare s hs
    simp
  · -- no temporary is one of the declared variables
    have hvisible : ∀ x ∈ p.declared, Visible x := fun x hx =>
      visible_of_not_isTemporary (hnames x hx)
    rw [run_foldr_statement, foldl_run_declare m hdeclare]
    exact (p.run_body m hp hvisible n w).mono hvisible

/-- A parse gives a program only if it was accepted and nothing was wrong. -/
theorem ParseOutcome.of_programOf {p : ParseState} {accepted : Bool} {text : String}
    (h : programOf p accepted = some text) :
    accepted = true ∧ p.diagnostics = #[] ∧ p.executor.work.errorCount = 0 ∧
      p.executor.work.code.program = text := by
  unfold programOf at h
  obtain ⟨haccepted, hprogram⟩ := Option.ite_none_right_eq_some.mp h
  unfold Executor.program? at hprogram
  obtain ⟨herrors, htext⟩ := Option.ite_none_left_eq_some.mp hprogram
  rw [Bool.and_eq_true, Array.isEmpty_iff] at haccepted
  refine ⟨haccepted.1, haccepted.2, ?_, Option.some.inj htext⟩
  rw [Executor.hasErrors, decide_eq_true_eq] at herrors
  exact Nat.eq_zero_of_not_pos herrors

/-- **Where the program of a parse comes from**: the parse was accepted without an error, and the
text is that of the code that was written. -/
theorem accepted_of_parse {scanner : Scanner} {tables : DecisionTables} {o : SyntaxOptions}
    {outcome : ParseOutcome} {j : Journal} {text : String}
    (hparse : parse scanner tables o = (.ok outcome, j)) (hprogram : outcome.program = some text) :
    ∃ p j' p', startState scanner (.mgol o.effectiveCapacity) o.effectiveCapacity = (.ok p, j') ∧
      p.run tables o Limits.parseMoves = .accepted p' ∧ p'.diagnostics = #[] ∧
      p'.executor.work.errorCount = 0 ∧ p'.executor.work.code.program = text := by
  unfold parse parseWith parseWithin at hparse
  cases hstart : startState scanner (.mgol o.effectiveCapacity) o.effectiveCapacity with
  | mk started j' =>
    rw [hstart] at hparse
    cases started with
    | error e => cases hparse
    | ok p =>
      cases hrun : p.run tables o Limits.parseMoves with
      | accepted p' =>
        simp only [hrun] at hparse
        cases hparse
        obtain ⟨_, hsilent, hclean, htext⟩ := ParseOutcome.of_programOf hprogram
        exact ⟨p, j', p', rfl, hrun, hsilent, hclean, htext⟩
      | abandoned p' =>
        simp only [hrun] at hparse
        cases hparse
        have habandoned : ParseOutcome.programOf p' false = some text := hprogram
        cases (ParseOutcome.of_programOf habandoned).1
      | failed e p' =>
        simp only [hrun] at hparse
        cases hparse

namespace Compiler

/-- The scanner of an input. -/
def scannerOf (c : Compiler) (input : Input) (j : Journal) : Scanner :=
  .ofInput input .mgol { journal := j.note automatonNote } c.preferences.lexical

/-- **The code that a compilation has written** when its parse is accepted. -/
def written? (c : Compiler) (input : Input) (j : Journal) : Option CodeBuffer :=
  let o := c.preferences.syntactic
  match startState (c.scannerOf input j) (.mgol o.effectiveCapacity) o.effectiveCapacity with
  | (.error _, _) => none
  | (.ok p, _) =>
    match p.run c.tables o Limits.parseMoves with
    | .accepted p => some p.executor.work.code
    | _ => none

variable {preferences : Preferences} {input : Input} {name : String} {j : Journal}
  {result : Compilation} {text : String}

/-- **Where a program comes from**: the parse was accepted without an error, and the text is that of
the code that was written. -/
theorem accepted_of_program {c : Compiler} (hresult : (c.compile input name j).1 = .ok result)
    (hprogram : result.program = some text) :
    ∃ p j' p', startState (c.scannerOf input j) (.mgol c.preferences.syntactic.effectiveCapacity)
        c.preferences.syntactic.effectiveCapacity = (.ok p, j') ∧
      p.run c.tables c.preferences.syntactic Limits.parseMoves = .accepted p' ∧
      p'.diagnostics = #[] ∧ p'.executor.work.errorCount = 0 ∧
      p'.executor.work.code.program = text := by
  -- a program is only left out, never made, behind the parse
  obtain ⟨outcome, j', hparse, houtcome⟩ : ∃ outcome j',
      c.parseInput input j = (.ok outcome, j') ∧ outcome.program = some text := by
    unfold compile at hresult
    cases hparse : c.parseInput input j with
    | mk parsed j' =>
      rw [hparse] at hresult
      cases parsed with
      | error e => cases hresult
      | ok outcome =>
        refine ⟨outcome, j', rfl, ?_⟩
        obtain rfl := Except.ok.inj hresult
        exact (Option.ite_none_right_eq_some.mp hprogram).2
  exact accepted_of_parse hparse houtcome

/-- **Compilers preserve meaning.** If a compiler with the tables of MGol hands out a program, then
the words of its source are those of exactly one program, the text is that of the code that was
written, and read as C the text means the same as the program, unless a variable is declared that
looks like a temporary. -/
theorem compile_preserves_meaning
    (hresult : (Compiler.compile { preferences } input name j).1 = .ok result)
    (hprogram : result.program = some text) :
    ∃ tokens program code,
      (scannerOf { preferences } input j).scanAll.1 = .ok tokens ∧
      (∀ other : Program, other.words = wordsOf tokens.toList ↔ other = program) ∧
      written? { preferences } input j = some code ∧ text = code.program ∧
      ((∀ x ∈ program.declared, ¬IsTemporary x) → Means text program) := by
  obtain ⟨p, j', p', hstart, hrun, hsilent, hclean, htext⟩ := accepted_of_program hresult hprogram
  have hfluent : (scannerOf { preferences } input j).Fluent :=
    ⟨rfl, Registry.sound_reserved, Registry.plain_reserved⟩
  rcases startState_cases (scannerOf { preferences } input j)
      (.mgol preferences.syntactic.effectiveCapacity) preferences.syntactic with
    ⟨t, s, states, hfound, _, hitems, hcapacity, hstart'⟩ | ⟨e, s, _, hstart'⟩
  · cases hstart'.symm.trans hstart
    -- the accepted parse has written the lines of a program whose words were ahead
    obtain ⟨program, hahead, hdeclared, hlines⟩ := ParseState.program_of_run
      (safe_of_startState hfluent.sound hfound hitems hcapacity)
      (ParseState.composes_of_start hfluent Registry.typeOf_reserved hfound) hrun hsilent hclean
    obtain ⟨tokens, hscan, hwords⟩ := hfluent.scanAll hahead
    refine ⟨tokens, program, p'.executor.work.code, hscan, fun other => ?_, ?_, htext.symm,
      means_of_lines_eq ?_ hlines hdeclared⟩
    · rw [hwords]
      exact ⟨Program.eq_of_words, fun h => by rw [h]⟩
    · unfold written?
      simp only [hstart, hrun]
    · rw [← htext]
      exact program.programLines?_of_lines_eq hlines hdeclared hfluent hahead
  · cases hstart'.symm.trans hstart

/-- A program that reads a number, counts down from it and writes every number but two. -/
def countdown : Program where
  declarations := [⟨.integer, [⟨"A", rfl⟩], by decide, by decide⟩]
  main :=
    .command (.read ⟨"A", rfl⟩)
      (.loop ⟨.name ⟨"A", rfl⟩, .greater, .number ⟨"0", rfl⟩⟩
        (.command (.assign ⟨"A", rfl⟩ (.operation (.name ⟨"A", rfl⟩) .minus (.number ⟨"1", rfl⟩)))
          (.conditional ⟨.name ⟨"A", rfl⟩, .different, .number ⟨"2", rfl⟩⟩
            (.command (.write (.operand (.name ⟨"A", rfl⟩))) .done) .done))
        .done)

/-- A source of that program. -/
def countdownSource : String :=
  "inicio varinicio inteiro A; varfim; leia A; repita (A > 0) A <- A - 1; "
    ++ "se (A <> 2) entao escreva A; fimse fimrepita fim"

/-- The text that is handed out for the countdown means the same as the countdown. -/
theorem compile_preserves_meaning_countdown :
    ∃ (result : Compilation) (text : String),
      (Compiler.compileText {} countdownSource {}).1 = .ok result ∧
      result.program = some text ∧ Means text countdown := by
  have hgiven : ((Compiler.compileText {} countdownSource {}).1.toOption.bind
      Compilation.program).isSome = true := by decide +kernel
  have hread : (scannerOf {} ⟨Text.encode countdownSource, none⟩ {}).scanAll.1.toOption.map
      (fun tokens => wordsOf tokens.toList) = some countdown.words := by decide +kernel
  obtain ⟨text, htext⟩ := Option.isSome_iff_exists.mp hgiven
  obtain ⟨result, hresult, hprogram⟩ := Option.bind_eq_some_iff.mp htext
  have hok : (Compiler.compileText {} countdownSource {}).1 = .ok result := by
    cases hcompiled : (Compiler.compileText {} countdownSource {}).1 with
    | error e =>
      rw [hcompiled] at hresult
      cases hresult
    | ok result' =>
      rw [hcompiled] at hresult
      rw [Option.some.inj hresult]
  obtain ⟨tokens, program, code, hscan, hunique, _, _, hmeans⟩ :=
    compile_preserves_meaning hok hprogram
  rw [hscan] at hread
  obtain rfl : countdown = program := (hunique countdown).mp (Option.some.inj hread).symm
  refine ⟨result, text, hok, hprogram, hmeans ?_⟩
  intro x hx
  obtain rfl : x = "A" := List.mem_singleton.mp hx
  rintro ⟨digits, _, _, hname⟩
  have hchars : ['A'] = 'T' :: digits := by
    rw [← String.toList_ofList (l := 'T' :: digits), ← hname]
    rfl
  exact absurd (List.cons.inj hchars).1 (by decide)

end Compiler

end Mgol
