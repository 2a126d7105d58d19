import Mathlib.Algebra.Order.Ring.Rat
import Mathlib.Data.List.TakeWhile
import Mgol.Proofs.Compiler.Code
import Mgol.Proofs.Scanner.Lexemes

/-! # Constants in code

The numbers of a source are copied into the code as they are spelled, and C reads some spellings in
another way: an integer that begins with a zero is octal, and a number with an exponent is a
floating constant even if it has no decimal point.

* **`Target.readConstant?`** — what C makes of a constant: its type and its value.
* **`Target.decimalValue`** — the value of a number that is read in decimal.
* **`Target.Keeps`, `Target.keeps_iff`** — when a number keeps its type and value in C.
* **`Compiler.compile_keeps_constants_iff`** — the constants in the code that is handed out are
  numbers of the source, and which of them keep their type and value.
* **`Compiler.compile_alters_constants`** — a program that is handed out with constants that do
  not. -/

namespace Mgol

open Target Ast

namespace Target

/-! ## What C makes of constants -/

/-- **The types of constants in C.** An integer that is too large for an `int` has a wider type. -/
inductive ConstantType where
  | int
  | wider
  | double
  deriving DecidableEq, Repr

/-- The name of a type that variables are declared with. -/
def ConstantType.cType? : ConstantType → Option String
  | int => some "int"
  | wider => none
  | double => some "double"

/-- Whether a constant is a floating one: it has a decimal point or an exponent. -/
def isFloating (cs : List Char) : Bool := cs.any fun c => c = '.' || c = 'e' || c = 'E'

/-- Whether all characters are octal digits. -/
def isOctal (cs : List Char) : Bool := cs.all fun c => c.toNat - '0'.toNat < 8

/-- **The value of an integer constant in C.** One that begins with a zero is octal. -/
def integerValue? (cs : List Char) : Option Nat :=
  if cs.head? = some '0' then
    if isOctal cs then some (Nat.ofDigitChars 8 cs 0) else none
  else some (Nat.ofDigitChars 10 cs 0)

/-- The digits behind the decimal point of a number. -/
def fractionDigits (cs : List Char) : List Char :=
  match cs.dropWhile Char.isDigit with
  | '.' :: rest => rest.takeWhile Char.isDigit
  | _ => []

/-- The exponent of a number. -/
def exponentValue (cs : List Char) : Int :=
  match cs.dropWhile fun c => c.isDigit || c = '.' with
  | _ :: '-' :: digits => -Nat.ofDigitChars 10 digits 0
  | _ :: '+' :: digits => Nat.ofDigitChars 10 digits 0
  | _ :: digits => Nat.ofDigitChars 10 digits 0
  | [] => 0

/-- **The value of a number that is read in decimal.** -/
def decimalValue (cs : List Char) : ℚ :=
  Nat.ofDigitChars 10 (cs.takeWhile Char.isDigit ++ fractionDigits cs) 0 *
    10 ^ (exponentValue cs - (fractionDigits cs).length)

/-- **What C makes of a constant**, where the largest `int` is known. Floating constants are read in
decimal. -/
def readConstant? (intMax : Nat) (cs : List Char) : Option (ConstantType × ℚ) :=
  if isFloating cs then some (.double, decimalValue cs)
  else (integerValue? cs).map fun n => (if n ≤ intMax then .int else .wider, n)

/-- **A number that keeps its type and value** in C: C gives it the type that variables of its type
are declared with, and the value that it has in decimal. -/
def Keeps (intMax : Nat) (number : String) : Prop :=
  ∃ type, readConstant? intMax number.toList = some (type, decimalValue number.toList) ∧
    type.cType? = (Lexicon.typeOf .number number).cType?

/-! ## Digits -/

/-- The value of a number of one more digit. -/
theorem ofDigitChars_concat (b : Nat) (cs : List Char) (c : Char) :
    Nat.ofDigitChars b (cs ++ [c]) 0 =
      b * Nat.ofDigitChars b cs 0 + (c.toNat - '0'.toNat) := by
  rw [Nat.ofDigitChars_append, Nat.ofDigitChars_cons, Nat.ofDigitChars_nil]

/-- In octal a number is not larger than in decimal. -/
theorem ofDigitChars_octal_le (cs : List Char) :
    Nat.ofDigitChars 8 cs 0 ≤ Nat.ofDigitChars 10 cs 0 := by
  induction cs using List.reverseRecOn with
  | nil => exact Nat.le_refl _
  | append_singleton cs c ih =>
    rw [ofDigitChars_concat, ofDigitChars_concat]
    omega

/-- **In octal a number has the same value only if that is a single digit**, which is octal. -/
theorem octal_eq_decimal_iff (cs : List Char) :
    isOctal cs = true ∧ Nat.ofDigitChars 8 cs 0 = Nat.ofDigitChars 10 cs 0 ↔
      Nat.ofDigitChars 10 cs 0 < 8 := by
  induction cs using List.reverseRecOn with
  | nil => decide
  | append_singleton cs c ih =>
    have hle := ofDigitChars_octal_le cs
    have hoctal : isOctal (cs ++ [c]) = true ↔ isOctal cs = true ∧ c.toNat - '0'.toNat < 8 := by
      simp [isOctal]
    rw [hoctal, ofDigitChars_concat, ofDigitChars_concat]
    constructor
    · rintro ⟨⟨_, hc⟩, heq⟩
      omega
    · -- the digits in front of the last one are zeros
      intro hlt
      obtain ⟨hcs, heq⟩ := ih.mpr (by omega)
      exact ⟨⟨hcs, by omega⟩, by omega⟩

/-- An integer constant has its decimal value unless it begins with a zero and is too large. -/
theorem integerValue?_eq_iff (cs : List Char) :
    integerValue? cs = some (Nat.ofDigitChars 10 cs 0) ↔
      (cs.head? = some '0' → Nat.ofDigitChars 10 cs 0 < 8) := by
  rw [← octal_eq_decimal_iff, integerValue?]
  by_cases hzero : cs.head? = some '0'
  · by_cases hoctal : isOctal cs = true
    · simp [hzero, hoctal]
    · simp [hzero, hoctal]
  · simp [hzero]

/-- The decimal value of digits. -/
theorem decimalValue_of_digits {cs : List Char} (h : ∀ c ∈ cs, c.isDigit = true) :
    decimalValue cs = Nat.ofDigitChars 10 cs 0 := by
  have htake : cs.takeWhile Char.isDigit = cs := List.takeWhile_eq_self_iff.mpr h
  have hdrop : cs.dropWhile Char.isDigit = [] := List.dropWhile_eq_nil_iff.mpr h
  have hdrop' : (cs.dropWhile fun c => c.isDigit || c = '.') = [] :=
    List.dropWhile_eq_nil_iff.mpr fun c hc => by simp [h c hc]
  simp [decimalValue, fractionDigits, exponentValue, htake, hdrop, hdrop']

/-- **When a number keeps its type and value**: if it has a decimal point, or if it has no exponent,
is not too large for an `int`, and does not begin with a zero unless it is less than eight. -/
theorem keeps_iff (intMax : Nat) {number : String}
    (h : isFloating number.toList = false → ∀ c ∈ number.toList, c.isDigit = true) :
    Keeps intMax number ↔ '.' ∈ number.toList ∨
      (isFloating number.toList = false ∧ Nat.ofDigitChars 10 number.toList 0 ≤ intMax ∧
        (number.toList.head? = some '0' → Nat.ofDigitChars 10 number.toList 0 < 8)) := by
  generalize hcs : number.toList = cs at *
  have htype : Lexicon.typeOf .number number = if '.' ∈ cs then .real else .integer := by
    simp [Lexicon.typeOf, hcs]
  unfold Keeps readConstant?
  rw [htype, hcs]
  by_cases hpoint : '.' ∈ cs
  · have hfloating : isFloating cs = true := List.any_eq_true.mpr ⟨'.', hpoint, by decide⟩
    simp [hpoint, hfloating, ConstantType.cType?, DataType.cType?]
  · by_cases hfloating : isFloating cs = true
    · -- an exponent alone makes a floating constant of an integer
      simp [hpoint, hfloating, ConstantType.cType?, DataType.cType?]
    · have hplain := Bool.eq_false_iff.mpr hfloating
      rw [decimalValue_of_digits (h hplain), ← integerValue?_eq_iff, if_neg hfloating,
        if_neg hpoint]
      constructor
      · rintro ⟨type, hread, htype⟩
        obtain ⟨n, hn, heq⟩ := Option.map_eq_some_iff.mp hread
        obtain ⟨rfl, hvalue⟩ := Prod.mk.inj heq
        rw [← Nat.cast_injective hvalue]
        refine .inr ⟨hplain, ?_, hn⟩
        by_contra hlarge
        rw [if_neg hlarge] at htype
        cases htype
      · rintro (hmem | ⟨_, hsmall, hvalue⟩)
        · exact absurd hmem hpoint
        · exact ⟨.int, by rw [hvalue, Option.map_some, if_pos hsmall], rfl⟩

end Target

/-! ## How numbers are spelled -/

/-- **A number that is no floating constant has only digits.** -/
theorem isDigit_of_not_isFloating {w : List UInt8} (h : w ∈ TokenClass.number.language)
    (hplain : isFloating (Text.decodeLossy w).toList = false) :
    ∀ c ∈ (Text.decodeLossy w).toList, c.isDigit = true := by
  rw [toList_decodeLossy_of_ascii fun b hb => ascii_of_mem_number h hb] at hplain ⊢
  have hnone : ∀ b ∈ w, Char.ofNat b.toNat ≠ '.' ∧ Char.ofNat b.toNat ≠ 'e' ∧
      Char.ofNat b.toNat ≠ 'E' := by
    intro b hb
    have hc := List.any_eq_false.mp hplain _ (List.mem_map_of_mem hb)
    simpa [and_assoc] using hc
  have hdigits := mem_digits_of_plain h (fun hmem => (hnone _ hmem).1 (by decide))
    (fun hmem => (hnone _ hmem).2.1 (by decide)) (fun hmem => (hnone _ hmem).2.2 (by decide))
  intro c hc
  obtain ⟨b, hb, rfl⟩ := List.mem_map.mp hc
  exact ((Lexicon.char_of_byte b).2 (isDigitByte_of_mem_digits hdigits hb)).2

/-! ## Numbers in the lines of a program -/

namespace Ast

variable {x : String} {types : String → DataType} {k : Nat}

/-- An operand that begins with a digit is a number. -/
theorem Operand.word_of_digit {e : Operand} (h : beginsWith Char.isDigit e.text = true) :
    e.word = (.number, e.text) := by
  cases e with
  | name y => exact absurd y.letter (not_letter_of_digit h)
  | number n => rfl

/-- The numbers that an expression computes with, and its result if it is one, are its own. -/
theorem Expression.number_mem_words {e : Expression} (h : beginsWith Char.isDigit x = true)
    (hx : x = e.result k ∨ ∃ s ∈ e.statements k, x ∈ s.operands) : (.number, x) ∈ e.words := by
  cases e with
  | operand e =>
    obtain rfl : x = e.text := hx.resolve_right (by simp [statements])
    rw [words, ← Operand.word_of_digit h]
    exact List.mem_cons_self
  | operation left operator right =>
    rcases hx with rfl | ⟨s, hs, hx⟩
    · exact absurd (beginsWith_temporaryName k) (not_letter_of_digit h)
    · obtain rfl := List.mem_singleton.mp hs
      rcases List.mem_pair.mp hx with rfl | rfl
      · simp [words, ← Operand.word_of_digit h]
      · simp [words, ← Operand.word_of_digit h]

/-- The numbers in the statement of a comparison are its own. -/
theorem Comparison.number_mem_words {t : Comparison} (h : beginsWith Char.isDigit x = true)
    (hx : x ∈ (t.statement k).operands) : (.number, x) ∈ t.words := by
  rcases List.mem_pair.mp hx with rfl | rfl
  · simp [words, ← Operand.word_of_digit h]
  · simp [words, ← Operand.word_of_digit h]

/-- The numbers in the lines in front of a body are those of the comparison. -/
theorem Comparison.number_mem_words_of_head {t : Comparison}
    (h : beginsWith Char.isDigit x = true) {header : Header}
    (htests : header.Tests (temporaryName k)) {line : LineBody}
    (hline : line ∈ [.statement (t.statement k), .opening header]) (hx : x ∈ line.operands) :
    (.number, x) ∈ t.words := by
  rcases List.mem_pair.mp hline with rfl | rfl
  · exact number_mem_words (k := k) h hx
  · rw [htests.operands_eq] at hx
    rw [List.mem_singleton.mp hx] at h
    exact absurd (beginsWith_temporaryName k) (not_letter_of_digit h)

/-- The numbers in the statements of a command are its own. -/
theorem Command.number_mem_words {c : Command} (h : beginsWith Char.isDigit x = true)
    {s : Statement} (hs : s ∈ c.statements types k) (hx : x ∈ s.operands) :
    (.number, x) ∈ c.words := by
  match c with
  | .read y =>
    obtain rfl := List.mem_singleton.mp hs
    obtain rfl := List.mem_singleton.mp hx
    exact absurd y.letter (not_letter_of_digit h)
  | .write (.text body) =>
    obtain rfl := List.mem_singleton.mp hs
    cases hx
  | .write (.operand e) =>
    obtain rfl := List.mem_singleton.mp hs
    obtain rfl := List.mem_singleton.mp hx
    simp [words, Argument.word, ← Operand.word_of_digit h]
  | .assign y value =>
    have hvalue : x = value.result k ∨ ∃ s ∈ value.statements k, x ∈ s.operands := by
      rcases List.mem_append.mp hs with hs | hs
      · exact .inr ⟨s, hs, hx⟩
      · -- the target begins with a letter
        have hpair : x = y.text ∨ x = value.result k := by
          rw [List.mem_singleton.mp hs] at hx
          split at hx
          · exact List.mem_pair.mp hx
          · exact List.mem_pair.mp hx
        refine .inl (hpair.resolve_left ?_)
        rintro rfl
        exact not_letter_of_digit h y.letter
    have hmem := Expression.number_mem_words h hvalue
    simp [words, hmem]

/-- **The numbers in the lines of a block are its own.** -/
theorem Block.number_mem_words {b : Block} (h : beginsWith Char.isDigit x = true) {line : LineBody}
    (hline : line ∈ b.lines types k) (hx : x ∈ line.operands) : (.number, x) ∈ b.words := by
  induction b generalizing k with
  | done => cases hline
  | command c next ih =>
    rw [words]
    rcases List.mem_append.mp hline with hline | hline
    · obtain ⟨s, hs, rfl⟩ := List.mem_map.mp hline
      exact List.mem_append_left _ (Command.number_mem_words h hs hx)
    · exact List.mem_append_right _ (ih hline)
  | conditional t body next ihbody ihnext =>
    simp only [lines, List.mem_append, List.mem_cons (a := line) (b := .closing)] at hline
    rcases hline with hhead | hbody | rfl | hnext
    · have ht := Comparison.number_mem_words_of_head h (.inl rfl) hhead hx
      simp [words, conditionalHead, ht]
    · simp [words, ihbody hbody]
    · cases hx
    · simp [words, ihnext hnext]
  | loop t body next ihbody ihnext =>
    simp only [lines, List.mem_append, List.mem_cons (a := line) (b := .closing),
      List.mem_cons (a := line) (b := .statement (t.statement k)) (l := .closing :: _)] at hline
    rcases hline with hhead | hbody | rfl | rfl | hnext
    · have ht := Comparison.number_mem_words_of_head h (.inr rfl) hhead hx
      simp [words, loopHead, ht]
    · simp [words, ihbody hbody]
    · have ht := Comparison.number_mem_words (k := k) h hx
      simp [words, loopHead, ht]
    · cases hx
    · simp [words, ihnext hnext]

/-- **The numbers in the lines of a program are its own.** -/
theorem Program.number_mem_words {p : Program} (h : beginsWith Char.isDigit x = true)
    {line : LineBody} (hline : line ∈ p.lines) (hx : x ∈ line.operands) :
    (.number, x) ∈ p.words := by
  rcases List.mem_append.mp hline with hline | hline
  · obtain ⟨d, _, rfl⟩ := List.mem_map.mp hline
    cases hx
  · simp [words, Block.number_mem_words h hline hx]

end Ast

/-! ## Numbers in code -/

namespace Compiler

variable {preferences : Preferences} {input : Input} {name : String} {j : Journal}
  {result : Compilation} {text number : String} {tokens : Array (Spanned Token)}
  {program : Program} {code : CodeBuffer}

namespace Delivers

/-- A number in the code is the lexeme of a number of the source. -/
theorem exists_token {c : Compiler} (h : c.Delivers input j result text tokens program code)
    (hnumber : (.number, number) ∈ program.words) :
    ∃ t ∈ tokens, t.value.kind = .number ∧ t.value.lexeme = number := by
  rw [h.words_eq, wordsOf] at hnumber
  obtain ⟨t, ht, hword⟩ := List.mem_map.mp ((List.takeWhile_sublist _).mem hnumber)
  obtain ⟨hkind, hlexeme⟩ := Prod.mk.inj hword
  exact ⟨t, Array.mem_toList_iff.mp (List.mem_filter.mp ht).1, hkind, hlexeme⟩

/-- A number that is written out is written with its type. -/
theorem type_of_written {c : Compiler} (h : c.Delivers input j result text tokens program code)
    {type : DataType} (hline : .statement (.write type number) ∈ code.bodies)
    (hdigit : beginsWith Char.isDigit number = true) : type = Lexicon.typeOf .number number := by
  obtain ⟨front, back, heq⟩ := List.append_of_mem hline
  have haccepts := h.acceptsAll.accepts heq
  rw [List.nil_append] at haccepts
  obtain _ | _ | ⟨htyped⟩ := haccepts
  cases htyped with
  | constant => rfl
  | name declared =>
    -- a variable begins with a letter
    obtain ⟨names, hdeclare, hmem⟩ := declared
    have hname : number ∈ program.declared := by
      rw [← h.variableNames_eq, CodeBuffer.variableNames, heq]
      exact List.mem_flatMap.mpr ⟨_, List.mem_append_left _ hdeclare, hmem⟩
    exact absurd (Program.letter_of_mem_declared hname) (not_letter_of_digit hdigit)
  | @temporary k => exact absurd (beginsWith_temporaryName k) (not_letter_of_digit hdigit)

end Delivers

/-- **Which constants keep their type and value.** If a compiler with the tables of MGol hands out a
program, then its text is read as the lines of its code, and every constant in these is a number of
the source as it is spelled there, and it is written out with the conversion of its type. In C it
keeps its type and value exactly if it has a decimal point, or if it has no exponent, is not too
large for an `int`, and does not begin with a zero unless it is less than eight. -/
theorem compile_keeps_constants_iff (intMax : Nat)
    (hresult : (Compiler.compile { preferences } input name j).1 = .ok result)
    (hprogram : result.program = some text) :
    ∃ tokens code, (scannerOf { preferences } input j).scanAll.1 = .ok tokens ∧
      written? { preferences } input j = some code ∧ text = code.program ∧
      programLines? text = some code.allLines ∧
      ∀ line ∈ code.bodies, ∀ number ∈ line.operands, beginsWith Char.isDigit number = true →
        (∃ t ∈ tokens, t.value.kind = .number ∧ t.value.lexeme = number) ∧
        (∀ type, line = .statement (.write type number) →
          type = Lexicon.typeOf .number number) ∧
        (Keeps intMax number ↔ '.' ∈ number.toList ∨
          (isFloating number.toList = false ∧ Nat.ofDigitChars 10 number.toList 0 ≤ intMax ∧
            (number.toList.head? = some '0' → Nat.ofDigitChars 10 number.toList 0 < 8))) := by
  obtain ⟨tokens, program, code, hdelivers⟩ := exists_delivers hresult hprogram
  refine ⟨tokens, code, hdelivers.scanned, hdelivers.written, hdelivers.text_eq, hdelivers.read, ?_⟩
  intro line hline number hnumber hdigit
  have hlines := hline
  rw [hdelivers.lines_eq] at hlines
  have hmem := Program.number_mem_words hdigit hlines hnumber
  refine ⟨hdelivers.exists_token hmem, ?_, keeps_iff intMax fun hplain => ?_⟩
  · rintro type rfl
    exact hdelivers.type_of_written hline hdigit
  · -- the number was read from a word of its language
    have hfluent : (scannerOf { preferences } input j).Fluent :=
      Scanner.fluent_ofInput input _ _
    obtain ⟨w, hw, rfl⟩ := hdelivers.ahead.mem_language hfluent (.inr rfl) hmem
    exact isDigit_of_not_isFloating hw hplain

/-- A source with constants that mean the same in C. -/
def plainSource : String :=
  "inicio varinicio inteiro A; real B; varfim; A <- 42; B <- 010.5e1; escreva 007; fim"

/-- The constants of that source keep their type and value. -/
theorem compile_keeps_constants_iff_plain :
    ∃ (result : Compilation) (text : String) (code : CodeBuffer),
      (Compiler.compileText {} plainSource {}).1 = .ok result ∧ result.program = some text ∧
      text = code.program ∧
      code.bodies = [.statement (.declare .integer ["A"]), .statement (.declare .real ["B"]),
        .statement (.assign "A" "42"), .statement (.assign "B" "010.5e1"),
        .statement (.write .integer "007")] ∧
      Keeps 2147483647 "42" ∧ Keeps 2147483647 "010.5e1" ∧ Keeps 2147483647 "007" := by
  have hgiven : ((Compiler.compileText {} plainSource {}).1.toOption.bind
      Compilation.program).isSome = true := by decide +kernel
  have hwritten : (written? {} ⟨Text.encode plainSource, none⟩ {}).map CodeBuffer.bodies =
      some [.statement (.declare .integer ["A"]), .statement (.declare .real ["B"]),
        .statement (.assign "A" "42"), .statement (.assign "B" "010.5e1"),
        .statement (.write .integer "007")] := by decide +kernel
  obtain ⟨result, text, hresult, hprogram⟩ := exists_text hgiven
  obtain ⟨tokens, code, _, hcode, htext, _, hconstants⟩ :=
    compile_keeps_constants_iff 2147483647 hresult hprogram
  rw [hcode] at hwritten
  have hbodies := Option.some.inj hwritten
  rw [hbodies] at hconstants
  refine ⟨result, text, code, hresult, hprogram, htext, hbodies, ?_, ?_, ?_⟩
  · exact (hconstants (.statement (.assign "A" "42")) (by simp) "42" (by decide)
      (by decide)).2.2.mpr (.inr (by decide))
  · exact (hconstants (.statement (.assign "B" "010.5e1")) (by simp) "010.5e1" (by decide)
      (by decide)).2.2.mpr (.inl (by decide))
  · exact (hconstants (.statement (.write .integer "007")) (by simp) "007" (by decide)
      (by decide)).2.2.mpr (.inr (by decide))

/-- A source with constants that mean something else in C. -/
def alteredSource : String :=
  "inicio varinicio inteiro A; varfim; A <- 010; escreva 1e2; fim"

/-- **Constants that C reads in another way**: the code of that source, which is handed out without
an error, has an integer that C reads as eight instead of ten, and writes out a floating constant
with the conversion of integers. -/
theorem compile_alters_constants :
    ∃ (result : Compilation) (text : String) (code : CodeBuffer),
      (Compiler.compileText {} alteredSource {}).1 = .ok result ∧ result.program = some text ∧
      result.success = true ∧ written? {} ⟨Text.encode alteredSource, none⟩ {} = some code ∧
      text = code.program ∧ programLines? text = some code.allLines ∧
      code.bodies = [.statement (.declare .integer ["A"]), .statement (.assign "A" "010"),
        .statement (.write .integer "1e2")] ∧
      integerValue? "010".toList = some 8 ∧ isFloating "1e2".toList = true ∧
      ∀ intMax, ¬Keeps intMax "010" ∧ ¬Keeps intMax "1e2" := by
  have hgiven : (Compiler.compileText {} alteredSource {}).1.toOption.map
      (fun result => (result.program, result.success)) =
        (written? {} ⟨Text.encode alteredSource, none⟩ {}).map
          fun code => (some code.program, true) := by decide +kernel
  have hwritten : (written? {} ⟨Text.encode alteredSource, none⟩ {}).map
      (fun code => (decide (programLines? code.program = some code.allLines), code.bodies)) =
      some (true, [.statement (.declare .integer ["A"]), .statement (.assign "A" "010"),
        .statement (.write .integer "1e2")]) := by decide +kernel
  obtain ⟨code, hcode, hcomputed⟩ := Option.map_eq_some_iff.mp hwritten
  obtain ⟨hread, hbodies⟩ := Prod.mk.inj hcomputed
  rw [hcode] at hgiven
  obtain ⟨result, hresult, hprogram, hsuccess⟩ := exists_success hgiven
  refine ⟨result, code.program, code, hresult, hprogram, hsuccess, hcode, rfl,
    of_decide_eq_true hread, hbodies, by decide, by decide, fun intMax => ⟨?_, ?_⟩⟩
  · rw [keeps_iff intMax fun _ => List.all_eq_true.mp (by decide)]
    rintro (hpoint | ⟨_, _, hzero⟩)
    · exact absurd hpoint (by decide)
    · exact absurd (hzero (by decide)) (by decide)
  · rw [keeps_iff intMax fun hplain => absurd hplain (by decide)]
    rintro (hpoint | ⟨hplain, _⟩)
    · exact absurd hpoint (by decide)
    · exact absurd hplain (by decide)

end Compiler

end Mgol
