import Mgol.Proofs.Meaning.Translation
import Mgol.Proofs.Scanner.Lexemes
import Mgol.Proofs.Target.Reading

/-! # Translations that can be read

The lines of a translation are read back from their text as C. They are put together from names and
numbers of the source, and those are spelled in a way that C reads as one token.

* **`isWord_of_mem_identifier`, `isNumber_of_mem_number`** — names and numbers of MGol are names and
  numbers in C.
* **`Ast.LegibleWords`, `Scanner.Ahead.legibleWords`** — words that can be copied into C, and that a
  scanner hands out no others.
* **`Ast.Block.legible_lines`, `Ast.Program.legible_lines`** — the lines of a translation are
  legible. -/

namespace Mgol

open Target Ast

/-! ## How names and numbers are spelled -/

/-- A byte that goes on a name is a character that does. -/
theorem isWordChar_of_byte {b : UInt8}
    (h : isLetterByte b = true ∨ isDigitByte b = true ∨ b = '_'.toUInt8) :
    b.toNat < 0x80 ∧ isWordChar (Char.ofNat b.toNat) = true := by
  rcases h with hletter | hdigit | rfl
  · have hb := (Lexicon.char_of_byte b).1 hletter
    simp [isWordChar, Char.isAlphanum, hb]
  · have hb := (Lexicon.char_of_byte b).2 hdigit
    simp [isWordChar, Char.isAlphanum, hb]
  · decide

/-- **A name of MGol is a name in C.** -/
theorem isWord_of_mem_identifier {w : List UInt8} (h : w ∈ TokenClass.identifier.language) :
    IsWord (Text.decodeLossy w).toList := by
  obtain ⟨first, rest, rfl, hfirst, hrest⟩ := exists_of_mem_identifier h
  have hletter := (Lexicon.char_of_byte first).1 hfirst
  have hascii : ∀ b ∈ first :: rest, b.toNat < 0x80 :=
    List.forall_mem_cons.mpr ⟨hletter.1, fun b hb => (isWordChar_of_byte (hrest b hb)).1⟩
  rw [toList_decodeLossy_of_ascii hascii, List.map_cons]
  refine ⟨hletter.2, fun c hc => ?_⟩
  obtain ⟨b, hb, rfl⟩ := List.mem_map.mp hc
  exact (isWordChar_of_byte (hrest b hb)).2

/-- The characters of digits go on every number. -/
theorem goesOn_of_isDigitByte {found : List Char} {w : List UInt8}
    (h : ∀ b ∈ w, isDigitByte b = true) : GoesOn found (w.map fun b => Char.ofNat b.toNat) := by
  refine goesOn_of_isWordChar fun c hc => ?_
  obtain ⟨b, hb, rfl⟩ := List.mem_map.mp hc
  exact (isWordChar_of_byte (.inr (.inl (h b hb)))).2

/-- **A number of MGol is a number in C.** -/
theorem isNumber_of_mem_number {w : List UInt8} (h : w ∈ TokenClass.number.language) :
    IsNumber (Text.decodeLossy w).toList := by
  rw [toList_decodeLossy_of_ascii fun b hb => ascii_of_mem_number h hb]
  obtain ⟨d, hd, f, e, rfl, hf, he⟩ := exists_of_mem_number h
  obtain ⟨first, rest, rfl⟩ := List.exists_cons_of_ne_nil (ne_nil_of_mem_digits hd)
  obtain ⟨hfirst, hrest⟩ := List.forall_mem_cons.mp fun b hb => isDigitByte_of_mem_digits hd hb
  rw [List.append_assoc, List.cons_append, List.map_cons, List.map_append, List.map_append]
  refine ⟨((Lexicon.char_of_byte first).2 hfirst).2, ?_⟩
  rw [goesOn_append, goesOn_append]
  refine ⟨goesOn_of_isDigitByte hrest, ?_, ?_⟩
  · rcases hf with rfl | ⟨ds, hds, rfl⟩
    · trivial
    · exact ⟨rfl, goesOn_of_isDigitByte fun b hb => isDigitByte_of_mem_digits hds hb⟩
  · rcases he with rfl | ⟨mark, sign, ds, hds, rfl, hmark, hsign⟩
    · trivial
    · rw [List.map_cons, List.map_append]
      refine ⟨?_, ?_⟩
      · rcases hmark with rfl | rfl
        · rfl
        · rfl
      · -- a sign stands right behind the mark
        rw [goesOn_append]
        refine ⟨?_, goesOn_of_isDigitByte fun b hb => isDigitByte_of_mem_digits hds hb⟩
        rcases hsign with rfl | rfl | rfl
        · trivial
        · rcases hmark with rfl | rfl <;> exact ⟨rfl, trivial⟩
        · rcases hmark with rfl | rfl <;> exact ⟨rfl, trivial⟩

namespace Ast

/-! ## Words -/

/-- **Words that can be copied into C**: its names are names there, and its numbers are numbers. -/
structure LegibleWords (words : List Word) : Prop where
  isWord : ∀ x, (.identifier, x) ∈ words → IsWord x.toList
  isNumber : ∀ x, (.number, x) ∈ words → IsNumber x.toList

variable {words words' : List Word}

/-- Some of these words. -/
theorem LegibleWords.mono (h : LegibleWords words) (hsub : words' ⊆ words) :
    LegibleWords words' where
  isWord x hx := h.isWord x (hsub hx)
  isNumber x hx := h.isNumber x (hsub hx)

end Ast

/-- **The words ahead of a scanner can be copied into C.** -/
theorem Scanner.Ahead.legibleWords {s : Scanner} {words : List Word} (h : s.Ahead words)
    (hs : s.Fluent) : LegibleWords words where
  isWord x hx := by
    obtain ⟨w, hw, rfl⟩ := h.mem_language hs (.inl rfl) hx
    exact isWord_of_mem_identifier hw
  isNumber x hx := by
    obtain ⟨w, hw, rfl⟩ := h.mem_language hs (.inr rfl) hx
    exact isNumber_of_mem_number hw

namespace Ast

variable {words : List Word} {types : String → DataType} {k : Nat}

/-! ## Lines -/

/-- An operand is legible. -/
theorem Operand.legible {e : Operand} (h : LegibleWords words) (he : e.word ∈ words) :
    LegibleOperand e.text := by
  cases e with
  | name x => exact .inl (h.isWord x.text he)
  | number n => exact .inr (h.isNumber n.text he)

/-- An expression is computed by legible lines, and its result is legible. -/
theorem Expression.legible_statements {e : Expression} (h : LegibleWords e.words) :
    (∀ s ∈ e.statements k, LineBody.Legible (.statement s)) ∧ LegibleOperand (e.result k) := by
  cases e with
  | operand e => exact ⟨fun s hs => absurd hs List.not_mem_nil, e.legible h (by simp [words])⟩
  | operation left operator right =>
    refine ⟨List.forall_mem_singleton.mpr ?_, .inl (isWord_temporaryName k)⟩
    refine legible_compute (isWord_temporaryName k) (left.legible h (by simp [words]))
      (right.legible h (by simp [words])) ?_
    cases operator <;> decide

/-- A comparison is computed by a legible line. -/
theorem Comparison.legible_statement {t : Comparison} (h : LegibleWords t.words) :
    LineBody.Legible (.statement (t.statement k)) := by
  refine legible_compute (isWord_temporaryName k) (t.left.legible h (by simp [words]))
    (t.right.legible h (by simp [words])) ?_
  cases t.operator <;> decide

/-- **A command is translated into legible lines**, if its names have types. -/
theorem Command.legible_statements {c : Command} (h : LegibleWords c.words)
    (hc : c.Declared types) : ∀ s ∈ c.statements types k, LineBody.Legible (.statement s) := by
  match c with
  | .read x =>
    have hx : IsWord x.text.toList := h.isWord _ (by simp [words, Name.word])
    exact List.forall_mem_singleton.mpr (legible_read hc hx)
  | .write (.text body) => exact List.forall_mem_singleton.mpr (legible_writeText body)
  | .write (.operand e) =>
    exact List.forall_mem_singleton.mpr
      (legible_write (e.type_ne_untyped hc) (e.legible h (by simp [words, Argument.word])))
  | .assign x value =>
    have hx : IsWord x.text.toList := h.isWord _ (by simp [words, Name.word])
    obtain ⟨hvalue, hresult⟩ := Expression.legible_statements (k := k)
      (h.mono fun w (hw : w ∈ value.words) => by simp [words, hw])
    refine List.forall_mem_append.mpr ⟨hvalue, List.forall_mem_singleton.mpr ?_⟩
    split
    · exact legible_copy hx hresult
    · exact legible_assign hx hresult

/-- **A block is translated into legible lines**, if its names have types. -/
theorem Block.legible_lines {b : Block} (h : LegibleWords b.words) (hb : b.Declared types) :
    ∀ line ∈ b.lines types k, line.Legible := by
  induction b generalizing k with
  | done => exact fun line hline => absurd hline List.not_mem_nil
  | command c next ih =>
    refine List.forall_mem_append.mpr ⟨?_, ih (h.mono ?_) hb.2⟩
    · exact List.forall_mem_map.mpr
        (Command.legible_statements (h.mono (List.subset_append_left _ _)) hb.1)
    · exact List.subset_append_right _ _
  | conditional t body next ihbody ihnext =>
    obtain ⟨-, hbody, hnext⟩ := hb
    have hstatement := Comparison.legible_statement (t := t) (k := k)
      (h.mono fun w hw => by simp [words, conditionalHead, hw])
    have hhead : LineBody.Legible (.opening (.ifHolds (temporaryName k))) :=
      legible_opening (isWord_temporaryName k) (.inl rfl)
    have hlines := ihbody (k := k + 1) (h.mono fun w hw => by simp [words, hw]) hbody
    have hrest := ihnext (k := k + (1 + body.temporaries))
      (h.mono fun w hw => by simp [words, hw]) hnext
    simp only [lines, List.forall_mem_append, List.forall_mem_cons]
    exact ⟨⟨hstatement, hhead, by simp⟩, hlines, legible_closing, hrest⟩
  | loop t body next ihbody ihnext =>
    obtain ⟨-, hbody, hnext⟩ := hb
    have hstatement := Comparison.legible_statement (t := t) (k := k)
      (h.mono fun w hw => by simp [words, loopHead, hw])
    have hhead : LineBody.Legible (.opening (.whileHolds (temporaryName k))) :=
      legible_opening (isWord_temporaryName k) (.inr rfl)
    have hlines := ihbody (k := k + 1) (h.mono fun w hw => by simp [words, hw]) hbody
    have hrest := ihnext (k := k + (1 + body.temporaries))
      (h.mono fun w hw => by simp [words, hw]) hnext
    simp only [lines, List.forall_mem_append, List.forall_mem_cons]
    exact ⟨⟨hstatement, hhead, by simp⟩, hlines, hstatement, legible_closing, hrest⟩

/-- The names of a declaration are among its words. -/
theorem mem_nameWords {names : List Name} {x : Name} (h : x ∈ names) :
    x.word ∈ nameWords names := by
  induction names using nameWords.induct with
  | case1 => cases h
  | case2 y =>
    obtain rfl := List.mem_singleton.mp h
    exact List.mem_cons_self
  | case3 y rest hmore ih =>
    rw [nameWords]
    · rcases List.mem_cons.mp h with rfl | h
      · exact List.mem_cons_self
      · exact List.mem_cons_of_mem _ (List.mem_cons_of_mem _ (ih h))
    · exact hmore

/-- A declaration is translated into a legible line. -/
theorem Declaration.legible_line {d : Declaration} (h : LegibleWords d.words) :
    d.line.Legible := by
  refine legible_declare d.typed (mt List.map_eq_nil_iff.mp d.named) ?_
  refine List.forall_mem_map.mpr fun x hx => h.isWord _ ?_
  exact List.mem_cons_of_mem _ (List.mem_append_left _ (mem_nameWords hx))

/-- **A program is translated into legible lines**, if its names have types. -/
theorem Program.legible_lines {p : Program} (h : LegibleWords p.words)
    (hp : p.main.Declared p.types) : ∀ line ∈ p.lines, line.Legible := by
  refine List.forall_mem_append.mpr ⟨List.forall_mem_map.mpr fun d hd => ?_, ?_⟩
  · refine Declaration.legible_line (h.mono fun w hw => ?_)
    have hmem : w ∈ p.declarations.flatMap Declaration.words := List.mem_flatMap.mpr ⟨d, hd, hw⟩
    simp [words, hmem]
  · exact Block.legible_lines (h.mono fun w hw => by simp [words, hw]) hp

/-- **The text of a program is read back**, if its lines are those of a translation whose words a
scanner hands out. -/
theorem Program.programLines?_of_lines_eq {p : Program} {code : CodeBuffer}
    (hlines : code.lines.toList.map Line.body = p.lines) (hp : p.main.Declared p.types)
    {s : Scanner} (hs : s.Fluent) (hahead : s.Ahead p.words) :
    programLines? code.program = some code.allLines := by
  refine CodeBuffer.programLines?_program fun l hl => ?_
  refine p.legible_lines (hahead.legibleWords hs) hp l.body ?_
  rw [← hlines]
  exact List.mem_map_of_mem hl

end Ast

end Mgol
