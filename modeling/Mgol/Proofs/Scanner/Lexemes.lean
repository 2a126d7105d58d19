import Mgol.Proofs.Automaton.Languages
import Mgol.Proofs.Scanner.Spelling

/-! # The lexemes of names and numbers

The words of a token class are sequences of bytes, and a token has the text that they stand for. The
words of names and numbers are ASCII, so the text has one character for each byte.

* **`Lexicon.mem_language_of_glance`, `Scanner.Ahead.mem_language`** — a word that is handed out is
  one of the language of its class.
* **`toList_decodeLossy_of_ascii`, `ascii_of_mem_number`, `exists_of_mem_identifier`** — the
  characters of names and numbers.
* **`mem_digits_of_plain`** — a number without a decimal point and without an exponent. -/

namespace Mgol

open scoped Computability

/-! ## Digits -/

/-- A word of digits has only digits. -/
theorem isDigitByte_of_mem_digits {w : List UInt8} (h : w ∈ digits) {b : UInt8} (hb : b ∈ w) :
    isDigitByte b = true := by
  by_contra hother
  have hwords : Lexicon.Avoids b ByteClass.digit.words :=
    .words (Bool.eq_false_iff.mpr hother)
  exact hwords.mul hwords.kstar w h hb

/-- A word of digits has a first one. -/
theorem ne_nil_of_mem_digits {w : List UInt8} (h : w ∈ digits) : w ≠ [] := by
  rintro rfl
  exact nil_notMem_words .digit (nil_mem_mul.mp h).1

/-- **The parts of a number**: digits, a fraction and an exponent. -/
theorem exists_of_mem_number {w : List UInt8} (h : w ∈ TokenClass.number.language) :
    ∃ d ∈ digits, ∃ f e, w = d ++ f ++ e ∧ (f = [] ∨ ∃ ds ∈ digits, f = '.'.toUInt8 :: ds) ∧
      (e = [] ∨ ∃ mark sign, ∃ ds ∈ digits, e = mark :: (sign ++ ds) ∧
        (mark = 'e'.toUInt8 ∨ mark = 'E'.toUInt8) ∧
        (sign = [] ∨ sign = ['+'.toUInt8] ∨ sign = ['-'.toUInt8])) := by
  have hchar : ∀ {c : Char} {v : List UInt8}, v ∈ (Lexicon.char c).words → v = [c.toUInt8] := by
    rintro c v ⟨b, hb, rfl⟩
    rw [Lexicon.accepts_char.mp hb]
  obtain ⟨u, hu, e, he, rfl⟩ := Language.mem_mul.mp h
  obtain ⟨d, hd, f, hf, rfl⟩ := Language.mem_mul.mp hu
  refine ⟨d, hd, f, e, rfl, ?_, ?_⟩
  · rcases (Language.mem_add _ _ f).mp hf with hnone | hfraction
    · exact .inl ((Language.mem_one f).mp hnone)
    · obtain ⟨point, hpoint, ds, hds, rfl⟩ := Language.mem_mul.mp hfraction
      rw [hchar hpoint]
      exact .inr ⟨ds, hds, rfl⟩
  · rcases (Language.mem_add _ _ e).mp he with hnone | hexponent
    · exact .inl ((Language.mem_one e).mp hnone)
    · obtain ⟨m, hm, ds, hds, rfl⟩ := Language.mem_mul.mp hexponent
      obtain ⟨mark, hmark, sign, hsign, rfl⟩ := Language.mem_mul.mp hm
      have hsigns : sign = [] ∨ sign = ['+'.toUInt8] ∨ sign = ['-'.toUInt8] := by
        rcases (Language.mem_add _ _ sign).mp hsign with hnone | hsome
        · exact .inl ((Language.mem_one sign).mp hnone)
        · exact .inr (((Language.mem_add _ _ sign).mp hsome).imp hchar hchar)
      rcases ((Language.mem_add _ _ mark).mp hmark).imp hchar hchar with rfl | rfl
      · exact .inr ⟨_, sign, ds, hds, rfl, .inl rfl, hsigns⟩
      · exact .inr ⟨_, sign, ds, hds, rfl, .inr rfl, hsigns⟩

/-- **A number without a decimal point and without an exponent has only digits.** -/
theorem mem_digits_of_plain {w : List UInt8} (h : w ∈ TokenClass.number.language)
    (hpoint : '.'.toUInt8 ∉ w) (hsmall : 'e'.toUInt8 ∉ w) (hlarge : 'E'.toUInt8 ∉ w) :
    w ∈ digits := by
  obtain ⟨d, hd, f, e, rfl, hf, he⟩ := exists_of_mem_number h
  -- a part that is there begins with a mark
  rcases hf with rfl | ⟨_, _, rfl⟩
  · rcases he with rfl | ⟨_, _, _, _, rfl, rfl | rfl, _⟩
    · rwa [List.append_nil, List.append_nil]
    · simp at hsmall
    · simp at hlarge
  · simp at hpoint

/-! ## Bytes and characters -/

/-- The bytes of a number are characters. -/
theorem ascii_of_mem_number {w : List UInt8} (h : w ∈ TokenClass.number.language) {b : UInt8}
    (hb : b ∈ w) : b.toNat < 0x80 := by
  have hdigits : ∀ {ds : List UInt8}, ds ∈ digits → b ∈ ds → b.toNat < 0x80 := fun hds hmem =>
    ((Lexicon.char_of_byte b).2 (isDigitByte_of_mem_digits hds hmem)).1
  obtain ⟨d, hd, f, e, rfl, hf, he⟩ := exists_of_mem_number h
  rcases List.mem_append.mp hb with hb | hb
  · rcases List.mem_append.mp hb with hb | hb
    · exact hdigits hd hb
    · rcases hf with rfl | ⟨ds, hds, rfl⟩
      · cases hb
      · rcases List.mem_cons.mp hb with rfl | hb
        · decide
        · exact hdigits hds hb
  · rcases he with rfl | ⟨mark, sign, ds, hds, rfl, hmark, hsign⟩
    · cases hb
    · rcases List.mem_cons.mp hb with rfl | hb
      · rcases hmark with rfl | rfl <;> decide
      · rcases List.mem_append.mp hb with hb | hb
        · rcases hsign with rfl | rfl | rfl
          · cases hb
          · rw [List.mem_singleton.mp hb]
            decide
          · rw [List.mem_singleton.mp hb]
            decide
        · exact hdigits hds hb

/-- **The bytes of a name**: a letter, and then letters, digits and underscores. -/
theorem exists_of_mem_identifier {w : List UInt8} (h : w ∈ TokenClass.identifier.language) :
    ∃ first rest, w = first :: rest ∧ isLetterByte first = true ∧
      ∀ b ∈ rest, isLetterByte b = true ∨ isDigitByte b = true ∨ b = '_'.toUInt8 := by
  obtain ⟨_, ⟨first, hfirst, rfl⟩, rest, hrest, rfl⟩ := Language.mem_mul.mp h
  refine ⟨first, rest, rfl, hfirst, fun b hb => ?_⟩
  by_contra hother
  simp only [not_or, Bool.not_eq_true] at hother
  obtain ⟨hletter, hdigit, hunderscore⟩ := hother
  have hmark : (Lexicon.char '_').accepts b = false :=
    Bool.eq_false_iff.mpr fun hmark => hunderscore (Lexicon.accepts_char.mp hmark)
  have hname : Lexicon.Avoids b nameByte :=
    ((Lexicon.Avoids.words (c := .letter) hletter).add (.words (c := .digit) hdigit)).add
      (.words hmark)
  exact hname.kstar rest hrest hb

/-- Bytes of ASCII are characters, one by one. -/
theorem toList_decodeLossy_of_ascii {w : List UInt8} (h : ∀ b ∈ w, b.toNat < 0x80) :
    (Text.decodeLossy w).toList = w.map fun b => Char.ofNat b.toNat := by
  rw [Text.decodeLossy, String.toList_ofList]
  induction w with
  | nil => rfl
  | cons b w ih =>
    rw [Text.lossyChars_cons (h b List.mem_cons_self), List.map_cons,
      ih fun c hc => h c (List.mem_cons_of_mem _ hc)]

/-! ## Words that are handed out -/

/-- **What is seen as a word is one of the words of its class.** -/
theorem Lexicon.mem_language_of_glance {failure : Option String} {p : Position}
    {bytes : List UInt8} {t : Token}
    (h : (Lexicon.mgol.glance failure p bytes).sight = .word t) :
    ∃ w ∈ t.kind.language, t.lexeme = Text.decodeLossy w := by
  obtain ⟨q, w, hrun, haccept⟩ := run_of_glance h
  have hclass : Lexicon.mgol.classOf? q = some t.kind := by
    unfold accept at haccept
    split at haccept
    · next kind hclass =>
      obtain rfl := Option.some.inj haccept
      exact hclass
    · cases haccept
  exact ⟨w, accepts_iff_mem_language.mp ⟨q, hrun, isFinal_of_classOf? hclass, hclass⟩,
    (class_of_accept haccept).2.1⟩

namespace Scanner

/-- **A name or a number that is handed out was read from a word of its language.** -/
theorem Scanned.mem_language {s s' : Scanner} {t : Spanned Token} (h : s.Scanned t s')
    (hs : s.Fluent) (hkind : t.value.kind = .identifier ∨ t.value.kind = .number) :
    ∃ w ∈ t.value.kind.language, t.value.lexeme = Text.decodeLossy w := by
  have hseen : ∀ w, s.glance.sight = .word w →
      ∃ v ∈ w.kind.language, w.lexeme = Text.decodeLossy v := by
    intro w hw
    unfold glance at hw
    simp only [hs.lexicon_eq] at hw
    exact Lexicon.mem_language_of_glance hw
  have hhanded := h.handed
  generalize s.glance.sight = sight at hhanded hseen
  generalize t.value = value at hhanded hkind ⊢
  generalize s'.registry = after at hhanded
  cases hhanded with
  | ended => simp [Token.endOfFile] at hkind
  | fault => simp [Token.ofError] at hkind
  | @name w identifier =>
    -- what the registry holds is a name or a reserved word, with the lexeme that was seen
    rw [hs.sound.lexeme_insert w]
    rcases hs.plain.insert (.inl identifier) w.lexeme (s.registry.insert w).1
        (by rw [Registry.get?_insert, if_pos rfl]) with hname | ⟨word, hword, _⟩
    · rw [hname, ← identifier]
      exact hseen w rfl
    · simp [hword] at hkind
  | word other => exact hseen _ rfl

/-- **The names and numbers ahead of a scanner are spelled as such.** -/
theorem Ahead.mem_language {s : Scanner} {words : List (TokenClass × String)} (h : s.Ahead words)
    (hs : s.Fluent) {kind : TokenClass} (hkind : kind = .identifier ∨ kind = .number)
    {lexeme : String} (hmem : (kind, lexeme) ∈ words) :
    ∃ w ∈ kind.language, lexeme = Text.decodeLossy w := by
  induction h with
  | ended => cases hmem
  | hidden scanned _ _ ih => exact ih ((scanned_of_scan scanned).fluent hs).1 hmem
  | visible scanned _ _ _ ih =>
    rcases List.mem_cons.mp hmem with hword | hmem
    · obtain ⟨rfl, rfl⟩ := Prod.mk.inj hword
      exact (scanned_of_scan scanned).mem_language hs hkind
    · exact ih ((scanned_of_scan scanned).fluent hs).1 hmem

end Scanner

end Mgol
