import Mathlib.Computability.Language
import Mgol.Proofs.Automaton.Deterministic
import Mgol.Proofs.Text.Utf8

/-! # The languages of the token classes

The words of MGol as regular languages over bytes, and the automaton that tells them apart.

* **`TokenClass.language`** — the words of a class, written as a regular expression.
* **`Lexicon.Stage.reading`, `Lexicon.run_eq_some_iff`** — the words that lead to a state: one
  equation a state, each given by the states and transitions before it.
* **`Lexicon.mem_language_iff`** — a class has the words that lead to its final states.
* **`Lexicon.mgol_accepts_languages`** — what the automaton accepts, class by class. -/

namespace Mgol

open scoped Computability

open Lexicon (char)

/-- The words of one byte that a class of bytes names. -/
def ByteClass.words (c : ByteClass) : Language UInt8 := {w | ∃ b, c.accepts b = true ∧ w = [b]}

/-- The words of one byte that is not a given one. -/
def anyBut (b : UInt8) : Language UInt8 := {w | ∃ c, c ≠ b ∧ w = [c]}

/-- The words of a few spellings. -/
def spelled (spellings : List String) : Language UInt8 := {w | ∃ s ∈ spellings, w = Text.encode s}

/-! ## The token classes -/

/-- `D+` -/
def digits : Language UInt8 := ByteClass.digit.words * ByteClass.digit.words∗

/-- `'.' D+` -/
def fractionPart : Language UInt8 := (char '.').words * digits

/-- `[eE]` -/
def exponentMark : Language UInt8 := (char 'e').words + (char 'E').words

/-- `[+-]` -/
def exponentSign : Language UInt8 := (char '+').words + (char '-').words

/-- `[eE] [+-]? D+` -/
def exponentPart : Language UInt8 := exponentMark * (1 + exponentSign) * digits

/-- The bytes of a name behind its first one. -/
def nameByte : Language UInt8 :=
  ByteClass.letter.words + ByteClass.digit.words + (char '_').words

/-- **The words of a token class.** Reserved words are spelled like names, and the other classes are
not read from a source. -/
def TokenClass.language : TokenClass → Language UInt8
  | identifier => ByteClass.letter.words * nameByte∗
  | number => digits * (1 + fractionPart) * (1 + exponentPart)
  | literal => (char '"').words * (anyBut '"'.toUInt8)∗ * (char '"').words
  | comment => (char '\x7b').words * (anyBut '\x7d'.toUInt8)∗ * (char '\x7d').words
  | relational => spelled ["<", ">", "=", "<=", ">=", "<>"]
  | assignment => spelled ["<-"]
  | arithmetic => spelled ["+", "-", "*", "/"]
  | openParen => spelled ["("]
  | closeParen => spelled [")"]
  | semicolon => spelled [";"]
  | comma => spelled [","]
  | endOfFile | error | nonterminal | keyword _ => 0

/-! ## Words and their last bytes -/

/-- What is left over is not named. -/
@[simp] theorem ByteClass.accepts_other (b : UInt8) : other.accepts b = false := rfl

/-- The last byte of a word of a product. -/
theorem concat_mem_mul_words {l : Language UInt8} {c : ByteClass} {w : List UInt8} {b : UInt8} :
    w ++ [b] ∈ l * c.words ↔ w ∈ l ∧ c.accepts b = true := by
  rw [Language.mem_mul]
  constructor
  · rintro ⟨v, hv, _, ⟨d, hd, rfl⟩, heq⟩
    obtain ⟨rfl, hdb⟩ := List.append_inj' heq rfl
    obtain rfl := (List.cons.inj hdb).1
    exact ⟨hv, hd⟩
  · rintro ⟨hw, hb⟩
    exact ⟨w, hw, [b], ⟨b, hb, rfl⟩, rfl⟩

/-- The last byte of a word that any byte but one may end. -/
theorem concat_mem_mul_anyBut {l : Language UInt8} {c : UInt8} {w : List UInt8} {b : UInt8} :
    w ++ [b] ∈ l * anyBut c ↔ w ∈ l ∧ b ≠ c := by
  rw [Language.mem_mul]
  constructor
  · rintro ⟨v, hv, _, ⟨d, hd, rfl⟩, heq⟩
    obtain ⟨rfl, hdb⟩ := List.append_inj' heq rfl
    obtain rfl := (List.cons.inj hdb).1
    exact ⟨hv, hd⟩
  · rintro ⟨hw, hb⟩
    exact ⟨w, hw, [b], ⟨b, hb, rfl⟩, rfl⟩

/-- Repetitions end at once or with one more word. -/
theorem mul_kstar_eq (l m : Language UInt8) : l * m∗ = l + l * m∗ * m := by
  conv_lhs => rw [← Language.one_add_kstar_mul_self_eq_kstar m]
  rw [mul_add, mul_one, mul_assoc]

/-- The empty word ends with no byte. -/
theorem nil_notMem_words (c : ByteClass) : [] ∉ c.words := by
  rintro ⟨b, _, h⟩
  cases h

/-- The empty word is in a product if it is in both parts. -/
theorem nil_mem_mul {l m : Language UInt8} : [] ∈ l * m ↔ [] ∈ l ∧ [] ∈ m := by
  rw [Language.mem_mul]
  constructor
  · rintro ⟨a, ha, b, hb, heq⟩
    obtain ⟨rfl, rfl⟩ := List.append_eq_nil_iff.mp heq
    exact ⟨ha, hb⟩
  · rintro ⟨hl, hm⟩
    exact ⟨[], hl, [], hm, rfl⟩

namespace Lexicon

/-! ## The states of the automaton -/

/-- **The words that lead to a state.** -/
def Stage.reading : Stage → Language UInt8
  | .start => 1
  | .identifier => ByteClass.letter.words * nameByte∗
  | .integer => digits
  | .decimalPoint => digits * (char '.').words
  | .fraction => digits * fractionPart
  | .exponent => (digits + digits * fractionPart) * exponentMark
  | .exponentSign => (digits + digits * fractionPart) * exponentMark * Mgol.exponentSign
  | .exponentDigits => (digits + digits * fractionPart) * exponentPart
  | .less => (char '<').words
  | .lessCompound => (char '<').words * ((char '>').words + (char '=').words)
  | .greater => (char '>').words
  | .greaterEqual => (char '>').words * (char '=').words
  | .equal => (char '=').words
  | .assignment => (char '<').words * (char '-').words
  | .arithmetic => (char '+').words + (char '-').words + (char '*').words + (char '/').words
  | .openParen => (char '(').words
  | .closeParen => (char ')').words
  | .semicolon => (char ';').words
  | .comma => (char ',').words
  | .commentBody => (char '\x7b').words * (anyBut '\x7d'.toUInt8)∗
  | .comment => (char '\x7b').words * (anyBut '\x7d'.toUInt8)∗ * (char '\x7d').words
  | .literalBody => (char '"').words * (anyBut '"'.toUInt8)∗
  | .literal => (char '"').words * (anyBut '"'.toUInt8)∗ * (char '"').words

/-- The numbers of states tell their transitions apart. -/
theorem edge_inj {p q p' q' : Stage} {c c' : ByteClass} :
    edge p c q = edge p' c' q' ↔ p = p' ∧ c = c' ∧ q = q' := by
  constructor
  · intro h
    obtain ⟨hp, hc, hq⟩ := Transition.mk.inj h
    exact ⟨Stage.number_injective hp, hc, Stage.number_injective hq⟩
  · rintro ⟨rfl, rfl, rfl⟩
    rfl

/-- Every transition leads from state to state. -/
theorem exists_edge {t : Transition} (h : t ∈ mgolTransitions) : ∃ p c q, t = edge p c q := by
  simp only [mgolTransitions, List.mem_cons, List.not_mem_nil, or_false] at h
  repeat' rcases h with rfl | h
  all_goals exact ⟨_, _, _, rfl⟩

/-- A comment goes on until a brace closes it. -/
theorem edge_commentBody_iff {c : ByteClass} {q : Stage} :
    edge .commentBody c q ∈ mgolTransitions ↔
      c = char '\x7d' ∧ q = .comment ∨ c = .other ∧ q = .commentBody := by
  simp [mgolTransitions, edge_inj]

/-- A text goes on until a quote closes it. -/
theorem edge_literalBody_iff {c : ByteClass} {q : Stage} :
    edge .literalBody c q ∈ mgolTransitions ↔
      c = char '"' ∧ q = .literal ∨ c = .other ∧ q = .literalBody := by
  simp [mgolTransitions, edge_inj]

/-- Only comments and texts have a transition for the bytes that are left over. -/
theorem edge_other_iff {p q : Stage} :
    edge p .other q ∈ mgolTransitions ↔
      p = .commentBody ∧ q = .commentBody ∨ p = .literalBody ∧ q = .literalBody := by
  simp [mgolTransitions, edge_inj, char]

/-- A character is read at its byte. -/
theorem accepts_char {c : Char} {b : UInt8} : (char c).accepts b = true ↔ b = c.toUInt8 := by
  rw [char, ByteClass.accepts, beq_iff_eq, eq_comm]

/-- What is left over in a comment or a text is any byte but the one that ends it. -/
theorem left_over_iff {p q : Stage} {b : UInt8} :
    (edge p .other q ∈ mgolTransitions ∧
        ∀ c r, edge p c r ∈ mgolTransitions → c.accepts b = false) ↔
      p = .commentBody ∧ q = .commentBody ∧ b ≠ '\x7d'.toUInt8 ∨
        p = .literalBody ∧ q = .literalBody ∧ b ≠ '"'.toUInt8 := by
  rw [edge_other_iff]
  constructor
  · rintro ⟨⟨rfl, rfl⟩ | ⟨rfl, rfl⟩, h⟩
    · have hbrace := h _ _ (edge_commentBody_iff.mpr (.inl ⟨rfl, rfl⟩))
      exact .inl ⟨rfl, rfl, fun hb => by rw [accepts_char.mpr hb] at hbrace; cases hbrace⟩
    · have hquote := h _ _ (edge_literalBody_iff.mpr (.inl ⟨rfl, rfl⟩))
      exact .inr ⟨rfl, rfl, fun hb => by rw [accepts_char.mpr hb] at hquote; cases hquote⟩
  · rintro (⟨rfl, rfl, hb⟩ | ⟨rfl, rfl, hb⟩)
    · refine ⟨.inl ⟨rfl, rfl⟩, fun c r hmem => ?_⟩
      rcases edge_commentBody_iff.mp hmem with ⟨rfl, _⟩ | ⟨rfl, _⟩
      · exact Bool.eq_false_iff.mpr (mt accepts_char.mp hb)
      · rfl
    · refine ⟨.inr ⟨rfl, rfl⟩, fun c r hmem => ?_⟩
      rcases edge_literalBody_iff.mp hmem with ⟨rfl, _⟩ | ⟨rfl, _⟩
      · exact Bool.eq_false_iff.mpr (mt accepts_char.mp hb)
      · rfl

/-- **A move between states** is a transition that names the byte, or it goes on with a comment or a
text. -/
theorem next_number_iff {p q : Stage} {b : UInt8} :
    mgolAutomaton.next p.number b = some q.number ↔
      (∃ c, edge p c q ∈ mgolTransitions ∧ c.accepts b = true) ∨
        p = .commentBody ∧ q = .commentBody ∧ b ≠ '\x7d'.toUInt8 ∨
          p = .literalBody ∧ q = .literalBody ∧ b ≠ '"'.toUInt8 := by
  have hdeterministic : Automaton.Deterministic mgolAutomaton.transitions :=
    Automaton.deterministic_of_tableError? tableError?_mgol
  rw [Automaton.next_eq_some_iff hdeterministic, ← left_over_iff]
  -- a transition of the table with these numbers is one between these states
  constructor
  · rintro (⟨t, ht, hsource, htarget, hreads⟩ | ⟨hnone, t, ht, hsource, htarget, hreads⟩)
    · obtain ⟨p', c, q', rfl⟩ := exists_edge ht
      obtain rfl := Stage.number_injective hsource
      obtain rfl := Stage.number_injective htarget
      exact .inl ⟨c, ht, hreads⟩
    · obtain ⟨p', c, q', rfl⟩ := exists_edge ht
      obtain rfl := Stage.number_injective hsource
      obtain rfl := Stage.number_injective htarget
      obtain rfl : c = .other := hreads
      exact .inr ⟨ht, fun c r hmem => hnone _ hmem rfl⟩
  · rintro (⟨c, hmem, hreads⟩ | ⟨hmem, hnone⟩)
    · exact .inl ⟨_, hmem, rfl, rfl, hreads⟩
    · refine .inr ⟨fun t ht hsource => ?_, _, hmem, rfl, rfl, rfl⟩
      obtain ⟨p', c, q', rfl⟩ := exists_edge ht
      obtain rfl := Stage.number_injective hsource
      exact hnone c q' ht

/-- Digits at the end end with a digit, and what is before it are digits again or none. -/
theorem mul_digits_eq (l : Language UInt8) :
    l * digits = (l + l * digits) * ByteClass.digit.words := by
  have hdigits : digits = ByteClass.digit.words + digits * ByteClass.digit.words :=
    mul_kstar_eq _ _
  conv_lhs => rw [hdigits]
  rw [mul_add, add_mul, mul_assoc]

/-- **The words that lead to a state, by their last byte**: the states before it and the bytes that
go on from them. -/
def Stage.incoming : Stage → Language UInt8
  | .start => 1
  | .identifier =>
    Stage.start.reading * ByteClass.letter.words + Stage.identifier.reading * nameByte
  | .integer =>
    (Stage.start.reading + Stage.integer.reading) * ByteClass.digit.words
  | .decimalPoint => Stage.integer.reading * (char '.').words
  | .fraction =>
    (Stage.decimalPoint.reading + Stage.fraction.reading) * ByteClass.digit.words
  | .exponent => (Stage.integer.reading + Stage.fraction.reading) * exponentMark
  | .exponentSign => Stage.exponent.reading * Mgol.exponentSign
  | .exponentDigits =>
    (Stage.exponent.reading + Stage.exponentSign.reading + Stage.exponentDigits.reading)
      * ByteClass.digit.words
  | .lessCompound => Stage.less.reading * ((char '>').words + (char '=').words)
  | .greaterEqual => Stage.greater.reading * (char '=').words
  | .assignment => Stage.less.reading * (char '-').words
  | .commentBody =>
    Stage.start.reading * (char '\x7b').words + Stage.commentBody.reading * anyBut '\x7d'.toUInt8
  | .comment => Stage.commentBody.reading * (char '\x7d').words
  | .literalBody =>
    Stage.start.reading * (char '"').words + Stage.literalBody.reading * anyBut '"'.toUInt8
  | .literal => Stage.literalBody.reading * (char '"').words
  | .less => Stage.start.reading * (char '<').words
  | .greater => Stage.start.reading * (char '>').words
  | .equal => Stage.start.reading * (char '=').words
  | .arithmetic =>
    Stage.start.reading
      * ((char '+').words + (char '-').words + (char '*').words + (char '/').words)
  | .openParen => Stage.start.reading * (char '(').words
  | .closeParen => Stage.start.reading * (char ')').words
  | .semicolon => Stage.start.reading * (char ';').words
  | .comma => Stage.start.reading * (char ',').words

/-- Every state solves its equation. -/
theorem reading_eq_incoming (q : Stage) : q.reading = q.incoming := by
  cases q with
  | identifier | commentBody | literalBody =>
    rw [Stage.incoming, Stage.reading, Stage.reading, one_mul]
    exact mul_kstar_eq _ _
  | integer =>
    rw [Stage.incoming, Stage.reading, Stage.reading]
    simpa only [one_mul] using mul_digits_eq 1
  | fraction =>
    simp only [Stage.incoming, Stage.reading, fractionPart, ← mul_assoc]
    exact mul_digits_eq _
  | exponentDigits =>
    simp only [Stage.incoming, Stage.reading, exponentPart, ← mul_assoc]
    refine (mul_digits_eq _).trans ?_
    simp only [mul_add, mul_one]
  | start | decimalPoint | exponent | exponentSign | lessCompound | greaterEqual | assignment
  | comment | literal => rfl
  | less | greater | equal | arithmetic | openParen | closeParen | semicolon | comma =>
    exact (one_mul _).symm

/-- A word leads to a state if what is before its last byte leads to a state from which that byte
goes on. -/
theorem concat_mem_reading_iff {q : Stage} {w : List UInt8} {b : UInt8} :
    w ++ [b] ∈ q.reading ↔
      ∃ p : Stage, w ∈ p.reading ∧ mgolAutomaton.next p.number b = some q.number := by
  rw [reading_eq_incoming]
  simp only [next_number_iff, mgolTransitions, List.mem_cons, edge_inj, List.not_mem_nil, or_false]
  -- the transitions that lead to the state are the terms of its equation
  cases q
  all_goals
    simp only [Stage.incoming, nameByte, exponentMark, Mgol.exponentSign, add_mul, mul_add,
      Language.mem_add, concat_mem_mul_words, concat_mem_mul_anyBut, reduceCtorEq, and_false,
      false_and, or_false, and_true, true_and]
    simp [or_and_right, and_or_left, exists_or, or_assoc]
  case exponent => tauto

/-- The empty word leads to no state but the first. -/
theorem nil_mem_reading_iff {q : Stage} : [] ∈ q.reading ↔ q = .start := by
  have hdigits : [] ∉ digits := fun h => nil_notMem_words _ (nil_mem_mul.mp h).1
  have hmark : [] ∉ exponentMark := by
    simp only [exponentMark, Language.mem_add, nil_notMem_words, or_false, not_false_eq_true]
  cases q <;>
    simp only [Stage.reading, nil_mem_mul, Language.mem_add, nil_notMem_words, hdigits, hmark,
      exponentPart, Language.mem_one, reduceCtorEq, false_and, and_false, or_false]

/-- **The words that lead to a state** are those that the automaton reads up to it. -/
theorem run_eq_some_iff {w : List UInt8} {r : Nat} :
    mgolAutomaton.run mgolAutomaton.initial w = some r ↔
      ∃ q : Stage, r = q.number ∧ w ∈ q.reading := by
  induction w using List.reverseRecOn generalizing r with
  | nil =>
    rw [Automaton.run, Option.some.injEq]
    constructor
    · rintro rfl
      exact ⟨.start, rfl, nil_mem_reading_iff.mpr rfl⟩
    · rintro ⟨q, rfl, hq⟩
      rw [nil_mem_reading_iff.mp hq]
      rfl
  | append_singleton w b ih =>
    rw [Automaton.run_concat_eq, Option.bind_eq_some_iff]
    constructor
    · rintro ⟨n, hrun, hnext⟩
      obtain ⟨p, rfl, hp⟩ := ih.mp hrun
      obtain ⟨t, ht, -, htarget, -⟩ := exists_transition hnext
      obtain ⟨p', c, q, rfl⟩ := exists_edge ht
      obtain rfl : q.number = r := htarget
      exact ⟨q, rfl, concat_mem_reading_iff.mpr ⟨p, hp, hnext⟩⟩
    · rintro ⟨q, rfl, hq⟩
      obtain ⟨p, hp, hnext⟩ := concat_mem_reading_iff.mp hq
      exact ⟨p.number, ih.mpr ⟨p, rfl, hp⟩, hnext⟩

/-! ## The classes of the states -/

/-- A spelling in ASCII is read character by character. -/
theorem spelled_cons {s : String} (h : ∀ c ∈ s.toList, c.toNat < 0x80) (spellings : List String) :
    spelled (s :: spellings) =
      (s.toList.map fun c => (char c).words).prod + spelled spellings := by
  -- the product has one word, the bytes of the characters
  have hprod : ∀ (cs : List Char) (w : List UInt8), (∀ c ∈ cs, c.toNat < 0x80) →
      (w ∈ (cs.map fun c => (char c).words).prod ↔ w = cs.flatMap String.utf8EncodeChar) := by
    intro cs
    induction cs with
    | nil => exact fun w _ => Language.mem_one w
    | cons c cs ih =>
      intro w hascii
      obtain ⟨hc, hcs⟩ := List.forall_mem_cons.mp hascii
      rw [List.map_cons, List.prod_cons, Language.mem_mul, List.flatMap_cons,
        Text.utf8EncodeChar_of_ascii hc]
      constructor
      · rintro ⟨_, ⟨b, hb, rfl⟩, v, hv, rfl⟩
        rw [(ih v hcs).mp hv, accepts_char.mp hb]
      · rintro rfl
        exact ⟨_, ⟨_, accepts_char.mpr rfl, rfl⟩, _, (ih _ hcs).mpr rfl, rfl⟩
  ext w
  rw [Language.mem_add, hprod _ w h, ← Text.encode_ofList, String.ofList_toList]
  constructor
  · rintro ⟨t, ht, rfl⟩
    rcases List.mem_cons.mp ht with rfl | ht
    · exact .inl rfl
    · exact .inr ⟨t, ht, rfl⟩
  · rintro (rfl | ⟨t, ht, rfl⟩)
    · exact ⟨s, List.mem_cons_self, rfl⟩
    · exact ⟨t, List.mem_cons_of_mem _ ht, rfl⟩

/-- No spellings have no words. -/
theorem spelled_nil : spelled [] = 0 := by
  ext w
  constructor
  · rintro ⟨_, h, _⟩
    cases h
  · intro h
    exact absurd h (Language.notMem_zero w)

/-- **The final states of a class.** -/
def stagesOf : TokenClass → List Stage
  | .identifier => [.identifier]
  | .number => [.integer, .fraction, .exponentDigits]
  | .literal => [.literal]
  | .comment => [.comment]
  | .relational => [.less, .greater, .equal, .lessCompound, .greaterEqual]
  | .assignment => [.assignment]
  | .arithmetic => [.arithmetic]
  | .openParen => [.openParen]
  | .closeParen => [.closeParen]
  | .semicolon => [.semicolon]
  | .comma => [.comma]
  | .endOfFile | .error | .nonterminal | .keyword _ => []

/-- The states of a class are those that the lexicon lists for it. -/
theorem classOf?_number_iff {q : Stage} {c : TokenClass} :
    mgol.classOf? q.number = some c ↔ q ∈ stagesOf c := by
  cases c with
  | keyword word =>
    refine iff_of_false (fun h => ?_) List.not_mem_nil
    cases q <;> cases h
  | _ => cases q <;> decide

/-- **The words of a class** are those that lead to its states. -/
theorem language_eq_sum (c : TokenClass) : c.language = ((stagesOf c).map Stage.reading).sum := by
  cases c with
  | number =>
    simp only [TokenClass.language, stagesOf, List.map_cons, List.map_nil, List.sum_cons,
      List.sum_nil, Stage.reading, mul_add, add_mul, mul_one, add_zero, add_assoc]
  | relational =>
    rw [TokenClass.language, spelled_cons (by simp), spelled_cons (by simp),
      spelled_cons (by simp), spelled_cons (by simp), spelled_cons (by simp),
      spelled_cons (by simp), spelled_nil]
    simp only [String.reduceToList, stagesOf, List.map_cons, List.map_nil, List.sum_cons,
      List.sum_nil, List.prod_cons, List.prod_nil, Stage.reading, mul_add, mul_one, add_zero]
    ac_rfl
  | arithmetic =>
    rw [TokenClass.language, spelled_cons (by simp), spelled_cons (by simp),
      spelled_cons (by simp), spelled_cons (by simp), spelled_nil]
    simp only [String.reduceToList, stagesOf, List.map_cons, List.map_nil, List.sum_cons,
      List.sum_nil, List.prod_cons, List.prod_nil, Stage.reading, mul_one, add_zero, add_assoc]
  | assignment | openParen | closeParen | semicolon | comma =>
    rw [TokenClass.language, spelled_cons (by simp), spelled_nil]
    simp only [String.reduceToList, stagesOf, List.map_cons, List.map_nil, List.sum_cons,
      List.sum_nil, List.prod_cons, List.prod_nil, Stage.reading, mul_one, add_zero]
  | identifier | literal | comment => exact (add_zero _).symm
  | endOfFile | error | nonterminal | keyword => rfl

/-- **A word of a class** leads to one of its states. -/
theorem mem_language_iff {w : List UInt8} {c : TokenClass} :
    w ∈ c.language ↔ ∃ q : Stage, mgol.classOf? q.number = some c ∧ w ∈ q.reading := by
  -- a word of a sum is in one of its terms
  have hsum : ∀ qs : List Stage,
      w ∈ (qs.map Stage.reading).sum ↔ ∃ q ∈ qs, w ∈ q.reading := by
    intro qs
    induction qs with
    | nil => simp [Language.notMem_zero]
    | cons q qs ih => 
      rw [List.map_cons, List.sum_cons, Language.mem_add, ih, List.exists_mem_cons_iff]
  rw [language_eq_sum, hsum]
  simp only [classOf?_number_iff]

/-- A state of a class is final. -/
theorem isFinal_of_classOf? {q : Nat} {c : TokenClass} (h : mgol.classOf? q = some c) :
    mgolAutomaton.isFinal q = true := by
  unfold classOf? at h
  split at h
  · next e he =>
    have hmem : e ∈ mgolClasses := List.mem_reverse.mp (List.mem_of_find?_eq_some he)
    obtain rfl : e.1 = q := by simpa using List.find?_some he
    exact List.contains_iff_mem.mpr (List.mem_map_of_mem hmem)
  · cases h

/-- **The automaton accepts the words of a class** in the states of that class. -/
theorem accepts_iff_mem_language {w : List UInt8} {c : TokenClass} :
    (∃ q, mgolAutomaton.run mgolAutomaton.initial w = some q ∧ mgolAutomaton.isFinal q = true ∧
      mgol.classOf? q = some c) ↔ w ∈ c.language := by
  rw [mem_language_iff]
  constructor
  · rintro ⟨n, hrun, -, hclass⟩
    obtain ⟨q, rfl, hq⟩ := run_eq_some_iff.mp hrun
    exact ⟨q, hclass, hq⟩
  · rintro ⟨q, hclass, hq⟩
    exact ⟨q.number, run_eq_some_iff.mpr ⟨q, rfl, hq⟩, isFinal_of_classOf? hclass, hclass⟩

/-- **A word has one class.** -/
theorem class_unique {w : List UInt8} {c d : TokenClass} (hc : w ∈ c.language)
    (hd : w ∈ d.language) : c = d := by
  obtain ⟨p, hrun, -, hp⟩ := accepts_iff_mem_language.mpr hc
  obtain ⟨q, hrun', -, hq⟩ := accepts_iff_mem_language.mpr hd
  obtain rfl : p = q := Option.some.inj (hrun.symm.trans hrun')
  exact Option.some.inj (hp.symm.trans hq)

/-! ## The decimal point -/

/-- **A language whose words do without a byte.** -/
def Avoids (b : UInt8) (l : Language UInt8) : Prop := ∀ w ∈ l, b ∉ w

namespace Avoids

variable {b : UInt8} {l m : Language UInt8}

/-- One byte that is not named. -/
theorem words {c : ByteClass} (h : c.accepts b = false) : Avoids b c.words := by
  rintro _ ⟨d, hd, rfl⟩ hmem
  obtain rfl := List.mem_singleton.mp hmem
  rw [h] at hd
  cases hd

/-- The empty word does without any byte. -/
theorem one : Avoids b 1 := by
  intro w hw
  rw [(Language.mem_one w).mp hw]
  exact List.not_mem_nil

/-- Words of the one language or the other. -/
theorem add (hl : Avoids b l) (hm : Avoids b m) : Avoids b (l + m) := by
  intro w hw
  rcases (Language.mem_add l m w).mp hw with h | h
  · exact hl w h
  · exact hm w h

/-- Words of the one language behind words of the other. -/
theorem mul (hl : Avoids b l) (hm : Avoids b m) : Avoids b (l * m) := by
  intro w hw
  obtain ⟨u, hu, v, hv, rfl⟩ := Language.mem_mul.mp hw
  rw [List.mem_append, not_or]
  exact ⟨hl u hu, hm v hv⟩

/-- Repetitions of a word. -/
theorem kstar (hl : Avoids b l) : Avoids b l∗ := by
  intro w hw
  obtain ⟨ws, rfl, hws⟩ := Language.mem_kstar.mp hw
  rw [List.mem_flatten]
  rintro ⟨u, hu, hmem⟩
  exact hl u (hws u hu) hmem

end Avoids

/-- **A number has a decimal point if it has a fraction part**, whatever its exponent. -/
theorem point_mem_iff {w : List UInt8} (h : w ∈ TokenClass.number.language) :
    '.'.toUInt8 ∈ w ↔ w ∈ digits * fractionPart * (1 + exponentPart) := by
  have hdigits : Avoids '.'.toUInt8 digits := (Avoids.words rfl).mul (Avoids.words rfl).kstar
  have hexponent : Avoids '.'.toUInt8 exponentPart :=
    (((Avoids.words rfl).add (Avoids.words rfl)).mul
      (Avoids.one.add ((Avoids.words rfl).add (Avoids.words rfl)))).mul hdigits
  have hcases : w ∈ digits * (1 + exponentPart) + digits * fractionPart * (1 + exponentPart) := by
    rwa [TokenClass.language, mul_add digits, mul_one, add_mul] at h
  constructor
  · intro hpoint
    rcases (Language.mem_add _ _ w).mp hcases with hplain | hfraction
    · exact absurd hpoint (hdigits.mul (Avoids.one.add hexponent) w hplain)
    · exact hfraction
  · intro hfraction
    obtain ⟨u, hu, e, -, rfl⟩ := Language.mem_mul.mp hfraction
    obtain ⟨d, -, f, hf, rfl⟩ := Language.mem_mul.mp hu
    obtain ⟨_, ⟨b, hb, rfl⟩, ds, -, rfl⟩ := Language.mem_mul.mp hf
    rw [accepts_char.mp hb]
    simp

/-- **The type of a number** is real if it has a fraction part. -/
theorem typeOf_number_iff {lexeme : String}
    (h : Text.encode lexeme ∈ TokenClass.number.language) :
    (typeOf .number lexeme = .real ↔
        Text.encode lexeme ∈ digits * fractionPart * (1 + exponentPart)) ∧
      (typeOf .number lexeme = .integer ↔
        Text.encode lexeme ∉ digits * fractionPart * (1 + exponentPart)) := by
  rw [← point_mem_iff h, Text.mem_encode_iff (by decide), typeOf]
  by_cases hpoint : lexeme.toList.contains '.' = true
  · have hmem : '.' ∈ lexeme.toList := List.contains_iff_mem.mp hpoint
    simp [hmem]
  · have hmem : '.' ∉ lexeme.toList := mt List.contains_iff_mem.mpr hpoint
    simp [hmem]

/-- **What the automaton of MGol accepts**: exactly the words of each class, which have no word in
common, and of the numbers those with a fraction part as real ones. -/
theorem mgol_accepts_languages :
    (∀ (w : List UInt8) (c : TokenClass),
      (∃ q, mgolAutomaton.run mgolAutomaton.initial w = some q ∧
        mgolAutomaton.isFinal q = true ∧ mgol.classOf? q = some c) ↔ w ∈ c.language) ∧
    (∀ c d : TokenClass, c ≠ d → ∀ w, ¬(w ∈ c.language ∧ w ∈ d.language)) ∧
    ∀ (q : Nat) (lexeme : String), mgol.classOf? q = some .number →
      Text.encode lexeme ∈ TokenClass.number.language →
      ∃ type, mgol.accept q lexeme = some ⟨.number, lexeme, type⟩ ∧
        (type = .real ↔ Text.encode lexeme ∈ digits * fractionPart * (1 + exponentPart)) ∧
        (type = .integer ↔ Text.encode lexeme ∉ digits * fractionPart * (1 + exponentPart)) := by
  refine ⟨fun w c => accepts_iff_mem_language, ?_, ?_⟩
  · rintro c d hne w ⟨hc, hd⟩
    exact hne (class_unique hc hd)
  · intro q lexeme hclass hnumber
    refine ⟨typeOf .number lexeme, ?_, typeOf_number_iff hnumber⟩
    rw [accept, hclass]

/-- A number with a fraction part and an exponent is real, one with an exponent alone is not. -/
theorem mgol_accepts_languages_exponents :
    mgol.accept Stage.exponentDigits.number "12.5e-3" = some ⟨.number, "12.5e-3", .real⟩ ∧
      mgol.accept Stage.exponentDigits.number "12e-3" = some ⟨.number, "12e-3", .integer⟩ ∧
      Text.encode "12.5e-3" ∈ digits * fractionPart * (1 + exponentPart) ∧
      Text.encode "12e-3" ∉ digits * fractionPart * (1 + exponentPart) := by
  obtain ⟨haccepts, -, htype⟩ := mgol_accepts_languages
  have hreal : Text.encode "12.5e-3" = [49, 50, 46, 53, 101, 45, 51] :=
    (Text.encode_ofList "12.5e-3".toList).trans (by decide)
  have hinteger : Text.encode "12e-3" = [49, 50, 101, 45, 51] :=
    (Text.encode_ofList "12e-3".toList).trans (by decide)
  -- the automaton reads both up to the digits of an exponent
  have hnumber : ∀ w : List UInt8, mgolAutomaton.run mgolAutomaton.initial w = some 7 →
      w ∈ TokenClass.number.language :=
    fun w hrun => (haccepts w .number).mp ⟨7, hrun, by decide, by decide⟩
  obtain ⟨type, haccept, hreal_iff, -⟩ := htype Stage.exponentDigits.number "12.5e-3" (by decide)
    (hreal ▸ hnumber _ (by decide))
  obtain ⟨type', haccept', -, hinteger_iff⟩ := htype Stage.exponentDigits.number "12e-3"
    (by decide) (hinteger ▸ hnumber _ (by decide))
  have hfirst : mgol.accept Stage.exponentDigits.number "12.5e-3" =
      some ⟨.number, "12.5e-3", .real⟩ := by decide
  have hsecond : mgol.accept Stage.exponentDigits.number "12e-3" =
      some ⟨.number, "12e-3", .integer⟩ := by decide
  refine ⟨hfirst, hsecond, hreal_iff.mp ?_, hinteger_iff.mp ?_⟩
  · rw [haccept] at hfirst
    exact (Token.mk.inj (Option.some.inj hfirst)).2.2
  · rw [haccept'] at hsecond
    exact (Token.mk.inj (Option.some.inj hsecond)).2.2

end Lexicon

end Mgol
