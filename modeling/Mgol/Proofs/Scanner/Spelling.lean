import Mgol.Proofs.Scanner.Ahead
import Mgol.Proofs.Scanner.Progress

/-! # How the words of MGol are spelled

The class of a token says how its lexeme is spelled: a name begins with a letter, a number with a
digit, and everything that is no name, number or text has one of a few spellings.

* **`Token.Spelled`** — a token that is spelled as its class says.
* **`Lexicon.Stage.Shape`, `Lexicon.shape_of_run`** — what the automaton has read in a state.
* **`Scanner.Fluent`, `Scanner.Finds.fluent`** — scanners of MGol hand out well spelled tokens. -/

namespace Mgol

/-- Whether a text begins with a character of a kind. -/
def beginsWith (p : Char → Bool) (s : String) : Bool := s.toList.head?.any p

/-- A digit is no letter. -/
theorem isAlpha_of_isDigit {c : Char} (h : c.isDigit = true) : c.isAlpha = false := by
  have hletter : c.isAlpha = (decide (c.val ≥ 'A'.val ∧ c.val ≤ 'Z'.val)
      || decide (c.val ≥ 'a'.val) && decide (c.val ≤ 'z'.val)) := rfl
  simp only [Char.isDigit, hletter, Bool.and_eq_true, decide_eq_true_eq, Bool.or_eq_false_iff,
    Bool.and_eq_false_iff, decide_eq_false_iff_not, ge_iff_le, UInt32.le_iff_toNat_le] at h ⊢
  simp at h ⊢
  omega

/-- **A token that is spelled as its class says.** -/
def Token.Spelled (t : Token) : Prop :=
  match t.kind with
  | .identifier => beginsWith Char.isAlpha t.lexeme = true
  | .number => beginsWith Char.isDigit t.lexeme = true ∧ t.type = Lexicon.typeOf .number t.lexeme
  | .literal => ∃ body, t.lexeme = String.ofList ('"' :: body ++ ['"'])
  | .relational => t.lexeme ∈ ["<", "<=", "<>", ">", ">=", "="]
  | .arithmetic => t.lexeme ∈ ["+", "-", "*", "/"]
  | .assignment => t.lexeme = "<-"
  | .openParen => t.lexeme = "("
  | .closeParen => t.lexeme = ")"
  | .semicolon => t.lexeme = ";"
  | .comma => t.lexeme = ","
  | .endOfFile => t = .endOfFile
  | .keyword word => t.lexeme = word.spelling
  | .comment | .error | .nonterminal => True

/-! ## Texts of bytes -/

namespace Text

/-- What was found before stays in front of what is found later. -/
theorem finish_foldl_step (found : List Char) (pending : Option Unfinished) (bytes : List UInt8) :
    (bytes.foldl Decoder.step ⟨found, pending⟩).finish =
      found.reverse ++ (bytes.foldl Decoder.step ⟨[], pending⟩).finish := by
  -- what was found before is never looked at, so it can be taken off in front
  have hstart : ∀ (before : List Char) (b : Nat), ∃ more pending', ∀ front,
      Decoder.start (before ++ front) b = ⟨more ++ front, pending'⟩ := by
    intro before b
    unfold Decoder.start
    cases opening b with
    | whole c => exact ⟨c :: before, none, fun _ => rfl⟩
    | longer u => exact ⟨before, some u, fun _ => rfl⟩
    | stray => exact ⟨replacement :: before, none, fun _ => rfl⟩
  have hstep : ∀ (before : List Char) (pending : Option Unfinished) (b : UInt8),
      ∃ more pending', ∀ front,
        Decoder.step ⟨before ++ front, pending⟩ b = ⟨more ++ front, pending'⟩ := by
    intro before pending b
    unfold Decoder.step
    cases pending with
    | none => exact hstart before b.toNat
    | some u =>
      simp only
      by_cases hin : u.low ≤ b.toNat ∧ b.toNat ≤ u.high
      · by_cases hlast : u.missing ≤ 1
        · refine ⟨Char.ofNat (u.bits * 64 + (b.toNat - 0x80)) :: before, none, fun front => ?_⟩
          rw [if_pos hin, if_pos hlast]
          rfl
        · refine ⟨before, some ⟨u.missing - 1, 0x80, 0xBF, u.bits * 64 + (b.toNat - 0x80)⟩,
            fun front => ?_⟩
          rw [if_pos hin, if_neg hlast]
      · obtain ⟨more, pending', h⟩ := hstart (replacement :: before) b.toNat
        refine ⟨more, pending', fun front => ?_⟩
        rw [if_neg hin]
        exact h front
  have hgrow : ∀ (before front : List Char) (pending : Option Unfinished),
      (bytes.foldl Decoder.step ⟨before ++ front, pending⟩).finish =
        front.reverse ++ (bytes.foldl Decoder.step ⟨before, pending⟩).finish := by
    induction bytes with
    | nil =>
      intro before front pending
      cases pending with
      | none => simp [Decoder.finish]
      | some u => simp [Decoder.finish]
    | cons b bytes ih =>
      intro before front pending
      obtain ⟨more, pending', h⟩ := hstep before pending b
      rw [List.foldl_cons, List.foldl_cons, h front, ih]
      have hnone := h []
      rw [List.append_nil, List.append_nil] at hnone
      rw [hnone]
  exact hgrow [] found pending

/-- An ASCII byte at the beginning is a character of its own. -/
theorem lossyChars_cons {b : UInt8} (h : b.toNat < 0x80) (bytes : List UInt8) :
    lossyChars (b :: bytes) = Char.ofNat b.toNat :: lossyChars bytes := by
  have hstep : Decoder.step {} b = ⟨[Char.ofNat b.toNat], none⟩ := by
    simp [Decoder.step, Decoder.start, opening, h]
  unfold lossyChars
  rw [List.foldl_cons, hstep, finish_foldl_step]
  rfl

/-- A decoder waits for no ASCII byte. -/
def Decoder.Waits (d : Decoder) : Prop := ∀ u, d.pending = some u → 0x80 ≤ u.low

/-- A decoder that has taken a byte waits for no ASCII byte either. -/
theorem Decoder.Waits.step {d : Decoder} (b : UInt8) : (d.step b).Waits := by
  have hopening : ∀ found, (Decoder.start found b.toNat).Waits := by
    intro found u hu
    unfold Decoder.start opening at hu
    split_ifs at hu <;> simp at hu <;> subst hu <;> simp
  intro u hu
  unfold Decoder.step at hu
  simp only at hu
  split at hu
  · exact hopening _ _ hu
  · split_ifs at hu
    · obtain rfl := Option.some.inj hu
      exact Nat.le_refl _
    · exact hopening _ _ hu

/-- A quote at the end is a character of its own. -/
theorem lossyChars_concat_quote (bytes : List UInt8) :
    lossyChars (bytes ++ [34]) = lossyChars bytes ++ ['"'] := by
  have hstart : ∀ found, Decoder.start found 34 = ⟨'"' :: found, none⟩ := fun _ => rfl
  -- a character in progress waits for bytes beyond the quote
  have hwaits : ∀ (bytes : List UInt8) (d : Decoder), d.Waits →
      (bytes.foldl Decoder.step d).Waits := by
    intro bytes
    induction bytes with
    | nil => exact fun d hd => hd
    | cons b bytes ih => exact fun d _ => ih _ (.step b)
  have hpending : (bytes.foldl Decoder.step {}).Waits := hwaits bytes {} (by simp [Decoder.Waits])
  unfold lossyChars
  rw [List.foldl_append, List.foldl_cons, List.foldl_nil]
  generalize bytes.foldl Decoder.step {} = d at hpending ⊢
  obtain ⟨found, pending⟩ := d
  cases pending with
  | none => simp [Decoder.step, hstart, Decoder.finish]
  | some u =>
    -- the quote continues no character, so it ends the one in progress
    have hlow := hpending u rfl
    have hout : ¬(u.low ≤ 34 ∧ 34 ≤ u.high) := by omega
    simp [Decoder.step, hstart, Decoder.finish, hout]

end Text

/-! ## What the automaton has read -/

namespace Lexicon

/-- **What the automaton of MGol has read** when it is in a state. -/
def Stage.Shape (stage : Stage) (bytes : List UInt8) : Prop :=
  match stage with
  | .start => bytes = []
  | .identifier => ∃ b rest, bytes = b :: rest ∧ isLetterByte b = true
  | .integer | .decimalPoint | .fraction | .exponent | .exponentSign | .exponentDigits =>
    ∃ b rest, bytes = b :: rest ∧ isDigitByte b = true
  | .less => bytes = [60]
  | .lessCompound => bytes = [60, 62] ∨ bytes = [60, 61]
  | .greater => bytes = [62]
  | .greaterEqual => bytes = [62, 61]
  | .equal => bytes = [61]
  | .assignment => bytes = [60, 45]
  | .arithmetic => bytes = [43] ∨ bytes = [45] ∨ bytes = [42] ∨ bytes = [47]
  | .openParen => bytes = [40]
  | .closeParen => bytes = [41]
  | .semicolon => bytes = [59]
  | .comma => bytes = [44]
  | .commentBody | .comment => True
  | .literalBody => ∃ rest, bytes = 34 :: rest
  | .literal => ∃ body, bytes = 34 :: body ++ [34]

/-- States have different numbers. -/
theorem Stage.number_injective {s t : Stage} (h : s.number = t.number) : s = t := by
  cases s <;> cases t <;> first | rfl | cases h

/-- A move of an automaton is one of its transitions. -/
theorem exists_transition {a : Automaton} {q r : Nat} {b : UInt8} (h : a.next q b = some r) :
    ∃ t ∈ a.transitions, t.source = q ∧ t.target = r ∧
      (t.reads.accepts b = true ∨ t.reads = .other) := by
  unfold Automaton.next at h
  split at h
  · next t ht =>
    have hfound := List.find?_some ht
    simp only [Bool.and_eq_true, decide_eq_true_eq] at hfound
    exact ⟨t, List.mem_of_find?_eq_some ht, hfound.1, Option.some.inj h, .inl hfound.2⟩
  · split at h
    · next t ht =>
      have hfound := List.find?_some ht
      simp only [Bool.and_eq_true, decide_eq_true_eq] at hfound
      exact ⟨t, List.mem_of_find?_eq_some ht, hfound.1, Option.some.inj h, .inr hfound.2⟩
    · cases h

/-- **One more byte** goes from shape to shape. -/
theorem Stage.Shape.next {stage : Stage} {bytes : List UInt8} (h : stage.Shape bytes) {b : UInt8}
    {r : Nat} (hnext : mgolAutomaton.next stage.number b = some r) :
    ∃ stage' : Stage, r = stage'.number ∧ stage'.Shape (bytes ++ [b]) := by
  obtain ⟨t, ht, hsource, rfl, hreads⟩ := exists_transition hnext
  have ht : t ∈ mgolTransitions := ht
  simp only [mgolTransitions, List.mem_cons, List.not_mem_nil, or_false] at ht
  rcases ht with rfl | rfl | rfl | rfl | rfl | rfl | rfl | rfl | rfl | rfl | rfl | rfl | rfl | rfl |
    rfl | rfl | rfl | rfl | rfl | rfl | rfl | rfl | rfl | rfl | rfl | rfl | rfl | rfl | rfl | rfl |
    rfl | rfl | rfl | rfl | rfl | rfl | rfl | rfl | rfl
  -- by the transition, whose ends are two states
  all_goals
    dsimp only [edge] at hsource hreads ⊢
    refine ⟨_, rfl, ?_⟩
    obtain rfl := Stage.number_injective hsource
    simp only [Stage.Shape, char, ByteClass.accepts, beq_iff_eq, reduceCtorEq, or_false]
      at h hreads ⊢
  -- a first byte that decides, a byte behind one, one of a few spellings, and the bytes of a text
  all_goals first
    | exact ⟨b, [], by rw [h]; rfl, hreads⟩
    | exact h.elim fun c ⟨rest, hrest, hc⟩ => ⟨c, rest ++ [b], by rw [hrest]; rfl, hc⟩
    | rw [h, ← hreads]; decide
    | exact ⟨[], by rw [h, ← hreads]; rfl⟩
    | exact h.elim fun rest hrest => ⟨rest, by rw [hrest, ← hreads]; rfl⟩
    | exact h.elim fun rest hrest => ⟨rest ++ [b], by rw [hrest]; rfl⟩

/-- **What the automaton has read** is what its state says. -/
theorem shape_of_run {bytes : List UInt8} {q : Nat}
    (h : mgolAutomaton.run mgolAutomaton.initial bytes = some q) :
    ∃ stage : Stage, q = stage.number ∧ stage.Shape bytes := by
  -- every stage knows the shape of what led to it
  have hgo : ∀ (bytes before : List UInt8) (stage : Stage), stage.Shape before →
      mgolAutomaton.run stage.number bytes = some q →
      ∃ stage' : Stage, q = stage'.number ∧ stage'.Shape (before ++ bytes) := by
    intro bytes
    induction bytes with
    | nil =>
      intro before stage hshape hrun
      rw [List.append_nil]
      exact ⟨stage, (Option.some.inj hrun).symm, hshape⟩
    | cons b bytes ih =>
      intro before stage hshape hrun
      rw [Automaton.run] at hrun
      split at hrun
      · next r hnext =>
        obtain ⟨stage', rfl, hshape'⟩ := hshape.next hnext
        obtain ⟨final, hq, hfinal⟩ := ih (before ++ [b]) stage' hshape' hrun
        exact ⟨final, hq, by simpa using hfinal⟩
      · cases hrun
  exact hgo bytes [] .start rfl h

/-- The token of a state is of the class of the state. -/
theorem class_of_accept {q : Nat} {lexeme : String} {t : Token}
    (h : Lexicon.mgol.accept q lexeme = some t) :
    (q, t.kind) ∈ mgolClasses ∧ t.lexeme = lexeme ∧ t.type = typeOf t.kind lexeme := by
  unfold accept at h
  split at h
  · next kind hkind =>
    obtain rfl := Option.some.inj h
    refine ⟨?_, rfl, rfl⟩
    unfold classOf? at hkind
    split at hkind
    · next e he =>
      obtain rfl := Option.some.inj hkind
      have hq : e.1 = q := by simpa using List.find?_some he
      have hmem : e ∈ mgolClasses := List.mem_reverse.mp (List.mem_of_find?_eq_some he)
      rw [← hq]
      exact hmem
    · cases hkind
  · cases h

/-- Letters and digits among bytes are the letters and digits among characters. -/
theorem char_of_byte (b : UInt8) :
    (isLetterByte b = true → b.toNat < 0x80 ∧ (Char.ofNat b.toNat).isAlpha = true) ∧
      (isDigitByte b = true → b.toNat < 0x80 ∧ (Char.ofNat b.toNat).isDigit = true) := by
  have hall : ∀ n < 256,
      (isLetterByte (.ofNat n) = true → n < 0x80 ∧ (Char.ofNat n).isAlpha = true) ∧
        (isDigitByte (.ofNat n) = true → n < 0x80 ∧ (Char.ofNat n).isDigit = true) := by
    decide +kernel
  have hb := hall b.toNat b.toNat_lt
  rwa [UInt8.ofNat_toNat] at hb

/-- The first character of bytes that begin with an ASCII byte. -/
theorem beginsWith_decodeLossy {p : Char → Bool} {b : UInt8} (rest : List UInt8)
    (h : b.toNat < 0x80 ∧ p (Char.ofNat b.toNat) = true) :
    beginsWith p (Text.decodeLossy (b :: rest)) = true := by
  unfold beginsWith Text.decodeLossy
  rw [Text.lossyChars_cons h.1, String.toList_ofList]
  simpa using h.2

/-- The text of bytes in quotes. -/
theorem decodeLossy_quoted (body : List UInt8) :
    Text.decodeLossy (34 :: body ++ [34]) =
      String.ofList ('"' :: Text.lossyChars body ++ ['"']) := by
  unfold Text.decodeLossy
  rw [Text.lossyChars_concat_quote, Text.lossyChars_cons (by decide)]
  rfl

/-- **A word of MGol is spelled as its class says.** -/
theorem spelled_of_glance {failure : Option String} {p : Position} {bytes : List UInt8} {t : Token}
    (h : (Lexicon.mgol.glance failure p bytes).sight = .word t) : t.Spelled := by
  obtain ⟨q, lexeme, hrun, haccept⟩ := run_of_glance h
  obtain ⟨stage, rfl, hshape⟩ := shape_of_run hrun
  obtain ⟨hclass, hlexeme, htype⟩ := class_of_accept haccept
  obtain ⟨kind, _, type⟩ := t
  simp only at hclass hlexeme htype
  subst hlexeme htype
  simp only [mgolClasses, List.mem_cons, Prod.mk.injEq, List.not_mem_nil, or_false] at hclass
  rcases hclass with ⟨hstage, rfl⟩ | ⟨hstage, rfl⟩ | ⟨hstage, rfl⟩ | ⟨hstage, rfl⟩ |
    ⟨hstage, rfl⟩ | ⟨hstage, rfl⟩ | ⟨hstage, rfl⟩ | ⟨hstage, rfl⟩ | ⟨hstage, rfl⟩ | ⟨hstage, rfl⟩ |
    ⟨hstage, rfl⟩ | ⟨hstage, rfl⟩ | ⟨hstage, rfl⟩ | ⟨hstage, rfl⟩ | ⟨hstage, rfl⟩ | ⟨hstage, rfl⟩ |
    ⟨hstage, rfl⟩
  all_goals
    obtain rfl := Stage.number_injective hstage
    simp only [Stage.Shape] at hshape
    simp only [Token.Spelled, and_true]
  -- names, numbers, texts and comments, and then the few spellings of the other classes
  all_goals first
    | obtain ⟨b, rest, rfl, hb⟩ := hshape
      exact beginsWith_decodeLossy rest ((char_of_byte b).1 hb)
    | obtain ⟨b, rest, rfl, hb⟩ := hshape
      exact beginsWith_decodeLossy rest ((char_of_byte b).2 hb)
    | obtain ⟨body, rfl⟩ := hshape
      exact ⟨_, decodeLossy_quoted body⟩
    | rcases hshape with rfl | rfl | rfl | rfl <;> decide

end Lexicon

/-! ## Scanners of MGol -/

namespace Registry

/-- **A plain registry** holds names and reserved words. -/
def Plain (r : Registry) : Prop :=
  ∀ lexeme t, r.get? lexeme = some t →
    t.kind = .identifier ∨ ∃ word, t.kind = .keyword word ∧ t.lexeme = word.spelling

/-- Words are all that matters for a registry to be plain. -/
theorem Plain.of_sameWords {r r' : Registry} (h : r.Plain) (hw : r.SameWords r') : r'.Plain := by
  intro lexeme t ht
  have hsame := hw lexeme
  rw [ht, Option.map_some] at hsame
  obtain ⟨u, hu, hword⟩ := Option.map_eq_some_iff.mp hsame
  obtain ⟨hkind, hlexeme⟩ := Prod.mk.inj hword
  rw [← hkind, ← hlexeme]
  exact h _ _ hu

/-- A plain registry stays so when a name or a reserved word is entered. -/
theorem Plain.insert {r : Registry} (h : r.Plain) {t : Token}
    (ht : t.kind = .identifier ∨ ∃ word, t.kind = .keyword word ∧ t.lexeme = word.spelling) :
    (r.insert t).2.Plain := by
  intro lexeme u hu
  rw [get?_insert] at hu
  by_cases heq : t.lexeme = lexeme
  · rw [if_pos heq, insert_fst] at hu
    obtain rfl := Option.some.inj hu
    cases hold : r.get? t.lexeme with
    | none => exact ht
    | some old => exact h _ _ hold
  · rw [if_neg heq] at hu
    exact h _ _ hu

/-- The reserved words are a plain registry. -/
theorem plain_reserved : Registry.reserved.Plain := by
  refine reserved_induction ?_ fun r word h => h.insert (.inr ⟨word, rfl, rfl⟩)
  intro lexeme t ht
  rw [get?_empty] at ht
  cases ht

/-- A new name has no type, so it changes the type of no lexeme. -/
theorem typeOf_insert {r : Registry} {t : Token} (ht : t.type = .untyped) :
    (r.insert t).2.typeOf = r.typeOf := by
  funext lexeme
  unfold typeOf
  rw [get?_insert]
  by_cases heq : t.lexeme = lexeme
  · rw [if_pos heq, insert_fst, heq]
    cases r.get? lexeme with
    | none => exact ht
    | some old => rfl
  · rw [if_neg heq]

/-- The reserved words have no types. -/
theorem typeOf_reserved : reserved.typeOf = fun _ => .untyped := by
  refine reserved_induction (P := fun r => r.typeOf = fun _ => .untyped) ?_ fun r word h =>
    (typeOf_insert rfl).trans h
  funext lexeme
  rw [typeOf, get?_empty]

end Registry

namespace Scanner

/-- **A scanner of MGol**, whose registry holds names and reserved words in their places. -/
structure Fluent (s : Scanner) : Prop where
  lexicon_eq : s.lexicon = .mgol
  sound : s.registry.Sound
  plain : s.registry.Plain

/-- A new scanner of MGol. -/
theorem fluent_ofInput (input : Input) (journal : Journal) (options : ScanOptions) :
    (ofInput input .mgol ⟨.reserved, journal⟩ options).Fluent :=
  ⟨rfl, Registry.sound_reserved, Registry.plain_reserved⟩

/-- Scanners that agree are scanners of MGol together. -/
theorem Fluent.of_agrees {s s' : Scanner} (h : s.Fluent) (ha : s.Agrees s') : s'.Fluent where
  lexicon_eq := ha.lexicon_eq.trans h.lexicon_eq
  sound := h.sound.of_sameWords ha.sameWords
  plain := h.plain.of_sameWords ha.sameWords

/-- What is handed out for a sight of MGol is well spelled, and no type changes. -/
theorem Fluent.handed {s : Scanner} (hs : s.Fluent) {value : Token} {r : Registry}
    (h : s.glance.sight.Handed s.registry value r) :
    value.Spelled ∧ r.Plain ∧ r.typeOf = s.registry.typeOf := by
  -- a word that is seen is well spelled, and its type is that of its class
  have hspelled : ∀ w, s.glance.sight = .word w →
      w.Spelled ∧ w.type = Lexicon.typeOf w.kind w.lexeme := by
    intro w hw
    unfold glance at hw
    simp only [hs.lexicon_eq] at hw
    obtain ⟨q, lexeme, _, haccept⟩ := Lexicon.run_of_glance hw
    obtain ⟨_, hlexeme, htype⟩ := Lexicon.class_of_accept haccept
    exact ⟨Lexicon.spelled_of_glance hw, by rw [hlexeme]; exact htype⟩
  generalize s.glance.sight = sight at h hspelled
  cases h with
  | ended => exact ⟨rfl, hs.plain, rfl⟩
  | fault => exact ⟨trivial, hs.plain, rfl⟩
  | @name w hkind =>
    obtain ⟨hw, htype⟩ := hspelled w rfl
    rw [hkind] at htype
    refine ⟨?_, hs.plain.insert (.inl hkind), Registry.typeOf_insert htype⟩
    unfold Token.Spelled at hw
    rw [hkind] at hw
    -- the entry has the lexeme of the word, and it is a name or a reserved word
    have hlexeme := hs.sound.lexeme_insert w
    have hentry := hs.plain.insert (.inl hkind) w.lexeme (s.registry.insert w).1
      (by rw [Registry.get?_insert, if_pos rfl])
    unfold Token.Spelled
    rcases hentry with hname | ⟨word, hword, hspelling⟩
    · rw [hname]
      simp only
      rw [hlexeme]
      exact hw
    · rw [hword]
      exact hspelling
  | word other => exact ⟨(hspelled _ rfl).1, hs.plain, rfl⟩

/-- **A scan of MGol hands out a well spelled token**, and no type changes. -/
theorem Scanned.fluent {s s' : Scanner} {t : Spanned Token} (h : s.Scanned t s') (hs : s.Fluent) :
    s'.Fluent ∧ t.value.Spelled ∧ s'.registry.typeOf = s.registry.typeOf := by
  obtain ⟨hspelled, hplain, htypes⟩ := hs.handed h.handed
  exact ⟨⟨h.lexicon_eq.trans hs.lexicon_eq, (h.handed.sound hs.sound).1, hplain⟩, hspelled, htypes⟩

/-- **The next visible token of MGol is well spelled**, and no type changes. -/
theorem Finds.fluent {s s' : Scanner} {t : Spanned Token} (h : s.Finds t s') (hs : s.Fluent) :
    s'.Fluent ∧ t.value.Spelled ∧ s'.registry.typeOf = s.registry.typeOf := by
  induction h with
  | here scanned _ => exact scanned.fluent hs
  | later scanned _ _ ih =>
    obtain ⟨hfluent, _, htypes⟩ := scanned.fluent hs
    obtain ⟨hfluent', hspelled, htypes'⟩ := ih hfluent
    exact ⟨hfluent', hspelled, htypes'.trans htypes⟩

/-- A scan of all tokens begins with a scan. -/
theorem scanAllFrom_of_scan {s s' : Scanner} {t : Spanned Token} (h : s.scan = (.ok t, s'))
    (hend : t.value.isEndOfFile = false) (found : Array (Spanned Token)) :
    scanAllFrom s.allowance found s = scanAllFrom s'.allowance (found.push t) s' := by
  rw [allowance_of_scan h, scanAllFrom, h]
  simp [hend]

/-- **All words ahead are scanned**, if there is an end to them. -/
theorem Fluent.scanAll {s : Scanner} (hs : s.Fluent) {words : List (TokenClass × String)}
    (h : s.Ahead words) :
    ∃ tokens, s.scanAll.1 = .ok tokens ∧ wordsOf tokens.toList = words := by
  have hother : ∀ t : Token, t.kind ≠ .endOfFile → t.isEndOfFile = false := by
    intro t ht
    simp only [Token.isEndOfFile, decide_eq_false_iff_not]
    intro heq
    exact ht (by rw [heq]; rfl)
  have hgo : ∀ found : Array (Spanned Token), ∃ more,
      (scanAllFrom s.allowance found s).1 = .ok (found ++ more) ∧ wordsOf more.toList = words := by
    induction h with
    | @ended s s' t scanned last =>
      intro found
      -- the scan of all tokens stops at the token of the end, which is well spelled
      have hend : t.value = .endOfFile := by
        have hspelled := ((scanned_of_scan scanned).fluent hs).2.1
        unfold Token.Spelled at hspelled
        rwa [last] at hspelled
      refine ⟨#[t], ?_, wordsOf_cons_of_ended [] last⟩
      rw [allowance_of_scan scanned, scanAllFrom, scanned]
      simp [Token.isEndOfFile, hend]
    | @hidden s s' t words scanned ignorable _ ih =>
      intro found
      obtain ⟨more, hmore, hwords⟩ := ih ((scanned_of_scan scanned).fluent hs).1 (found.push t)
      have hkind : t.value.kind ≠ .endOfFile := by
        intro heq
        rw [heq] at ignorable
        cases ignorable
      refine ⟨#[t] ++ more, ?_, ?_⟩
      · rw [scanAllFrom_of_scan scanned (hother _ hkind), hmore, Array.push_eq_append,
          Array.append_assoc]
      · rw [Array.toList_append, ← hwords]
        exact wordsOf_cons_of_hidden _ ignorable
    | @visible s s' t words scanned shown hkind _ ih =>
      intro found
      obtain ⟨more, hmore, hwords⟩ := ih ((scanned_of_scan scanned).fluent hs).1 (found.push t)
      refine ⟨#[t] ++ more, ?_, ?_⟩
      · rw [scanAllFrom_of_scan scanned (hother _ hkind), hmore, Array.push_eq_append,
          Array.append_assoc]
      · rw [Array.toList_append, ← hwords]
        exact wordsOf_cons_of_visible _ shown hkind
  obtain ⟨more, hmore, hwords⟩ := hgo #[]
  exact ⟨_, hmore, by simpa using hwords⟩

end Scanner

end Mgol
