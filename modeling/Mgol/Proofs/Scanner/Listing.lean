import Mgol.CommandLine.Run
import Mgol.Proofs.Scanner.Coverage
import Mgol.Proofs.Text.Recoding

/-! # The tokens that are listed and those that are compiled

A listing scans the bytes of the text that a file is read as, and the compiler scans the bytes of
the file. Where these are as many, both cut them into the same pieces: they have the same ASCII
bytes in the same places, and the automaton of MGol tells no other bytes apart.

* **`Lexicon.next_of_same`, `Lexicon.run_of_same`** — the automaton looks at ASCII bytes only.
* **`Lexicon.Reads.mended`, `Lexicon.Cuts.mended`** — the same pieces in both.
* **`Scanner.Faces.tokens_of_scanAll`** — what is known if all tokens were found.
* **`Command.tokensOf_exact_iff`** — when a listing shows what is compiled. -/

namespace Mgol

open Text (Mended)

open Text.Mended (SameByte)

/-! ## Bytes that are not told apart -/

/-- The place behind bytes is the same if they are not told apart. -/
theorem Position.advanceAll_of_same {u v : List UInt8} (h : List.Forall₂ SameByte u v)
    (p : Position) : p.advanceAll v = p.advanceAll u := by
  induction h generalizing p with
  | nil => rfl
  | @cons b c u v hsame _ ih =>
    have hadvance : p.advance c = p.advance b := by
      rcases hsame with rfl | ⟨hb, hc⟩
      · rfl
      · have hb' : b ≠ 10 := by
          rintro rfl
          exact absurd hb (by decide)
        have hc' : c ≠ 10 := by
          rintro rfl
          exact absurd hc (by decide)
        rw [advance, advance, if_neg hb', if_neg hc']
    rw [advanceAll_cons, advanceAll_cons, hadvance, ih]

namespace Lexicon

/-- **The automaton of MGol looks at ASCII bytes only.** -/
theorem next_of_same {b c : UInt8} (h : SameByte b c) (q : Nat) :
    mgolAutomaton.next q c = mgolAutomaton.next q b := by
  rcases h with rfl | ⟨hb, hc⟩
  · rfl
  · have hnamed : ∀ d : UInt8, 0x80 ≤ d.toNat →
        mgolAutomaton.transitions.find? (fun t => t.source = q && t.reads.accepts d) = none := by
      intro d hd
      refine List.find?_eq_none.mpr fun t ht haccepts => ?_
      rw [Bool.and_eq_true] at haccepts
      exact absurd (ascii_of_accepts ht haccepts.2) (Nat.not_lt.mpr hd)
    rw [Automaton.next, Automaton.next, hnamed b hb, hnamed c hc]

/-- Bytes that are not told apart lead to the same state. -/
theorem run_of_same {u v : List UInt8} (h : List.Forall₂ SameByte u v) (q : Nat) :
    mgolAutomaton.run q v = mgolAutomaton.run q u := by
  induction h generalizing q with
  | nil => rfl
  | cons hsame _ ih =>
    rw [Automaton.run, Automaton.run, next_of_same hsame]
    split
    · exact ih _
    · rfl

/-- In front of bytes that are not told apart the automaton is stuck in the same states. -/
theorem stuck_of_same {u v : List UInt8} (h : List.Forall₂ SameByte u v) {q : Nat}
    (hstuck : mgolAutomaton.Stuck q u) : mgolAutomaton.Stuck q v := by
  cases h with
  | nil => exact hstuck
  | cons hsame =>
    intro b hb
    obtain rfl := Option.some.inj (Option.mem_def.mp hb)
    rw [next_of_same hsame]
    exact hstuck _ rfl

end Lexicon

/-! ## The same pieces -/

/-- Separators are ASCII bytes. -/
theorem ascii_of_isSeparator {b : UInt8} (h : isSeparator b = true) : b.toNat < 0x80 := by
  simp only [isSeparator, Bool.or_eq_true, beq_iff_eq] at h
  rcases h with ((rfl | rfl) | rfl) | rfl <;> decide

/-- Separators go with themselves. -/
theorem Text.Mended.gap {gap rest v : List UInt8} (h : Mended (gap ++ rest) v)
    (hgap : ∀ b ∈ gap, isSeparator b = true) : ∃ v', v = gap ++ v' ∧ Mended rest v' := by
  induction gap generalizing v with
  | nil => exact ⟨v, rfl, h⟩
  | cons b gap ih =>
    obtain ⟨hb, hgap⟩ := List.forall_mem_cons.mp hgap
    obtain ⟨v₁, rfl, hbehind⟩ := h.of_ascii (ascii_of_isSeparator hb)
    obtain ⟨v', rfl, hrest⟩ := ih hbehind hgap
    exact ⟨v', rfl, hrest⟩

/-- What goes with a byte that no word begins with: as many bytes as it leads, or fewer where the
next one does not continue a character. -/
theorem continued_eq {n : Nat} {taken after : List UInt8}
    (hcontinues : ∀ b ∈ taken, isContinuation b = true) (hshort : taken.length ≤ n)
    (hend : taken.length = n ∨ ∀ b ∈ after.head?, isContinuation b = false) :
    ((taken ++ after).take n).takeWhile isContinuation = taken := by
  obtain ⟨more, rfl⟩ := Nat.exists_eq_add_of_le hshort
  rw [List.take_length_add_append, List.takeWhile_append_of_pos hcontinues]
  have hnone : (after.take more).takeWhile isContinuation = [] := by
    rcases hend with hall | hstop
    · rw [show more = 0 by omega, List.take_zero, List.takeWhile_nil]
    · cases more with
      | zero => rfl
      | succ more =>
        cases after with
        | nil => rfl
        | cons b after =>
          rw [List.take_succ_cons, List.takeWhile_cons_of_neg]
          simpa using hstop b rfl
  rw [hnone, List.append_nil]

namespace Lexicon

/-- **The other bytes of a character that no word begins with** lie beside as many. -/
theorem exists_stray {b : UInt8} {taken after v : List UInt8} (h : Mended (b :: (taken ++ after)) v)
    (hcontinued :
      taken = ((taken ++ after).take (continuationCount b)).takeWhile isContinuation) :
    ∃ c taken' after', v = c :: (taken' ++ after') ∧ SameByte b c ∧
      Mended (b :: taken) (c :: taken') ∧ Mended after after' ∧
      taken' = ((taken' ++ after').take (continuationCount c)).takeWhile isContinuation := by
  generalize hw : b :: (taken ++ after) = w at h
  cases h with
  | nil => cases hw
  | @ascii d u v low rest =>
    obtain ⟨rfl, rfl⟩ := List.cons.inj hw
    have hcount : continuationCount b = 0 := by
      rw [Text.continuationCount_eq, if_neg (by omega), if_neg (by omega), if_neg (by omega)]
    rw [hcount, List.take_zero, List.takeWhile_nil] at hcontinued
    subst hcontinued
    exact ⟨b, [], v, rfl, .inl rfl, .ascii low .nil, rest, by rw [hcount]; rfl⟩
  | @character c u v high rest =>
    have hcharacter := Text.character_utf8EncodeChar c
    have hself : Mended (String.utf8EncodeChar c) (String.utf8EncodeChar c) := by
      simpa using Text.Mended.nil.encoded c
    have hbytes : ∀ d ∈ String.utf8EncodeChar c, 0x80 ≤ d.toNat := fun d => Text.high_of_mem high
    generalize String.utf8EncodeChar c = bytes at hw hcharacter hself hbytes ⊢
    cases hcharacter with
    | @ascii d low => exact absurd (hbytes d (List.mem_singleton_self d)) (Nat.not_le.mpr low)
    | @longer d more _ counted continues =>
      rw [List.cons_append] at hw
      obtain ⟨rfl, hrest⟩ := List.cons.inj hw
      have heq : ∀ after, ((more ++ after).take (continuationCount b)).takeWhile isContinuation =
          more := fun after => continued_eq continues counted.ge (.inl counted.symm)
      rw [hrest, heq] at hcontinued
      subst hcontinued
      obtain rfl := List.append_cancel_left hrest
      exact ⟨b, taken, v, rfl, .inl rfl, hself, rest, (heq v).symm⟩
  | @torn lead second third u v torn rest =>
    obtain ⟨rfl, hrest⟩ := List.cons.inj hw
    have hcount : continuationCount b = 3 := by
      have := torn.leads
      rw [Text.continuationCount_eq, if_neg (by omega), if_neg (by omega), if_pos (by omega)]
    have hsecond := torn.second
    unfold Text.Unfinished.Takes Text.ofFour at hsecond
    simp only at hsecond
    have heq : (([second, third] ++ u).take 3).takeWhile isContinuation = [second, third] := by
      refine continued_eq ?_ (by simp) (.inr fun c hc => ?_)
      · simp only [List.forall_mem_cons, Text.isContinuation_iff]
        exact ⟨by split_ifs at hsecond <;> omega, torn.third, by simp⟩
      · rw [← Bool.not_eq_true, Text.isContinuation_iff]
        exact torn.lacks c hc
    rw [hrest, hcount] at hcontinued
    obtain rfl : taken = [second, third] := hcontinued.trans heq
    obtain rfl : after = u := (List.cons.inj (List.cons.inj hrest).2).2
    refine ⟨0xEF, [0xBF, 0xBD], v, rfl, .inr ⟨torn.high _ (by simp), by decide⟩, ?_, rest, ?_⟩
    · exact .torn (torn.take 0) .nil
    · have hcontinues : ∀ c ∈ ([0xBF, 0xBD] : List UInt8), isContinuation c = true :=
        List.forall_mem_cons.mpr ⟨by decide, List.forall_mem_singleton.mpr (by decide)⟩
      exact (continued_eq hcontinues (by decide) (.inl (by decide))).symm

/-- **What is read of the bytes of a file** is read of the bytes of its text, and the same is handed
out for it. -/
theorem Reads.mended {r after v : List UInt8} {sight : Sight}
    (h : Lexicon.mgol.Reads r after sight) (hmended : Mended (r ++ after) v) :
    ∃ r' after' sight', v = r' ++ after' ∧ Mended r r' ∧ Mended after after' ∧
      Lexicon.mgol.Reads r' after' sight' ∧
      ∀ registry, sight'.hand registry = sight.hand registry := by
  cases h with
  | @stray b taken _ stuck continued =>
    obtain ⟨c, taken', after', rfl, hsame, hread, hafter, hcontinued⟩ :=
      exists_stray hmended continued
    refine ⟨c :: taken', after', _, rfl, hread, hafter, .stray ?_ hcontinued, fun registry => ?_⟩
    · exact (next_of_same hsame _).trans stuck
    · rw [Sight.hand, Sight.hand, hread.decodeLossy_eq]
  | @run _ _ q some_byte read stuck =>
    obtain ⟨r', after', rfl, hread, hafter⟩ : ∃ r' after', v = r' ++ after' ∧ Mended r r' ∧
        Mended after after' := by
      cases after with
      | nil =>
        rw [List.append_nil] at hmended
        exact ⟨v, [], (List.append_nil v).symm, hmended, .nil⟩
      | cons c after =>
        -- a stretch that ends before the source does ends with an ASCII byte
        obtain ⟨front, b, rfl⟩ : ∃ front b, r = front ++ [b] :=
          ⟨r.dropLast, r.getLast some_byte, (List.dropLast_concat_getLast some_byte).symm⟩
        rw [List.append_assoc, List.singleton_append] at hmended
        exact hmended.cut (ascii_of_stuck read stuck)
    have hlength : r'.length = r.length := hread.length_eq
    have hne : r' ≠ [] := by
      rw [← List.length_pos_iff, hlength]
      exact List.length_pos_iff.mpr some_byte
    refine ⟨r', after', _, rfl, hread, hafter,
      .run hne ((run_of_same hread.sameBytes _).trans read)
        (stuck_of_same hafter.sameBytes stuck), fun registry => ?_⟩
    -- both stretches are judged by the same length, state and lexeme
    have hlexeme := hread.decodeLossy_take Limits.lexemeLength
    rw [hlength, judge, judge, hlexeme]
    split_ifs
    · rw [Sight.hand, Sight.hand, hlexeme]
    · split
      · rfl
      · rw [Sight.hand, Sight.hand, hlexeme]
    · rw [Sight.hand, Sight.hand, hlexeme]

/-- **The bytes of a file and those of its text are cut alike**, if they are as many. -/
theorem Cuts.mended {p : Position} {u v : List UInt8} {pieces : List Piece}
    (h : Lexicon.mgol.Cuts p u pieces) (hmended : Mended u v) :
    ∃ pieces', Lexicon.mgol.Cuts p v pieces' ∧ ∀ r, tokensOf r pieces' = tokensOf r pieces := by
  induction h generalizing v with
  | @blank p gap separators =>
    rw [← List.append_nil gap] at hmended
    obtain ⟨v', rfl, hrest⟩ := hmended.gap separators
    obtain rfl := List.eq_nil_of_length_eq_zero hrest.length_eq
    rw [List.append_nil]
    exact ⟨[], .blank separators, fun _ => rfl⟩
  | @piece p gap after x pieces separators placed unblank read rest ih =>
    obtain ⟨v₁, rfl, hbehind⟩ := hmended.gap separators
    obtain ⟨r', after', sight', rfl, hread, hafter, hreads, hhand⟩ := read.mended hbehind
    obtain ⟨pieces', hcuts, htokens⟩ := ih hafter
    let y : Piece := ⟨x.start, r', sight'⟩
    have hstop : y.stop = x.stop := Position.advanceAll_of_same hread.sameBytes _
    have hsight : ∀ r, y.sight.hand r = x.sight.hand r := hhand
    have hunblank : Unblank y.bytes := by
      intro b hb
      have hsame := hread.sameBytes
      generalize x.bytes = bytes at hsame unblank
      cases hsame with
      | nil => cases hb
      | @cons c _ _ _ hfirst =>
        obtain rfl := Option.some.inj (Option.mem_def.mp hb)
        rcases hfirst with rfl | ⟨-, hhigh⟩
        · exact unblank c rfl
        · rw [← Bool.not_eq_true]
          exact fun hseparator => absurd hhigh (Nat.not_le.mpr (ascii_of_isSeparator hseparator))
    refine ⟨y :: pieces', .piece (x := y) separators placed hunblank hreads ?_, fun r => ?_⟩
    · rw [hstop]
      exact hcuts
    · rw [tokensOf, tokensOf, Piece.token, Piece.token, Piece.span, Piece.span, hstop, hsight,
        htokens]

end Lexicon

/-! ## Tokens that were found -/

/-- The tokens of some pieces and then of others. -/
theorem tokensOf_append (r : Registry) (first second : List Piece) :
    tokensOf r (first ++ second) =
      tokensOf r first ++ tokensOf (registryAfter r first) second := by
  induction first generalizing r with
  | nil => rfl
  | cons x first ih =>
    rw [List.cons_append, tokensOf, tokensOf, ih, List.cons_append]
    rfl

namespace Scanner

/-- **If all tokens were found**, then there was room for them, and they are those of the pieces
ahead and the end of the file. -/
theorem Faces.tokens_of_scanAll {s : Scanner} {pieces : List Piece} (h : s.Faces pieces)
    (hmore : ∀ t ∈ tokensOf s.registry pieces, t.value.isEndOfFile = false)
    {tokens : Array (Spanned Token)} (hfound : s.scanAll.1 = .ok tokens) :
    s.metrics.tokens + pieces.length < Limits.tokenCount ∧
      tokens = (tokensOf s.registry pieces ++ [endToken s.finish]).toArray := by
  have hlimit : s.metrics.tokens + pieces.length < Limits.tokenCount := by
    by_contra hover
    -- the scanner hands out as many pieces as it may, and then it stops
    have hsplit : s.Faces (pieces.take s.allowance ++ pieces.drop s.allowance) := by
      rw [List.take_append_drop]
      exact h
    have hroom : s.metrics.tokens + (pieces.take s.allowance).length ≤ Limits.tokenCount ∨
        Limits.tokenCount < s.metrics.tokens := by
      rw [List.length_take, allowance]
      omega
    rcases hroom with hroom | hfull
    · obtain ⟨s', hscans, -, hpasses⟩ := hsplit.scans hroom
      have hfull : s'.allowance = 0 := by
        have hcounted := hpasses.counted
        rw [List.length_take] at hcounted
        unfold allowance at hcounted ⊢
        omega
      have hfirst : ∀ t ∈ tokensOf s.registry (pieces.take s.allowance),
          t.value.isEndOfFile = false := by
        intro t ht
        refine hmore t ?_
        rw [← List.take_append_drop s.allowance pieces, tokensOf_append]
        exact List.mem_append_left _ ht
      rw [Scanner.scanAll, scanAllFrom_of_scans hscans hfirst, hfull, scanAllFrom] at hfound
      cases hfound
    · have hnone : s.allowance = 0 := Nat.sub_eq_zero_of_le hfull.le
      rw [Scanner.scanAll, hnone, scanAllFrom] at hfound
      cases hfound
  refine ⟨hlimit, ?_⟩
  obtain ⟨s', hscan, -, -⟩ := h.scanAll hlimit hmore
  rw [hscan] at hfound
  exact (Except.ok.inj hfound).symm

variable {u v : List UInt8} {journal journal' : Journal} {options options' : ScanOptions}
  {tokens : Array (Spanned Token)}

/-- All tokens that were found in some bytes are those of their pieces and the end of the file. -/
theorem exists_cuts_of_scanAll
    (h : (ofInput ⟨u, none⟩ .mgol { journal } options).scanAll.1 = .ok tokens) :
    ∃ pieces, Lexicon.mgol.Cuts .start u pieces ∧ pieces.length < Limits.tokenCount ∧
      (∀ t ∈ tokensOf .reserved pieces, t.value.isEndOfFile = false) ∧
      tokens = (tokensOf .reserved pieces ++ [endToken (Position.start.advanceAll u)]).toArray := by
  obtain ⟨pieces, hcuts⟩ := Lexicon.mgol.exists_cuts .start u
  have hfaces : (ofInput ⟨u, none⟩ .mgol { journal } options).Faces pieces := ⟨rfl, hcuts⟩
  have hmore := hcuts.endless_tokens Lexicon.endless_mgol Registry.endless_reserved
  obtain ⟨hlimit, htokens⟩ := hfaces.tokens_of_scanAll hmore h
  exact ⟨pieces, hcuts, (Nat.le_add_left _ _).trans_lt hlimit, hmore, htokens⟩

/-- **The last of all tokens is the end of the file**, behind all bytes. -/
theorem ended_of_scanAll
    (h : (ofInput ⟨u, none⟩ .mgol { journal } options).scanAll.1 = .ok tokens) :
    tokens.toList.getLast? = some (endToken (Position.start.advanceAll u)) := by
  obtain ⟨pieces, -, -, -, rfl⟩ := exists_cuts_of_scanAll h
  exact List.getLast?_concat

/-- **The bytes of a file and those of its text have the same tokens**, if they are as many. -/
theorem scanAll_of_mended (hmended : Mended u v)
    (h : (ofInput ⟨u, none⟩ .mgol { journal } options).scanAll.1 = .ok tokens) :
    (ofInput ⟨v, none⟩ .mgol { journal := journal' } options').scanAll.1 = .ok tokens := by
  obtain ⟨pieces, hcuts, hlimit, hmore, rfl⟩ := exists_cuts_of_scanAll h
  obtain ⟨pieces', hcuts', htokens⟩ := hcuts.mended hmended
  have hcount : pieces'.length = pieces.length := by
    rw [← length_tokensOf .reserved, htokens, length_tokensOf]
  have hfaces : (ofInput ⟨v, none⟩ .mgol { journal := journal' } options').Faces pieces' :=
    ⟨rfl, hcuts'⟩
  rw [← hcount] at hlimit
  rw [← htokens] at hmore
  obtain ⟨s', hscan, -, -⟩ := hfaces.scanAll ((Nat.zero_add _).trans_lt hlimit) hmore
  have hfinish : Position.start.advanceAll v = Position.start.advanceAll u :=
    Position.advanceAll_of_same hmended.sameBytes .start
  rw [hscan, htokens, ← hfinish]
  rfl

end Scanner

/-! ## Listings -/

namespace Command

/-- What a listing shows of a token: where it starts, and its class, lexeme and type. -/
def entry (t : Spanned Token) : Position × Token := (t.span.start, t.value)

/-- **When a listing shows what is compiled.** If a scanner finds all tokens of a file, then they
are listed, one by one and in the same places, exactly if the text that the file is read as has as
many bytes as the file. -/
theorem tokensOf_exact_iff (file : SourceFile) (journal journal' : Journal) (options : ScanOptions)
    {tokens : Array (Spanned Token)}
    (h : (Scanner.ofInput ⟨file.content.toList, none⟩ .mgol { journal := journal' }
      options).scanAll.1 = .ok tokens) :
    let recoded := Text.encode (Text.decodeLossy file.content.toList)
    ((∃ listed, (tokensOf file journal).1 = .ok listed ∧
        listed.toList.map entry = tokens.toList.map entry) ↔
      recoded.length = file.content.toList.length) ∧
    (recoded.length = file.content.toList.length → (tokensOf file journal).1 = .ok tokens) := by
  intro recoded
  have hexact : recoded.length = file.content.toList.length →
      (tokensOf file journal).1 = .ok tokens := fun hlength =>
    Scanner.scanAll_of_mended (Text.mended_iff.mpr hlength) h
  refine ⟨⟨?_, fun hlength => ⟨tokens, hexact hlength, rfl⟩⟩, hexact⟩
  -- the end of the file lies behind all bytes, so it gives their number away
  rintro ⟨listed, hlisted, hsame⟩
  have hlast : listed.toList.getLast? = some (endToken (Position.start.advanceAll recoded)) :=
    Scanner.ended_of_scanAll hlisted
  have hends := congrArg List.getLast? hsame
  rw [List.getLast?_map, List.getLast?_map, hlast, Scanner.ended_of_scanAll h] at hends
  have hoffset := congrArg Position.offset (Prod.mk.inj (Option.some.inj hends)).1
  simpa [endToken, Span.empty, Position.offset_advanceAll] using hoffset

/-- A file with the first three bytes of a character of four, a space and a name. -/
def tornFile : SourceFile where
  name := "a.mgol"
  extension := some "mgol"
  content := ⟨#[0xF0, 0x9F, 0x98, 32, 65, 10]⟩
  lineCount := 1

/-- Its tokens are listed where they are. -/
theorem tokensOf_exact_iff_torn :
    ∃ tokens, (Scanner.ofInput ⟨tornFile.content.toList, none⟩).scanAll.1 = .ok tokens ∧
      (tokensOf tornFile {}).1 = .ok tokens ∧
      tokens.toList.map entry = [(⟨0, 1, 1⟩, .ofError "\uFFFD"),
        (⟨4, 1, 5⟩, ⟨.identifier, "A", .untyped⟩), (⟨6, 2, 1⟩, .endOfFile)] := by
  have hfound : (Scanner.ofInput ⟨tornFile.content.toList, none⟩).scanAll.1.toOption.map
      (fun tokens => tokens.toList.map entry) = some [(⟨0, 1, 1⟩, .ofError "\uFFFD"),
        (⟨4, 1, 5⟩, ⟨.identifier, "A", .untyped⟩), (⟨6, 2, 1⟩, .endOfFile)] := by
    decide +kernel
  cases hscan : (Scanner.ofInput ⟨tornFile.content.toList, none⟩).scanAll.1 with
  | error e =>
    rw [hscan] at hfound
    cases hfound
  | ok tokens =>
    rw [hscan] at hfound
    obtain ⟨-, hexact⟩ := tokensOf_exact_iff tornFile {} {} {} hscan
    exact ⟨tokens, rfl, hexact (by decide +kernel), Option.some.inj hfound⟩

/-- A file with a byte that is no character, and a name. -/
def strayFile : SourceFile where
  name := "a.mgol"
  extension := some "mgol"
  content := ⟨#[0xFF, 65, 10]⟩
  lineCount := 1

/-- **A listing that shows something else**: the name stands in column 2 of the file, and it is
listed in column 4. -/
theorem tokensOf_elsewhere :
    (Scanner.ofInput ⟨strayFile.content.toList, none⟩).scanAll.1.toOption.map
        (fun tokens => tokens.toList.map entry) = some [(⟨0, 1, 1⟩, .ofError "\uFFFD"),
          (⟨1, 1, 2⟩, ⟨.identifier, "A", .untyped⟩), (⟨3, 2, 1⟩, .endOfFile)] ∧
      (tokensOf strayFile {}).1.toOption.map
        (fun tokens => tokens.toList.map entry) = some [(⟨0, 1, 1⟩, .ofError "\uFFFD"),
          (⟨3, 1, 4⟩, ⟨.identifier, "A", .untyped⟩), (⟨5, 2, 1⟩, .endOfFile)] ∧
      (tokensOf strayFile {}).1.toOption.map (fun tokens => tokens.toList.map tokenLine) ≠
        (Scanner.ofInput ⟨strayFile.content.toList, none⟩).scanAll.1.toOption.map
          (fun tokens => tokens.toList.map tokenLine) := by
  decide +kernel

end Command

end Mgol
