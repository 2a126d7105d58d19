import Mathlib.Data.List.TakeWhile
import Mgol.Proofs.Automaton.Languages
import Mgol.Proofs.Scanner.Pieces

/-! # Tokens and their source

The tokens of a source leave nothing out and make nothing up: they lie one behind the other, what
lies between them is blank, and each lexeme is what its span holds.

* **`TrueTo`** — tokens whose spans and lexemes are those of a source.
* **`Covered`** — what lies outside the spans is blank.
* **`OnCharacters`** — spans that hold whole characters.
* **`Scanner.scans_lose_nothing`** — repeated scans up to the end of a text. -/

namespace Mgol

/-- The bytes of a source that a span holds. -/
def Span.slice (span : Span) (source : List UInt8) : List UInt8 :=
  (source.drop span.start.offset).take (span.stop.offset - span.start.offset)

/-- Whether an offset lies in a span. -/
def Span.Holds (span : Span) (i : Nat) : Prop := span.start.offset ≤ i ∧ i < span.stop.offset

/-- **Tokens that are true to their source**: their spans lie in it one behind the other, none of
them empty or with a separator at its start, and their lexemes are what the spans hold. Of what is
longer than a lexeme may be, an error token has the beginning. -/
structure TrueTo (source : List UInt8) (tokens : List (Spanned Token)) : Prop where
  nonempty : ∀ t ∈ tokens, t.span.start.offset < t.span.stop.offset
  inside : ∀ t ∈ tokens, t.span.stop.offset ≤ source.length
  ordered : tokens.Pairwise fun t u => t.span.stop.offset ≤ u.span.start.offset
  unblank : ∀ t ∈ tokens, Unblank (t.span.slice source)
  short : ∀ t ∈ tokens, (t.span.slice source).length ≤ Limits.lexemeLength →
    t.value.lexeme = Text.decodeLossy (t.span.slice source)
  long : ∀ t ∈ tokens, Limits.lexemeLength < (t.span.slice source).length →
    t.value.kind = .error ∧
      t.value.lexeme = Text.decodeLossy ((t.span.slice source).take Limits.lexemeLength)

/-- A source has at most as many tokens as bytes. -/
theorem TrueTo.length_le {source : List UInt8} {tokens : List (Spanned Token)}
    (h : TrueTo source tokens) : tokens.length ≤ source.length := by
  -- generalised over an offset that no token starts before
  have hfrom : ∀ (tokens : List (Spanned Token)) (n : Nat), n ≤ source.length →
      (∀ t ∈ tokens, n ≤ t.span.start.offset) →
      (∀ t ∈ tokens, t.span.start.offset < t.span.stop.offset) →
      (∀ t ∈ tokens, t.span.stop.offset ≤ source.length) →
      tokens.Pairwise (fun t u => t.span.stop.offset ≤ u.span.start.offset) →
      n + tokens.length ≤ source.length := by
    intro tokens
    induction tokens with
    | nil => exact fun n hn _ _ _ _ => hn
    | cons t tokens ih =>
      intro n _ hstart hnonempty hinside hordered
      obtain ⟨hbehind, hordered⟩ := List.pairwise_cons.mp hordered
      obtain ⟨ht, hnonempty⟩ := List.forall_mem_cons.mp hnonempty
      obtain ⟨htop, hinside⟩ := List.forall_mem_cons.mp hinside
      have hn := hstart t List.mem_cons_self
      have hrest := ih t.span.stop.offset htop hbehind hnonempty hinside hordered
      rw [List.length_cons]
      omega
  have hall := hfrom tokens 0 (Nat.zero_le _) (fun _ _ => Nat.zero_le _) h.nonempty h.inside
    h.ordered
  omega

/-- **All of a source is accounted for**: a byte outside the spans is a separator. -/
def Covered (source : List UInt8) (tokens : List (Spanned Token)) : Prop :=
  ∀ i b, source[i]? = some b → (∀ t ∈ tokens, ¬t.span.Holds i) → isSeparator b = true

/-- **Spans on character boundaries**: each holds a part of the text, which is the lexeme unless it
is too long. -/
def OnCharacters (text : String) (tokens : List (Spanned Token)) : Prop :=
  ∀ t ∈ tokens, ∃ before middle after : String, text = before ++ middle ++ after ∧
    before.utf8ByteSize = t.span.start.offset ∧
    (before ++ middle).utf8ByteSize = t.span.stop.offset ∧
    (middle.utf8ByteSize ≤ Limits.lexemeLength → t.value.lexeme = middle)

/-! ## Pieces and their source -/

/-- **A sight with the first bytes of what was read** as its lexeme; a word has all of them. -/
def Sight.Spells (r : List UInt8) : Sight → Prop
  | .fault _ lexeme => lexeme = r.take Limits.lexemeLength
  | .word w =>
    r.length ≤ Limits.lexemeLength ∧ w.lexeme = Text.decodeLossy (r.take Limits.lexemeLength)
  | _ => False

namespace Lexicon

variable {l : Lexicon} {p : Position} {bytes : List UInt8} {pieces : List Piece} {x : Piece}

/-- **Where a piece lies in its source**: between what comes before it and what comes after. -/
theorem Cuts.exists_split (h : l.Cuts p bytes pieces) (hx : x ∈ pieces) :
    ∃ u v, bytes = u ++ (x.bytes ++ v) ∧ x.start = p.advanceAll u ∧ Unblank x.bytes ∧
      l.Reads x.bytes v x.sight := by
  induction h with
  | blank => cases hx
  | @piece p gap after y pieces separators placed unblank read rest ih =>
    rcases List.mem_cons.mp hx with rfl | hx
    · exact ⟨gap, after, rfl, placed, unblank, read⟩
    · obtain ⟨u, v, rfl, hstart, hunblank, hread⟩ := ih hx
      refine ⟨gap ++ (y.bytes ++ u), v, by simp only [List.append_assoc], ?_, hunblank, hread⟩
      rw [hstart, Position.advanceAll_append, Position.advanceAll_append, ← placed]
      rfl

/-- The offset after a piece. -/
theorem offset_stop (x : Piece) : x.stop.offset = x.start.offset + x.bytes.length :=
  x.start.offset_advanceAll x.bytes

/-- What the span of a piece holds. -/
theorem slice_eq {u v : List UInt8} (hx : x.start.offset = u.length) :
    x.span.slice (u ++ (x.bytes ++ v)) = x.bytes := by
  rw [Span.slice]
  simp only [Piece.span, offset_stop, hx, Nat.add_sub_cancel_left]
  rw [List.drop_left, List.take_left]

/-- Pieces lie one behind the other. -/
theorem Cuts.ordered (h : l.Cuts p bytes pieces) :
    pieces.Pairwise fun x y => x.stop.offset ≤ y.start.offset := by
  induction h with
  | blank => exact .nil
  | piece _ _ _ _ rest ih =>
    refine .cons (fun y hy => ?_) ih
    obtain ⟨u, v, -, hstart, -, -⟩ := rest.exists_split hy
    rw [hstart, Position.offset_advanceAll]
    exact Nat.le_add_right _ _

/-- **Outside the pieces there are only separators.** -/
theorem Cuts.covered (h : l.Cuts p bytes pieces) {i : Nat} {b : UInt8} (hb : bytes[i]? = some b)
    (houtside : ∀ x ∈ pieces, ¬x.span.Holds (p.offset + i)) : isSeparator b = true := by
  induction h generalizing i with
  | blank separators => exact separators b (List.mem_of_getElem? hb)
  | @piece p gap after x pieces separators placed _ _ _ ih =>
    obtain ⟨hx, hpieces⟩ := List.forall_mem_cons.mp houtside
    have hstart : x.start.offset = p.offset + gap.length := by
      rw [placed, Position.offset_advanceAll]
    have hstop := offset_stop x
    -- before the piece, in it, or behind it
    by_cases hgap : i < gap.length
    · rw [List.getElem?_append_left hgap] at hb
      exact separators b (List.mem_of_getElem? hb)
    · rw [List.getElem?_append_right (Nat.not_lt.mp hgap)] at hb
      by_cases hin : i - gap.length < x.bytes.length
      · refine absurd ⟨?_, ?_⟩ hx
        · simp only [Piece.span]
          omega
        · simp only [Piece.span]
          omega
      · rw [List.getElem?_append_right (Nat.not_lt.mp hin)] at hb
        refine ih hb fun y hy => ?_
        rw [show x.stop.offset + (i - gap.length - x.bytes.length) = p.offset + i by omega]
        exact hpieces y hy

/-! ## The lexeme of a piece -/

/-- A run is judged by its lexeme. -/
theorem spells_judge (l : Lexicon) (q : Nat) (r : List UInt8) :
    (l.judge q (decide (Limits.lexemeLength < r.length))
      (r.take Limits.lexemeLength)).Spells r := by
  rcases l.judge_cases q (decide (Limits.lexemeLength < r.length))
    (r.take Limits.lexemeLength) with ⟨f, lexeme, hf⟩ | ⟨w, hw, hshort, -, haccept⟩
  · have hlexeme : lexeme = r.take Limits.lexemeLength := by
      unfold judge at hf
      split_ifs at hf
      · exact (Sight.fault.inj hf).2.symm
      · split at hf
        · cases hf
        · exact (Sight.fault.inj hf).2.symm
      · exact (Sight.fault.inj hf).2.symm
    rw [hf]
    exact hlexeme
  · rw [hw]
    refine ⟨Nat.not_lt.mp (of_decide_eq_false hshort), ?_⟩
    unfold accept at haccept
    split at haccept
    · rw [← Option.some.inj haccept]
    · cases haccept

/-- **What is read is spelled as it stands there.** -/
theorem Reads.spells {r after : List UInt8} {sight : Sight} (h : l.Reads r after sight) :
    sight.Spells r := by
  cases h with
  | @stray b taken _ stuck continued =>
    -- a byte and the three at most that it leads are never too long
    have hcount : continuationCount b ≤ 3 := by
      unfold continuationCount
      split_ifs <;> decide
    have htaken : taken.length ≤ continuationCount b := by
      rw [continued]
      exact (List.takeWhile_prefix _).length_le.trans (List.length_take_le _ _)
    refine (List.take_of_length_le ?_).symm
    rw [List.length_cons]
    exact (Nat.succ_le_succ (htaken.trans hcount)).trans (by decide)
  | run => exact l.spells_judge _ r

/-- **The lexeme of a token** is the beginning of its piece, and too long a piece is an error. -/
theorem Reads.token {after : List UInt8} (h : l.Reads x.bytes after x.sight) {r : Registry}
    (hr : r.Sound) :
    (x.token r).value.lexeme = Text.decodeLossy (x.bytes.take Limits.lexemeLength) ∧
      (Limits.lexemeLength < x.bytes.length → (x.token r).value.kind = .error) := by
  have hspells := h.spells
  unfold Piece.token
  cases hsight : x.sight with
  | fault f lexeme =>
    rw [hsight] at hspells
    exact ⟨by rw [← show lexeme = _ from hspells]; rfl, fun _ => rfl⟩
  | word w =>
    rw [hsight] at hspells
    refine ⟨?_, fun hlong => absurd hlong (Nat.not_lt.mpr hspells.1)⟩
    simp only [Sight.hand]
    split_ifs with hkind
    · rw [hr.lexeme_insert, hspells.2]
    · exact hspells.2
  | broken | ended =>
    rw [hsight] at hspells
    exact hspells.elim

end Lexicon

/-- What is handed out keeps a registry sound. -/
theorem Registry.Sound.hand {r : Registry} (h : r.Sound) (sight : Sight) :
    (sight.hand r).2.Sound := by
  cases sight with
  | word w =>
    simp only [Sight.hand]
    split_ifs with hkind
    · exact h.insert w
    · exact h
  | _ => exact h

/-! ## The tokens of pieces -/

/-- The tokens of pieces lie where the pieces do. -/
theorem map_span_tokensOf (r : Registry) (pieces : List Piece) :
    (tokensOf r pieces).map Spanned.span = pieces.map Piece.span := by
  induction pieces generalizing r with
  | nil => rfl
  | cons x pieces ih =>
    rw [tokensOf, List.map_cons, ih, List.map_cons]
    rfl

/-- **A token of pieces** is that of one of them, with a registry that has what all of them keep. -/
theorem exists_piece {P : Registry → Prop} {pieces : List Piece}
    (hkeep : ∀ x ∈ pieces, ∀ r, P r → P (x.sight.hand r).2) {r : Registry} (hr : P r)
    {t : Spanned Token} (ht : t ∈ tokensOf r pieces) :
    ∃ x ∈ pieces, ∃ r', P r' ∧ t = x.token r' := by
  induction pieces generalizing r with
  | nil => cases ht
  | cons x pieces ih =>
    obtain ⟨hx, hkeep⟩ := List.forall_mem_cons.mp hkeep
    rcases List.mem_cons.mp ht with rfl | ht
    · exact ⟨x, List.mem_cons_self, r, hr, rfl⟩
    · obtain ⟨y, hy, r', hr', rfl⟩ := ih hkeep (hx r hr) ht
      exact ⟨y, List.mem_cons_of_mem _ hy, r', hr', rfl⟩

/-- **The tokens of the pieces of a source are true to it.** -/
theorem Lexicon.Cuts.trueTo {l : Lexicon} {source : List UInt8} {pieces : List Piece}
    (h : l.Cuts .start source pieces) {r : Registry} (hr : r.Sound) (n : Nat) :
    TrueTo source (tokensOf r (pieces.take n)) := by
  -- every token is that of a piece, and its span holds the bytes of the piece
  have hpiece : ∀ t ∈ tokensOf r (pieces.take n), ∃ x : Piece, t.span = x.span ∧
      t.span.slice source = x.bytes ∧ x.stop.offset ≤ source.length ∧ x.bytes ≠ [] ∧
      Unblank x.bytes ∧
      t.value.lexeme = Text.decodeLossy (x.bytes.take Limits.lexemeLength) ∧
      (Limits.lexemeLength < x.bytes.length → t.value.kind = .error) := by
    intro t ht
    obtain ⟨x, hx, r', hr', rfl⟩ := exists_piece (fun x _ r hr => hr.hand x.sight) hr ht
    obtain ⟨u, v, rfl, hstart, hunblank, hread⟩ := h.exists_split (List.mem_of_mem_take hx)
    have hoffset : x.start.offset = u.length := by
      rw [hstart, Position.offset_advanceAll]
      exact Nat.zero_add _
    obtain ⟨hlexeme, hlong⟩ := hread.token hr'
    refine ⟨x, rfl, slice_eq hoffset, ?_, hread.ne_nil, hunblank, hlexeme, hlong⟩
    rw [offset_stop, hoffset, List.length_append, List.length_append]
    omega
  constructor
  case nonempty =>
    intro t ht
    obtain ⟨x, hspan, -, -, hne, -, -, -⟩ := hpiece t ht
    have := List.length_pos_iff.mpr hne
    rw [hspan]
    simp only [Piece.span, offset_stop]
    omega
  case inside =>
    intro t ht
    obtain ⟨x, hspan, -, hinside, -, -, -, -⟩ := hpiece t ht
    rw [hspan]
    exact hinside
  case ordered =>
    have hordered := (h.ordered.sublist (List.take_sublist n pieces)).map (f := Piece.span)
      (S := fun a b : Span => a.stop.offset ≤ b.start.offset) fun _ _ hle => hle
    rw [← map_span_tokensOf r, List.pairwise_map] at hordered
    exact hordered
  case unblank =>
    intro t ht
    obtain ⟨x, -, hslice, -, -, hunblank, -, -⟩ := hpiece t ht
    rw [hslice]
    exact hunblank
  case short =>
    intro t ht hshort
    obtain ⟨x, -, hslice, -, -, -, hlexeme, -⟩ := hpiece t ht
    rw [hslice] at hshort ⊢
    rw [hlexeme, List.take_of_length_le hshort]
  case long =>
    intro t ht hlong
    obtain ⟨x, -, hslice, -, -, -, hlexeme, herror⟩ := hpiece t ht
    rw [hslice] at hlong ⊢
    exact ⟨herror hlong, hlexeme⟩

/-! ## Character boundaries -/

namespace Lexicon

/-- The bytes that the transitions of MGol name are in ASCII. -/
theorem ascii_of_accepts {t : Transition} (ht : t ∈ mgolTransitions) {b : UInt8}
    (hb : t.reads.accepts b = true) : b.toNat < 0x80 := by
  have hnamed : ∀ t ∈ mgolTransitions, ∀ c, t.reads = .byte c → c.toNat < 0x80 := by
    intro t ht c hc
    simp only [mgolTransitions, List.mem_cons, List.not_mem_nil, or_false] at ht
    repeat' rcases ht with rfl | ht
    all_goals cases hc
    all_goals decide
  cases hreads : t.reads with
  | byte c =>
    rw [hreads, ByteClass.accepts, beq_iff_eq] at hb
    rw [← hb]
    exact hnamed t ht c hreads
  | letter =>
    rw [hreads] at hb
    exact ((char_of_byte b).1 hb).1
  | digit =>
    rw [hreads] at hb
    exact ((char_of_byte b).2 hb).1
  | other =>
    rw [hreads] at hb
    cases hb

/-- **A stretch of MGol ends behind an ASCII byte**, unless the source ends there. -/
theorem ascii_of_stuck {r after : List UInt8} {b c : UInt8} {q : Nat}
    (hrun : mgolAutomaton.run mgolAutomaton.initial (r ++ [b]) = some q)
    (hstuck : mgolAutomaton.Stuck q (c :: after)) : b.toNat < 0x80 := by
  rw [Automaton.run_concat_eq, Option.bind_eq_some_iff] at hrun
  obtain ⟨p, -, hnext⟩ := hrun
  obtain ⟨t, ht, hsource, rfl, hreads⟩ := exists_transition hnext
  rcases hreads with hnamed | hother
  · exact ascii_of_accepts ht hnamed
  · -- within a comment or a text the automaton goes on with every byte
    obtain ⟨p', d, q', rfl⟩ := exists_edge ht
    obtain rfl : d = .other := hother
    have hnone : mgolAutomaton.next q'.number c = none := hstuck c rfl
    have hgoes : ∃ q'' : Stage, mgolAutomaton.next q'.number c = some q''.number := by
      rcases edge_other_iff.mp ht with ⟨-, rfl⟩ | ⟨-, rfl⟩
      · by_cases hc : c = '\x7d'.toUInt8
        · exact ⟨.comment, next_number_iff.mpr (.inl ⟨_, edge_commentBody_iff.mpr (.inl ⟨rfl, rfl⟩),
            accepts_char.mpr hc⟩)⟩
        · exact ⟨.commentBody, next_number_iff.mpr (.inr (.inl ⟨rfl, rfl, hc⟩))⟩
      · by_cases hc : c = '"'.toUInt8
        · exact ⟨.literal, next_number_iff.mpr (.inl ⟨_, edge_literalBody_iff.mpr (.inl ⟨rfl, rfl⟩),
            accepts_char.mpr hc⟩)⟩
        · exact ⟨.literalBody, next_number_iff.mpr (.inr (.inr ⟨rfl, rfl, hc⟩))⟩
    obtain ⟨q'', hsome⟩ := hgoes
    rw [hnone] at hsome
    cases hsome

/-- **What MGol reads of a text is a text**, and so is what is left. -/
theorem Reads.isText {r after : List UInt8} {sight : Sight} (h : Lexicon.mgol.Reads r after sight)
    (htext : Text.IsText (r ++ after)) : Text.IsText r ∧ Text.IsText after := by
  cases h with
  | @stray b taken _ stuck continued =>
    rw [List.cons_append] at htext
    obtain ⟨more, after', heq, hcount, hcontinues, hfirst, hrest⟩ := htext.exists_character
    -- what continues the byte is the rest of its character
    have htaken : taken = more := by
      rw [heq, hcount, List.take_left, List.takeWhile_eq_self_iff.mpr hcontinues] at continued
      exact continued
    subst htaken
    obtain rfl := List.append_cancel_left heq
    exact ⟨hfirst, hrest⟩
  | @run _ _ q some_byte read hstuck =>
    cases after with
    | nil => exact ⟨List.append_nil r ▸ htext, .nil⟩
    | cons c after =>
      obtain ⟨r', b, rfl⟩ : ∃ r' b, r = r' ++ [b] :=
        ⟨r.dropLast, r.getLast some_byte, (List.dropLast_concat_getLast some_byte).symm⟩
      have hb : b.toNat < 0x80 := ascii_of_stuck read hstuck
      rw [List.append_assoc, List.singleton_append] at htext
      exact htext.of_ascii hb

/-- Separators are taken off a text. -/
theorem isText_of_gap {gap rest : List UInt8} (hgap : ∀ b ∈ gap, isSeparator b = true)
    (h : Text.IsText (gap ++ rest)) : Text.IsText gap ∧ Text.IsText rest := by
  have hascii : ∀ b, isSeparator b = true → b.toNat < 0x80 := by
    intro b hb
    simp only [isSeparator, Bool.or_eq_true, beq_iff_eq] at hb
    rcases hb with ((rfl | rfl) | rfl) | rfl <;> decide
  induction gap with
  | nil => exact ⟨.nil, h⟩
  | cons b gap ih =>
    obtain ⟨hb, hgap⟩ := List.forall_mem_cons.mp hgap
    obtain ⟨hone, hmore⟩ := Text.IsText.of_ascii (u := []) h (hascii b hb)
    obtain ⟨hgap, hrest⟩ := ih hgap hmore
    exact ⟨hone.append hgap, hrest⟩

/-- **A piece of a text is a text** between two others. -/
theorem Cuts.isText {p : Position} {bytes : List UInt8} {pieces : List Piece} {x : Piece}
    (h : Lexicon.mgol.Cuts p bytes pieces) (htext : Text.IsText bytes) (hx : x ∈ pieces) :
    ∃ u v, bytes = u ++ (x.bytes ++ v) ∧ x.start = p.advanceAll u ∧ Text.IsText u ∧
      Text.IsText x.bytes ∧ Text.IsText v := by
  induction h with
  | blank => cases hx
  | @piece p gap after y pieces separators placed unblank read rest ih =>
    obtain ⟨hgap, hmore⟩ := isText_of_gap separators htext
    obtain ⟨hy, hafter⟩ := read.isText hmore
    rcases List.mem_cons.mp hx with rfl | hx
    · exact ⟨gap, after, rfl, placed, hgap, hy, hafter⟩
    · obtain ⟨u, v, rfl, hstart, hu, hpiece, hv⟩ := ih hafter hx
      refine ⟨gap ++ (y.bytes ++ u), v, by simp only [List.append_assoc], ?_,
        hgap.append (hy.append hu), hpiece, hv⟩
      rw [hstart, Position.advanceAll_append, Position.advanceAll_append, ← placed]
      rfl

/-- **The tokens of a text of MGol lie on characters.** -/
theorem Cuts.onCharacters {text : String} {pieces : List Piece}
    (h : Lexicon.mgol.Cuts .start (Text.encode text) pieces) {r : Registry} (hr : r.Sound)
    (n : Nat) :
    OnCharacters text (tokensOf r (pieces.take n)) := by
  intro t ht
  obtain ⟨x, hx, r', hr', rfl⟩ := exists_piece (fun x _ r hr => hr.hand x.sight) hr ht
  have hmem := List.mem_of_mem_take hx
  obtain ⟨_, _, _, _, _, hread⟩ := h.exists_split hmem
  obtain ⟨u, v, hbytes, hstart, ⟨before, rfl⟩, ⟨middle, hmiddle⟩, ⟨after, rfl⟩⟩ :=
    h.isText ⟨text, rfl⟩ hmem
  have hoffset : x.start.offset = before.utf8ByteSize := by
    rw [hstart, Position.offset_advanceAll, Text.length_encode]
    exact Nat.zero_add _
  refine ⟨before, middle, after, ?_, hoffset.symm, ?_, ?_⟩
  · apply Text.encode_injective
    rw [hbytes, Text.encode_append, Text.encode_append, hmiddle, List.append_assoc]
  · rw [← Text.length_encode, Text.encode_append, List.length_append, Text.length_encode]
    simp only [Piece.token, Piece.span, offset_stop, hoffset, hmiddle]
  · intro hshort
    rw [← Text.length_encode] at hshort
    rw [(hread.token hr').1, hmiddle, List.take_of_length_le hshort, Text.decodeLossy_encode]

end Lexicon

/-! ## Scanning to the end -/

/-- A registry without tokens of the end of the file. -/
def Registry.Endless (r : Registry) : Prop :=
  ∀ lexeme t, r.get? lexeme = some t → t.kind ≠ .endOfFile

/-- A lexicon without words of the end of the file. -/
def Lexicon.Endless (l : Lexicon) : Prop := ∀ q, l.classOf? q ≠ some .endOfFile

/-- A name is handed out as an entry that is not the end of the file. -/
theorem Registry.Endless.insert {r : Registry} (h : r.Endless) {w : Token}
    (hw : w.kind ≠ .endOfFile) : (r.insert w).1.kind ≠ .endOfFile ∧ (r.insert w).2.Endless := by
  have hentry : (r.insert w).1.kind ≠ .endOfFile := by
    rw [insert_fst]
    cases hold : r.get? w.lexeme with
    | none => exact hw
    | some old => exact h _ _ hold
  refine ⟨hentry, fun lexeme t ht => ?_⟩
  rw [get?_insert] at ht
  split_ifs at ht
  · rw [← Option.some.inj ht]
    exact hentry
  · exact h _ _ ht

/-- **Nothing that is read is handed out as the end of the file**, if neither the lexicon nor the
registry has it. -/
theorem Lexicon.Reads.endless {l : Lexicon} (hl : l.Endless) {bytes after : List UInt8}
    {sight : Sight} (h : l.Reads bytes after sight) {r : Registry} (hr : r.Endless) :
    (sight.hand r).1.kind ≠ .endOfFile ∧ (sight.hand r).2.Endless := by
  cases sight with
  | fault => exact ⟨nofun, hr⟩
  | word w =>
    have hw : w.kind ≠ .endOfFile := by
      generalize hsight : Sight.word w = sight at h
      cases h with
      | stray => cases hsight
      | @run _ _ q =>
        rcases l.judge_cases q (decide (Limits.lexemeLength < bytes.length))
          (bytes.take Limits.lexemeLength) with ⟨f, b, hf⟩ | ⟨w', hw', -, -, haccept⟩
        · rw [hf] at hsight
          cases hsight
        · rw [hw'] at hsight
          cases hsight
          unfold accept at haccept
          split at haccept
          · next kind hkind =>
            rw [← Option.some.inj haccept]
            rintro rfl
            exact hl q hkind
          · cases haccept
    simp only [Sight.hand]
    split_ifs
    · exact hr.insert hw
    · exact ⟨hw, hr⟩
  | broken | ended => exact h.spells.elim

/-- No token of such pieces is the end of the file. -/
theorem Lexicon.Cuts.endless_tokens {l : Lexicon} {p : Position} {bytes : List UInt8}
    {pieces : List Piece} (h : l.Cuts p bytes pieces) (hl : l.Endless) {r : Registry}
    (hr : r.Endless) : ∀ t ∈ tokensOf r pieces, t.value.isEndOfFile = false := by
  have hendless : ∀ x ∈ pieces, ∀ r : Registry, r.Endless →
      (x.sight.hand r).1.kind ≠ .endOfFile ∧ (x.sight.hand r).2.Endless := by
    intro x hx r hr
    obtain ⟨_, _, _, _, _, hread⟩ := h.exists_split hx
    exact hread.endless hl hr
  intro t ht
  obtain ⟨x, hx, r', hr', rfl⟩ := exists_piece (fun x hx r hr => (hendless x hx r hr).2) hr ht
  simp only [Token.isEndOfFile, decide_eq_false_iff_not]
  intro heq
  exact (hendless x hx r' hr').1 (congrArg Token.kind heq)

/-- The words of MGol are not the end of the file. -/
theorem Lexicon.endless_mgol : Lexicon.mgol.Endless := by
  intro q hq
  unfold classOf? at hq
  split at hq
  · next e he =>
    have hnone : ∀ e ∈ mgolClasses, e.2 ≠ .endOfFile := by decide
    exact hnone e (List.mem_reverse.mp (List.mem_of_find?_eq_some he)) (Option.some.inj hq)
  · cases hq

/-- The reserved words are not the end of the file. -/
theorem Registry.endless_reserved : reserved.Endless := by
  intro lexeme t ht hkind
  rcases plain_reserved lexeme t ht with h | ⟨word, h, -⟩
  · rw [h] at hkind
    cases hkind
  · rw [h] at hkind
    cases hkind

namespace Scanner

/-- **Scanning loses nothing and makes nothing up.** Repeated scans of a text hand out tokens that
are true to it, and with the tokens of MGol they lie on characters. Unless the limit is reached, the
end of the file follows with an empty span at the end of the text, all of the text is accounted
for, and the tokens up to that end are those found in one go, if nothing else can be taken for the
end of the file. -/
theorem scans_lose_nothing (text : String) (l : Lexicon) (r : Registry) (journal : Journal)
    (options : ScanOptions) (hr : r.Sound) :
    let s := ofInput ⟨Text.encode text, none⟩ l ⟨r, journal⟩ options
    ∃ tokens s', s.Scans tokens s' ∧ tokens.length ≤ Limits.tokenCount ∧
      TrueTo (Text.encode text) tokens ∧ (l = .mgol → OnCharacters text tokens) ∧
      (tokens.length < Limits.tokenCount →
        ∃ stop s'', stop.offset = text.utf8ByteSize ∧
          s'.scan = (.ok (endToken stop), s'') ∧
          Covered (Text.encode text) tokens ∧
          (l.Endless → r.Endless →
            s.scanAll.1 = .ok (tokens ++ [endToken stop]).toArray)) := by
  intro s
  obtain ⟨pieces, hcuts⟩ := l.exists_cuts .start (Text.encode text)
  have hfaces : s.Faces pieces := ⟨rfl, hcuts⟩
  -- the scanner hands out as many pieces as the limit allows
  have hsplit : s.Faces (pieces.take Limits.tokenCount ++ pieces.drop Limits.tokenCount) := by
    rw [List.take_append_drop]
    exact hfaces
  have hroom : s.metrics.tokens + (pieces.take Limits.tokenCount).length ≤ Limits.tokenCount := by
    rw [List.length_take, show s.metrics.tokens = 0 from rfl]
    omega
  obtain ⟨s', hscans, hfaces', hpasses⟩ := hsplit.scans hroom
  refine ⟨tokensOf r (pieces.take Limits.tokenCount), s', hscans, ?_, hcuts.trueTo hr _, ?_, ?_⟩
  · rw [length_tokensOf, List.length_take]
    exact Nat.min_le_left _ _
  · rintro rfl
    exact hcuts.onCharacters hr _
  · intro hbelow
    rw [length_tokensOf, List.length_take] at hbelow
    have hall : pieces.length < Limits.tokenCount := by omega
    rw [List.take_of_length_le hall.le] at hpasses ⊢
    rw [List.drop_eq_nil_of_le hall.le] at hfaces'
    have hcount : s'.metrics.tokens < Limits.tokenCount := by
      rw [hpasses.counted]
      exact (Nat.zero_add _).trans_lt hall
    obtain ⟨s'', hscan, -⟩ := hfaces'.scan_nil hcount
    have hfinish : s'.finish = Position.start.advanceAll (Text.encode text) := hpasses.finish_eq
    refine ⟨s'.finish, s'', ?_, hscan, ?_, ?_⟩
    · rw [hfinish, Position.offset_advanceAll, Text.length_encode]
      exact Nat.zero_add _
    · intro i b hb houtside
      refine hcuts.covered hb fun x hx hholds => ?_
      have hspan : x.span ∈ (tokensOf r pieces).map Spanned.span := by
        rw [map_span_tokensOf]
        exact List.mem_map_of_mem hx
      obtain ⟨t, ht, hspan⟩ := List.mem_map.mp hspan
      refine houtside t ht ?_
      rw [hspan, ← Nat.zero_add i]
      exact hholds
    · intro hl hr'
      have hmore := hcuts.endless_tokens hl hr'
      obtain ⟨s₃, hscanAll, -⟩ := hfaces.scanAll ((Nat.zero_add _).trans_lt hall) hmore
      rw [hscanAll, hfinish]
      rfl

/-- A name and a character that is no word: both lie where they stand in the text. -/
theorem scans_lose_nothing_accent :
    ∃ tokens s' stop s'', (ofInput ⟨Text.encode "a é", none⟩).Scans tokens s' ∧
      TrueTo (Text.encode "a é") tokens ∧ OnCharacters "a é" tokens ∧
      stop.offset = "a é".utf8ByteSize ∧ s'.scan = (.ok (endToken stop), s'') ∧
      Covered (Text.encode "a é") tokens ∧
      (ofInput ⟨Text.encode "a é", none⟩).scanAll.1 = .ok (tokens ++ [endToken stop]).toArray := by
  obtain ⟨tokens, s', hscans, -, htrue, hcharacters, hend⟩ :=
    scans_lose_nothing "a é" .mgol .reserved {} {} Registry.sound_reserved
  have hbelow : tokens.length < Limits.tokenCount :=
    htrue.length_le.trans_lt (by rw [Text.length_encode]; decide)
  obtain ⟨stop, s'', hoffset, hscan, hcovered, hall⟩ := hend hbelow
  exact ⟨tokens, s', stop, s'', hscans, htrue, hcharacters rfl, hoffset, hscan, hcovered,
    hall Lexicon.endless_mgol Registry.endless_reserved⟩

end Scanner

end Mgol
