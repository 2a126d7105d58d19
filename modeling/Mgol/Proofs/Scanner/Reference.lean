import Mgol.Proofs.Scanner.Coverage

/-! # A reference lexer

What the tokens of a source are, said without a scanner: separators are skipped, and what follows is
the longest stretch that the automaton can read. Its language says what it is.

* **`Automaton.Longest`** — the longest stretch from the initial state.
* **`Forms`, `Lexes`** — the lexeme at the beginning of some bytes, and all lexemes of a source.
* **`Lexes.exists_cuts`, `lexes_of_cuts`** — they are the pieces that MGol cuts a source into.
* **`Registry.Holds`** — the reserved words and the names met so far.
* **`Scanner.scanAll_refines`** — the scanner hands out the tokens of the reference lexer. -/

namespace Mgol

/-! ## The longest stretch -/

/-- **The longest stretch that an automaton can read** from its initial state. -/
def Automaton.Longest (a : Automaton) (bytes r : List UInt8) : Prop :=
  r <+: bytes ∧ (a.run a.initial r).isSome ∧
    ∀ r', r' <+: bytes → (a.run a.initial r').isSome → r'.length ≤ r.length

/-- The longest stretch is the one behind which the automaton is stuck. -/
theorem Automaton.longest_iff {a : Automaton} {r after : List UInt8} :
    a.Longest (r ++ after) r ↔ ∃ q, a.run a.initial r = some q ∧ a.Stuck q after := by
  constructor
  · rintro ⟨-, hread, hlongest⟩
    obtain ⟨q, hq⟩ := Option.isSome_iff_exists.mp hread
    refine ⟨q, hq, fun b hb => ?_⟩
    -- a byte that goes on would make a longer stretch
    obtain ⟨more, rfl⟩ : ∃ more, after = b :: more := by
      cases after with
      | nil => cases hb
      | cons c more => exact ⟨more, by rw [Option.some.inj (Option.mem_def.mp hb)]⟩
    by_contra hnext
    obtain ⟨q', hq'⟩ := Option.ne_none_iff_exists'.mp hnext
    have hlonger := hlongest (r ++ [b]) ⟨more, by simp⟩ (by rw [run_concat hq hq']; rfl)
    rw [List.length_append, List.length_singleton] at hlonger
    omega
  · rintro ⟨q, hq, hstuck⟩
    refine ⟨⟨after, rfl⟩, by rw [hq]; rfl, fun r' hprefix hread => ?_⟩
    by_contra hlonger
    obtain ⟨more, rfl⟩ : r <+: r' :=
      List.prefix_of_prefix_length_le ⟨after, rfl⟩ hprefix (by omega)
    cases more with
    | nil => simp at hlonger
    | cons b more =>
      have hb : b ∈ after.head? := by
        obtain ⟨rest, hrest⟩ := hprefix
        rw [List.append_assoc] at hrest
        rw [← List.append_cancel_left hrest]
        rfl
      rw [run_append, hq, Option.bind_some, run, hstuck b hb] at hread
      cases hread

/-! ## The reference lexer -/

/-- **The token of a word**: a word spelled like a reserved word is that word, any other is a name,
and what is no word at all has its own class and type. -/
def TokenClass.tokenOf (c : TokenClass) (lexeme : String) : Token :=
  if c = .identifier then
    match Keyword.ofSpelling? lexeme with
    | some word => .ofKeyword word
    | none => ⟨.identifier, lexeme, .untyped⟩
  else ⟨c, lexeme, Lexicon.typeOf c lexeme⟩

/-- **The lexeme at the beginning of some bytes**, with the bytes behind it, its token and what is
wrong with it. -/
inductive Forms : List UInt8 → List UInt8 → Token → Option LexemeFault → Prop
  | stray {b : UInt8} {taken after : List UInt8}
      (stuck : Lexicon.mgolAutomaton.Longest (b :: (taken ++ after)) [])
      (continued : taken = ((taken ++ after).take (continuationCount b)).takeWhile isContinuation) :
      Forms (b :: taken) after (.ofError (Text.decodeLossy (b :: taken)))
        (some (.classify (b :: taken)))
  | tooLong {r after : List UInt8} (longest : Lexicon.mgolAutomaton.Longest (r ++ after) r)
      (long : Limits.lexemeLength < r.length) :
      Forms r after (.ofError (Text.decodeLossy (r.take Limits.lexemeLength)))
        (some .lexemeTooLong)
  | word {r after : List UInt8} {c : TokenClass}
      (longest : Lexicon.mgolAutomaton.Longest (r ++ after) r)
      (short : r.length ≤ Limits.lexemeLength) (member : r ∈ c.language) :
      Forms r after (c.tokenOf (Text.decodeLossy r)) none
  | bad {r after : List UInt8} (longest : Lexicon.mgolAutomaton.Longest (r ++ after) r)
      (some_byte : r ≠ []) (short : r.length ≤ Limits.lexemeLength)
      (no_class : ∀ c : TokenClass, r ∉ c.language) :
      Forms r after (.ofError (Text.decodeLossy r)) (some (.classify r))

/-- **A token of the reference lexer**, with its place and what is wrong with it. -/
structure Lexed where
  token : Token
  span : Span
  fault : Option LexemeFault
  deriving DecidableEq, Repr

/-- The token in its place. -/
def Lexed.spanned (x : Lexed) : Spanned Token := ⟨x.token, x.span⟩

/-- **The reference lexer**: separators are skipped, lexemes are taken, up to the end. -/
inductive Lexes : Position → List UInt8 → List Lexed → Position → Prop
  | done {p : Position} : Lexes p [] [] p
  | skip {p stop : Position} {b : UInt8} {rest : List UInt8} {lexed : List Lexed}
      (separator : isSeparator b = true) (more : Lexes (p.advance b) rest lexed stop) :
      Lexes p (b :: rest) lexed stop
  | take {p stop : Position} {r after : List UInt8} {token : Token} {fault : Option LexemeFault}
      {lexed : List Lexed} (unblank : Unblank r) (lexeme : Forms r after token fault)
      (more : Lexes (p.advanceAll r) after lexed stop) :
      Lexes p (r ++ after) (⟨token, ⟨p, p.advanceAll r⟩, fault⟩ :: lexed) stop

/-- The diagnostic of a lexeme with which something is wrong. -/
def Lexed.report? (x : Lexed) : Option Diagnostic :=
  x.fault.map fun f =>
    { kind := .lexical
      code := f.code
      message := f.message ++ " '" ++ Text.escapeMessage x.token.lexeme ++ "'"
      position := x.span.start
      lexeme := some x.token.lexeme }

/-! ## Lexemes and pieces -/

/-- The token that a sight stands for. -/
def Sight.token : Sight → Token
  | .fault _ bytes => .ofError (Text.decodeLossy bytes)
  | .word w => if w.kind = .identifier then w.kind.tokenOf w.lexeme else w
  | .broken _ | .ended => .endOfFile

/-- What is wrong with what is seen. -/
def Sight.fault? : Sight → Option LexemeFault
  | .fault f _ => some f
  | _ => none

/-- A piece as the reference lexer has it. -/
def Piece.lexed (x : Piece) : Lexed := ⟨x.sight.token, x.span, x.sight.fault?⟩

/-- The token of a word that is accepted is the token of its class. -/
theorem token_word (c : TokenClass) (lexeme : String) :
    (Sight.word ⟨c, lexeme, Lexicon.typeOf c lexeme⟩).token = c.tokenOf lexeme := by
  simp only [Sight.token, TokenClass.tokenOf]
  split_ifs <;> rfl

/-- No class has the empty word. -/
theorem ne_nil_of_mem_language {r : List UInt8} {c : TokenClass} (h : r ∈ c.language) : r ≠ [] := by
  rintro rfl
  obtain ⟨q, hclass, hq⟩ := Lexicon.mem_language_iff.mp h
  rw [Lexicon.nil_mem_reading_iff.mp hq] at hclass
  cases hclass

/-- **What a run of MGol is judged to be** depends on the languages alone. -/
theorem judge_mgol {r : List UInt8} {q : Nat}
    (hrun : Lexicon.mgolAutomaton.run Lexicon.mgolAutomaton.initial r = some q) :
    (∀ c : TokenClass, r ∈ c.language → Lexicon.mgol.judge q false r =
        .word ⟨c, Text.decodeLossy r, Lexicon.typeOf c (Text.decodeLossy r)⟩) ∧
      ((∀ c : TokenClass, r ∉ c.language) →
        Lexicon.mgol.judge q false r = .fault (.classify r) r) := by
  constructor
  · intro c hc
    obtain ⟨q', hrun', hfinal, hclass⟩ := Lexicon.accepts_iff_mem_language.mpr hc
    obtain rfl : q = q' := Option.some.inj (hrun.symm.trans hrun')
    have hfinal : Lexicon.mgol.automaton.isFinal q = true := hfinal
    rw [Lexicon.judge, if_neg Bool.false_ne_true, if_pos hfinal, Lexicon.accept, hclass]
  · intro hnone
    rw [Lexicon.judge, if_neg Bool.false_ne_true]
    by_cases hfinal : Lexicon.mgol.automaton.isFinal q = true
    · have hclass : Lexicon.mgol.classOf? q = none := by
        rw [Option.eq_none_iff_forall_ne_some]
        intro c hclass
        exact hnone c (Lexicon.accepts_iff_mem_language.mp ⟨q, hrun, hfinal, hclass⟩)
      rw [if_pos hfinal, Lexicon.accept, hclass]
    · rw [if_neg hfinal]

/-- **The lexemes of the reference lexer are what MGol reads.** -/
theorem forms_iff {r after : List UInt8} {token : Token} {fault : Option LexemeFault} :
    Forms r after token fault ↔
      ∃ sight, Lexicon.mgol.Reads r after sight ∧ token = sight.token ∧ fault = sight.fault? := by
  constructor
  · intro h
    cases h with
    | @stray b taken _ stuck continued =>
      obtain ⟨q, hq, hstuck⟩ := (Automaton.longest_iff (r := [])).mp stuck
      obtain rfl := Option.some.inj hq
      exact ⟨_, .stray (hstuck b rfl) continued, rfl, rfl⟩
    | tooLong longest long =>
      obtain ⟨q, hq, hstuck⟩ := Automaton.longest_iff.mp longest
      have hne : r ≠ [] := by
        rintro rfl
        simp at long
      refine ⟨_, .run hne hq hstuck, ?_⟩
      simp [Lexicon.judge, long, Sight.token, Sight.fault?]
    | word longest short member =>
      obtain ⟨q, hq, hstuck⟩ := Automaton.longest_iff.mp longest
      refine ⟨_, .run (ne_nil_of_mem_language member) hq hstuck, ?_⟩
      rw [decide_eq_false (Nat.not_lt.mpr short), List.take_of_length_le short,
        (judge_mgol hq).1 _ member, token_word]
      exact ⟨rfl, rfl⟩
    | bad longest some_byte short no_class =>
      obtain ⟨q, hq, hstuck⟩ := Automaton.longest_iff.mp longest
      refine ⟨_, .run some_byte hq hstuck, ?_⟩
      rw [decide_eq_false (Nat.not_lt.mpr short), List.take_of_length_le short,
        (judge_mgol hq).2 no_class]
      exact ⟨rfl, rfl⟩
  · rintro ⟨sight, h, rfl, rfl⟩
    cases h with
    | @stray b taken _ stuck continued =>
      refine .stray ((Automaton.longest_iff (r := [])).mpr ⟨_, rfl, ?_⟩) continued
      intro c hc
      rw [← Option.some.inj (Option.mem_def.mp hc)]
      exact stuck
    | @run _ _ q some_byte read stuck =>
      have hlongest := Automaton.longest_iff.mpr ⟨q, read, stuck⟩
      by_cases hlong : Limits.lexemeLength < r.length
      · rw [show Lexicon.mgol.judge q (decide (Limits.lexemeLength < r.length))
          (r.take Limits.lexemeLength) = .fault .lexemeTooLong (r.take Limits.lexemeLength) by
            simp [Lexicon.judge, hlong]]
        exact .tooLong hlongest hlong
      · have hshort := Nat.not_lt.mp hlong
        rw [decide_eq_false hlong, List.take_of_length_le hshort]
        by_cases hclass : ∃ c : TokenClass, r ∈ c.language
        · obtain ⟨c, hc⟩ := hclass
          rw [(judge_mgol read).1 c hc, token_word]
          exact .word hlongest hshort hc
        · rw [not_exists] at hclass
          rw [(judge_mgol read).2 hclass]
          exact .bad hlongest some_byte hshort hclass

/-- One more separator in front of a source in pieces. -/
theorem Lexicon.Cuts.skip {l : Lexicon} {p : Position} {b : UInt8} {bytes : List UInt8}
    {pieces : List Piece} (hb : isSeparator b = true) (h : l.Cuts (p.advance b) bytes pieces) :
    l.Cuts p (b :: bytes) pieces := by
  cases h with
  | blank separators => exact .blank (List.forall_mem_cons.mpr ⟨hb, separators⟩)
  | @piece _ gap _ _ _ separators placed unblank read rest =>
    rw [← List.cons_append]
    exact .piece (List.forall_mem_cons.mpr ⟨hb, separators⟩) placed unblank read rest

/-- **The reference lexer cuts a source into pieces of MGol**, up to its end. -/
theorem Lexes.exists_cuts {p stop : Position} {bytes : List UInt8} {lexed : List Lexed}
    (h : Lexes p bytes lexed stop) :
    ∃ pieces, Lexicon.mgol.Cuts p bytes pieces ∧ lexed = pieces.map Piece.lexed ∧
      stop = p.advanceAll bytes := by
  induction h with
  | done => exact ⟨[], .blank (by simp), rfl, rfl⟩
  | skip separator _ ih =>
    obtain ⟨pieces, hcuts, rfl, rfl⟩ := ih
    exact ⟨pieces, hcuts.skip separator, rfl, rfl⟩
  | @take p _ r after _ _ _ unblank lexeme _ ih =>
    obtain ⟨pieces, hcuts, rfl, rfl⟩ := ih
    obtain ⟨sight, hread, rfl, rfl⟩ := forms_iff.mp lexeme
    let x : Piece := ⟨p, r, sight⟩
    have hfirst : Lexicon.mgol.Cuts p ([] ++ (x.bytes ++ after)) (x :: pieces) :=
      .piece (by simp) rfl unblank hread hcuts
    exact ⟨x :: pieces, hfirst, rfl, (p.advanceAll_append r after).symm⟩

/-- Separators are skipped one after the other. -/
theorem Lexes.skips {p stop : Position} {gap bytes : List UInt8} {lexed : List Lexed}
    (hgap : ∀ b ∈ gap, isSeparator b = true) (h : Lexes (p.advanceAll gap) bytes lexed stop) :
    Lexes p (gap ++ bytes) lexed stop := by
  induction gap generalizing p with
  | nil => exact h
  | cons b gap ih =>
    obtain ⟨hb, hgap⟩ := List.forall_mem_cons.mp hgap
    exact .skip hb (ih hgap h)

/-- **The pieces of MGol are those of the reference lexer.** -/
theorem lexes_of_cuts {p : Position} {bytes : List UInt8} {pieces : List Piece}
    (h : Lexicon.mgol.Cuts p bytes pieces) :
    Lexes p bytes (pieces.map Piece.lexed) (p.advanceAll bytes) := by
  induction h with
  | @blank p gap separators =>
    have hdone : Lexes p (gap ++ []) [] (p.advanceAll gap) := .skips separators .done
    rwa [List.append_nil] at hdone
  | @piece p gap after x pieces separators placed unblank read _ ih =>
    refine .skips separators ?_
    rw [Position.advanceAll_append, Position.advanceAll_append, ← placed]
    exact .take unblank (forms_iff.mpr ⟨x.sight, read, rfl, rfl⟩) ih

/-- A source has at most as many lexemes as bytes. -/
theorem Lexes.length_le {p stop : Position} {bytes : List UInt8} {lexed : List Lexed}
    (h : Lexes p bytes lexed stop) : lexed.length ≤ bytes.length := by
  induction h with
  | done => exact Nat.le_refl 0
  | skip _ _ ih => exact Nat.le_succ_of_le ih
  | take _ lexeme _ ih =>
    obtain ⟨_, hread, _, _⟩ := forms_iff.mp lexeme
    have := List.length_pos_iff.mpr hread.ne_nil
    rw [List.length_cons, List.length_append]
    omega

/-! ## The names met so far -/

namespace Keyword

/-- Every reserved word is found by its spelling. -/
theorem ofSpelling?_spelling (word : Keyword) : ofSpelling? word.spelling = some word := by
  cases word <;> decide

/-- What is found by its spelling is spelled so. -/
theorem spelling_of_ofSpelling? {lexeme : String} {word : Keyword}
    (h : ofSpelling? lexeme = some word) : word.spelling = lexeme := by
  simpa using List.find?_some h

end Keyword

namespace Registry

/-- **A registry with the reserved words and some names**, none of them with a type. -/
def Holds (r : Registry) (names : List String) : Prop :=
  ∀ lexeme, r.get? lexeme =
    match Keyword.ofSpelling? lexeme with
    | some word => some (.ofKeyword word)
    | none => if lexeme ∈ names then some ⟨.identifier, lexeme, .untyped⟩ else none

/-- **At first there are the reserved words.** -/
theorem holds_reserved : reserved.Holds [] := by
  intro lexeme
  -- generalised over the words that were entered before
  have hfold : ∀ (words : List Keyword) (r : Registry),
      (words.foldl (fun r word => (r.insert (.ofKeyword word)).2) r).get? lexeme =
        (r.get? lexeme).or ((words.find? fun word => word.spelling = lexeme).map .ofKeyword) := by
    intro words
    induction words with
    | nil => intro r; simp
    | cons word words ih =>
      intro r
      rw [List.foldl_cons, ih, get?_insert, insert_fst]
      rw [show (Token.ofKeyword word).lexeme = word.spelling from rfl]
      by_cases hword : word.spelling = lexeme
      · rw [List.find?_cons_of_pos (by simpa using hword), if_pos hword, hword]
        cases r.get? lexeme <;> simp
      · rw [List.find?_cons_of_neg (by simpa using hword), if_neg hword]
  rw [reserved, hfold, get?_empty, Option.none_or]
  simp only [Keyword.ofSpelling?]
  cases Keyword.all.find? fun word => word.spelling = lexeme <;> simp

/-- **A name is handed out as the reserved word that it spells or as itself**, and is there then. -/
theorem Holds.insert {r : Registry} {names : List String} (h : r.Holds names) (lexeme : String) :
    (r.insert ⟨.identifier, lexeme, .untyped⟩).1 = TokenClass.identifier.tokenOf lexeme ∧
      (r.insert ⟨.identifier, lexeme, .untyped⟩).2.Holds (names ++ [lexeme]) := by
  have hentry : (r.insert ⟨.identifier, lexeme, .untyped⟩).1 =
      TokenClass.identifier.tokenOf lexeme := by
    rw [insert_fst, h lexeme, TokenClass.tokenOf, if_pos rfl]
    cases Keyword.ofSpelling? lexeme with
    | some word => rfl
    | none =>
      simp only
      split_ifs <;> rfl
  refine ⟨hentry, fun other => ?_⟩
  rw [get?_insert, hentry]
  by_cases hother : lexeme = other
  · subst hother
    rw [if_pos rfl, TokenClass.tokenOf, if_pos rfl]
    cases Keyword.ofSpelling? lexeme with
    | some word => rfl
    | none => simp
  · rw [if_neg hother, h other]
    have hmem : other ∈ names ++ [lexeme] ↔ other ∈ names := by
      simp [Ne.symm hother]
    simp only [hmem]

end Registry

/-- The names among what is seen. -/
def Sight.names : Sight → List String
  | .word w => if w.kind = .identifier then [w.lexeme] else []
  | _ => []

/-- A word that MGol reads is of no class of reserved words, and without a type if it is a name. -/
theorem Lexicon.Reads.word_spec {bytes after : List UInt8} {w : Token}
    (h : Lexicon.mgol.Reads bytes after (.word w)) :
    (∀ word, w.kind ≠ .keyword word) ∧ (w.kind = .identifier → w.type = .untyped) := by
  have hglance : (mgol.glance none .start (bytes ++ after)).sight = .word w := by
    rw [glance_of_reads h]
  obtain ⟨q, _, _, haccept⟩ := run_of_glance hglance
  obtain ⟨hclass, -, htype⟩ := class_of_accept haccept
  have hnone : ∀ word ∈ Keyword.all, ∀ e ∈ mgolClasses, e.2 ≠ .keyword word := by decide
  refine ⟨fun word => hnone word word.mem_all _ hclass, fun hkind => ?_⟩
  rw [htype, hkind]
  rfl

/-- **What MGol reads is handed out as the token that it stands for**, and names are entered. -/
theorem Lexicon.Reads.hand_eq {bytes after : List UInt8} {sight : Sight}
    (h : Lexicon.mgol.Reads bytes after sight) {r : Registry} {names : List String}
    (hr : r.Holds names) :
    (sight.hand r).1 = sight.token ∧ (sight.hand r).2.Holds (names ++ sight.names) := by
  cases sight with
  | fault | broken | ended =>
    exact ⟨rfl, by simpa [Sight.names, Sight.hand] using hr⟩
  | word w =>
    simp only [Sight.hand, Sight.token, Sight.names]
    split_ifs with hkind
    · -- a name is read without a type
      have hw : w = ⟨.identifier, w.lexeme, .untyped⟩ := by
        have htype := h.word_spec.2 hkind
        obtain ⟨kind, lexeme, type⟩ := w
        simp only at hkind htype ⊢
        rw [hkind, htype]
      rw [hkind, hw]
      exact hr.insert w.lexeme
    · exact ⟨rfl, by rw [List.append_nil]; exact hr⟩

/-- **The tokens handed out for pieces of MGol** are those of the reference lexer, and the registry
holds the names among them. -/
theorem tokensOf_eq {p : Position} {bytes : List UInt8} {pieces : List Piece}
    (h : Lexicon.mgol.Cuts p bytes pieces) {r : Registry} {names : List String}
    (hr : r.Holds names) :
    tokensOf r pieces = (pieces.map Piece.lexed).map Lexed.spanned ∧
      (registryAfter r pieces).Holds (names ++ pieces.flatMap fun x => x.sight.names) := by
  induction h generalizing r names with
  | blank => exact ⟨rfl, by simpa [registryAfter] using hr⟩
  | @piece _ _ _ x _ _ _ _ read _ ih =>
    obtain ⟨htoken, hholds⟩ := read.hand_eq hr
    obtain ⟨htokens, hrest⟩ := ih hholds
    constructor
    · rw [tokensOf, Piece.token, htoken, htokens]
      rfl
    · rw [List.append_assoc] at hrest
      exact hrest

/-- What is reported of pieces is what is wrong with their lexemes. -/
theorem reportsOf_eq (pieces : List Piece) :
    reportsOf pieces = (pieces.map Piece.lexed).filterMap Lexed.report? := by
  induction pieces with
  | nil => rfl
  | cons x pieces ih =>
    rw [reportsOf, List.flatMap_cons, ← reportsOf, ih, List.map_cons, List.filterMap_cons]
    obtain ⟨start, bytes, sight⟩ := x
    cases sight <;> rfl

/-- Something is wrong with error tokens and with no others. -/
theorem Lexicon.Reads.fault_iff {bytes after : List UInt8} {sight : Sight}
    (h : Lexicon.mgol.Reads bytes after sight) :
    sight.fault?.isSome = true ↔ sight.token.kind = .error := by
  obtain hforms := forms_iff.mpr ⟨sight, h, rfl, rfl⟩
  generalize sight.token = token, sight.fault? = fault at hforms ⊢
  cases hforms with
  | stray | tooLong | bad => exact iff_of_true rfl rfl
  | @word _ _ c _ _ member =>
    refine iff_of_false (by simp) ?_
    unfold TokenClass.tokenOf
    split_ifs with hname
    · cases Keyword.ofSpelling? (Text.decodeLossy bytes) <;> exact nofun
    · rintro rfl
      exact absurd member (Language.notMem_zero bytes)

/-- An identifier is a name that is no reserved word. -/
theorem Sight.token_eq_iff {sight : Sight} {lexeme : String} :
    sight.token = ⟨.identifier, lexeme, .untyped⟩ ↔
      Keyword.ofSpelling? lexeme = none ∧ lexeme ∈ sight.names := by
  cases sight with
  | fault | broken | ended => exact iff_of_false nofun fun h => absurd h.2 List.not_mem_nil
  | word w =>
    simp only [names, token]
    split_ifs with hkind
    · rw [List.mem_singleton, hkind, TokenClass.tokenOf, if_pos rfl]
      constructor
      · intro htoken
        cases hword : Keyword.ofSpelling? w.lexeme with
        | some word =>
          rw [hword] at htoken
          cases htoken
        | none =>
          rw [hword] at htoken
          obtain rfl := (Token.mk.inj htoken).2.1
          exact ⟨hword, rfl⟩
      · rintro ⟨hname, rfl⟩
        rw [hname]
    · refine iff_of_false ?_ fun h => absurd h.2 List.not_mem_nil
      rintro rfl
      exact hkind rfl

/-- **The entries of a registry that holds the names of pieces**: the reserved words and the
identifiers among the tokens. -/
theorem Registry.Holds.get?_eq_some_iff {r : Registry} {pieces : List Piece}
    (h : r.Holds (pieces.flatMap fun x => x.sight.names)) {lexeme : String} {t : Token} :
    r.get? lexeme = some t ↔
      (∃ word : Keyword, word.spelling = lexeme ∧ t = .ofKeyword word) ∨
        t = ⟨.identifier, lexeme, .untyped⟩ ∧ ∃ x ∈ pieces.map Piece.lexed, x.token = t := by
  rw [h lexeme]
  constructor
  · intro hentry
    cases hword : Keyword.ofSpelling? lexeme with
    | some word =>
      rw [hword] at hentry
      exact .inl ⟨word, Keyword.spelling_of_ofSpelling? hword, (Option.some.inj hentry).symm⟩
    | none =>
      rw [hword] at hentry
      simp only at hentry
      split_ifs at hentry with hmem
      obtain rfl := Option.some.inj hentry
      obtain ⟨x, hx, hname⟩ := List.mem_flatMap.mp hmem
      exact .inr ⟨rfl, _, List.mem_map_of_mem hx, Sight.token_eq_iff.mpr ⟨hword, hname⟩⟩
  · rintro (⟨word, rfl, rfl⟩ | ⟨rfl, y, hy, htoken⟩)
    · rw [Keyword.ofSpelling?_spelling]
    · obtain ⟨x, hx, rfl⟩ := List.mem_map.mp hy
      obtain ⟨hword, hname⟩ := Sight.token_eq_iff.mp htoken
      rw [hword]
      exact if_pos (List.mem_flatMap.mpr ⟨x, hx, hname⟩)

namespace Scanner

/-- **The scanner hands out what the reference lexer finds.** Every source can be lexed. Below the
limit, all tokens of a source are those of its lexemes and the end of the file; after them the
registry has the reserved words and the names among the tokens, and there is one diagnostic for each
error token. -/
theorem scanAll_refines (bytes : List UInt8) (journal : Journal) (options : ScanOptions) :
    (∃ lexed stop, Lexes .start bytes lexed stop) ∧
    ∀ lexed stop, Lexes .start bytes lexed stop → lexed.length < Limits.tokenCount →
      ∃ s', (ofInput ⟨bytes, none⟩ .mgol ⟨.reserved, journal⟩ options).scanAll =
          (.ok (lexed.map Lexed.spanned ++ [endToken stop]).toArray, s') ∧
        (∀ lexeme t, s'.registry.get? lexeme = some t ↔
          (∃ word : Keyword, word.spelling = lexeme ∧ t = .ofKeyword word) ∨
            t = ⟨.identifier, lexeme, .untyped⟩ ∧ ∃ x ∈ lexed, x.token = t) ∧
        s'.diagnostics.toList = lexed.filterMap Lexed.report? ∧
        ∀ x ∈ lexed, x.fault.isSome = true ↔ x.token.kind = .error := by
  constructor
  · obtain ⟨pieces, hcuts⟩ := Lexicon.mgol.exists_cuts .start bytes
    exact ⟨_, _, lexes_of_cuts hcuts⟩
  · intro lexed stop hlexes hlimit
    obtain ⟨pieces, hcuts, rfl, rfl⟩ := hlexes.exists_cuts
    rw [List.length_map] at hlimit
    have hfaces : (ofInput ⟨bytes, none⟩ .mgol ⟨.reserved, journal⟩ options).Faces pieces :=
      ⟨rfl, hcuts⟩
    obtain ⟨htokens, hholds⟩ := tokensOf_eq hcuts Registry.holds_reserved
    obtain ⟨s', hscanAll, hregistry, hdiagnostics⟩ :=
      hfaces.scanAll ((Nat.zero_add _).trans_lt hlimit)
        (hcuts.endless_tokens Lexicon.endless_mgol Registry.endless_reserved)
    refine ⟨s', ?_, ?_, ?_, ?_⟩
    · rw [hscanAll, ← htokens]
      rfl
    · intro lexeme t
      rw [hregistry]
      exact hholds.get?_eq_some_iff
    · rw [hdiagnostics, reportsOf_eq]
      rfl
    · intro y hy
      obtain ⟨x, hx, rfl⟩ := List.mem_map.mp hy
      obtain ⟨_, _, _, _, _, hread⟩ := hcuts.exists_split hx
      exact hread.fault_iff

/-- A reserved word, a name and a character that no word begins with. -/
theorem scanAll_refines_stray :
    ∃ lexed stop s', Lexes .start [115, 101, 32, 120, 64] lexed stop ∧
      lexed.length < Limits.tokenCount ∧
      (ofInput ⟨[115, 101, 32, 120, 64], none⟩).scanAll =
        (.ok (lexed.map Lexed.spanned ++ [endToken stop]).toArray, s') ∧
      (s'.registry.get? "se" = some (.ofKeyword .se)) ∧
      s'.diagnostics.toList = lexed.filterMap Lexed.report? := by
  obtain ⟨⟨lexed, stop, hlexes⟩, hscan⟩ := scanAll_refines [115, 101, 32, 120, 64] {} {}
  have hlimit : lexed.length < Limits.tokenCount := hlexes.length_le.trans_lt (by decide)
  obtain ⟨s', hscanAll, hregistry, hdiagnostics, -⟩ := hscan lexed stop hlexes hlimit
  exact ⟨lexed, stop, s', hlexes, hlimit, hscanAll,
    (hregistry "se" (.ofKeyword .se)).mpr (.inl ⟨.se, rfl, rfl⟩), hdiagnostics⟩

end Scanner

end Mgol
