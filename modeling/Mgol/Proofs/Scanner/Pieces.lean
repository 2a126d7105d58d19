import Mgol.Proofs.Automaton.Deterministic
import Mgol.Proofs.Scanner.Spelling

/-! # The pieces of a source

How a lexicon cuts a source that can be read to its end: blanks, a piece that is taken for
something, blanks again. What a scanner does is said in terms of the pieces ahead of it.

* **`Automaton.Stuck`, `Automaton.exists_run`** — the longest stretch that an automaton can read.
* **`Lexicon.Reads`, `Lexicon.glance_of_reads`** — what stands at the beginning of some bytes.
* **`Piece`, `Lexicon.Cuts`, `Lexicon.exists_cuts`** — a source cut into pieces.
* **`Scanner.Scans`, `Scanner.scans_of_cuts`** — repeated scans hand out piece after piece. -/

namespace Mgol

/-! ## Parts of the input -/

/-- The place after one part and then another. -/
theorem Position.advanceAll_append (p : Position) (u v : List UInt8) :
    p.advanceAll (u ++ v) = (p.advanceAll u).advanceAll v :=
  List.foldl_append

/-- The place after some bytes is as far on as there are bytes. -/
@[simp] theorem Position.offset_advanceAll (p : Position) (bytes : List UInt8) :
    (p.advanceAll bytes).offset = p.offset + bytes.length := by
  induction bytes generalizing p with
  | nil => rfl
  | cons b rest ih =>
    rw [advanceAll_cons, ih, offset_advance, List.length_cons]
    omega

/-- Bytes that begin with no separator. -/
def Unblank (bytes : List UInt8) : Prop := ∀ b ∈ bytes.head?, isSeparator b = false

/-- Separators are passed over up to the first byte that is none. -/
theorem skipSeparators_append (p : Position) {gap rest : List UInt8}
    (hgap : ∀ b ∈ gap, isSeparator b = true) (hrest : Unblank rest) :
    skipSeparators p (gap ++ rest) = (p.advanceAll gap, rest) := by
  induction gap generalizing p with
  | nil =>
    cases rest with
    | nil => rfl
    | cons b rest =>
      have hb : isSeparator b = false := hrest b rfl
      rw [List.nil_append, skipSeparators, hb]
      rfl
  | cons b gap ih =>
    obtain ⟨hb, hgap⟩ := List.forall_mem_cons.mp hgap
    rw [List.cons_append, skipSeparators, if_pos hb, ih _ hgap, Position.advanceAll_cons]

/-- Bytes are separators and then something else. -/
theorem exists_gap (bytes : List UInt8) :
    ∃ gap rest, bytes = gap ++ rest ∧ (∀ b ∈ gap, isSeparator b = true) ∧ Unblank rest := by
  refine ⟨bytes.takeWhile isSeparator, bytes.dropWhile isSeparator,
    List.takeWhile_append_dropWhile.symm, List.all_eq_true.mp List.all_takeWhile, ?_⟩
  intro b hb
  have := List.head?_dropWhile_not isSeparator bytes
  rw [Option.mem_def.mp hb] at this
  simpa using this

/-- The bytes that continue a character are the first few, as far as they can. -/
theorem takeContinuation_append (n : Nat) (p : Position) {taken after : List UInt8}
    (h : taken = ((taken ++ after).take n).takeWhile isContinuation) :
    (takeContinuation n p (taken ++ after)).taken = taken ∧
      (takeContinuation n p (taken ++ after)).stop = p.advanceAll taken ∧
      (takeContinuation n p (taken ++ after)).rest = after := by
  induction n generalizing p taken with
  | zero =>
    rw [List.take_zero, List.takeWhile_nil] at h
    subst h
    exact ⟨rfl, rfl, rfl⟩
  | succ n ih =>
    cases taken with
    | nil =>
      cases after with
      | nil => exact ⟨rfl, rfl, rfl⟩
      | cons b after =>
        have hb : isContinuation b = false := by
          rw [List.nil_append, List.take_succ_cons, List.takeWhile_cons] at h
          by_contra hb
          rw [Bool.not_eq_false] at hb
          rw [if_pos hb] at h
          cases h
        simp [takeContinuation, hb]
    | cons b taken =>
      rw [List.cons_append, List.take_succ_cons, List.takeWhile_cons] at h
      by_cases hb : isContinuation b = true
      · rw [if_pos hb] at h
        obtain ⟨htaken, hstop, hrest⟩ := ih (p.advance b) (List.cons.inj h).2
        rw [List.cons_append, takeContinuation, if_pos hb]
        exact ⟨congrArg (b :: ·) htaken, hstop, hrest⟩
      · rw [if_neg hb] at h
        cases h

/-! ## The longest stretch of an automaton -/

namespace Automaton

/-- **An automaton that cannot go on** in state `q` with what comes after. -/
def Stuck (a : Automaton) (q : Nat) (after : List UInt8) : Prop :=
  ∀ b ∈ after.head?, a.next q b = none

/-- **An automaton reads on until it is stuck.** -/
theorem exists_run (a : Automaton) (p : Nat) (bytes : List UInt8) :
    ∃ r after q, bytes = r ++ after ∧ a.run p r = some q ∧ a.Stuck q after := by
  induction bytes generalizing p with
  | nil => exact ⟨[], [], p, rfl, rfl, by simp [Stuck]⟩
  | cons b rest ih =>
    cases hnext : a.next p b with
    | none => exact ⟨[], b :: rest, p, rfl, rfl, by simpa [Stuck] using hnext⟩
    | some p' =>
      obtain ⟨r, after, q, rfl, hrun, hstuck⟩ := ih p'
      exact ⟨b :: r, after, q, rfl, by rw [run, hnext]; exact hrun, hstuck⟩

/-- A run takes what the automaton reads until it is stuck. -/
theorem munchFrom_append (a : Automaton) (run : Run) {r after : List UInt8} {q : Nat}
    (hrun : a.run run.state r = some q) (hstuck : a.Stuck q after) :
    munchFrom a run (r ++ after) =
      ⟨(r.take (Limits.lexemeLength - run.length)).reverse ++ run.kept, run.length + r.length, q,
        run.stop.advanceAll r, after⟩ := by
  induction r generalizing run with
  | nil =>
    obtain rfl : run.state = q := by simpa [Automaton.run] using hrun
    cases after with
    | nil => simp [munchFrom]
    | cons b after =>
      have hnone : a.next run.state b = none := hstuck b rfl
      simp [munchFrom, hnone]
  | cons b r ih =>
    rw [Automaton.run] at hrun
    split at hrun
    · next p hnext =>
      rw [List.cons_append, munchFrom, hnext]
      simp only
      rw [ih _ hrun]
      simp only [Run.extend, Position.advanceAll_cons, List.length_cons]
      -- a byte is kept as long as there is room for it
      by_cases hroom : run.length < Limits.lexemeLength
      · rw [if_pos hroom, show Limits.lexemeLength - run.length
          = Limits.lexemeLength - (run.length + 1) + 1 by omega, List.take_succ_cons,
          List.reverse_cons, List.append_assoc, List.singleton_append]
        congr 1
        omega
      · rw [if_neg hroom, Nat.sub_eq_zero_of_le (Nat.not_lt.mp hroom),
          Nat.sub_eq_zero_of_le (by omega)]
        congr 1
        omega
    · cases hrun

end Automaton

/-! ## What stands at the beginning -/

/-- **What a lexicon reads at the beginning of some bytes**: a byte that no word begins with and the
rest of its character, or the longest stretch of the automaton. -/
inductive Lexicon.Reads (l : Lexicon) : List UInt8 → List UInt8 → Sight → Prop
  | stray {b : UInt8} {taken after : List UInt8}
      (stuck : l.automaton.next l.automaton.initial b = none)
      (continued : taken = ((taken ++ after).take (continuationCount b)).takeWhile isContinuation) :
      Reads l (b :: taken) after (.fault (.classify (b :: taken)) (b :: taken))
  | run {r after : List UInt8} {q : Nat} (some_byte : r ≠ [])
      (read : l.automaton.run l.automaton.initial r = some q)
      (stuck : l.automaton.Stuck q after) :
      Reads l r after
        (l.judge q (decide (Limits.lexemeLength < r.length)) (r.take Limits.lexemeLength))

namespace Lexicon

variable {l : Lexicon} {p : Position} {r after : List UInt8} {sight : Sight}

/-- Something is read wherever there is a byte. -/
theorem exists_reads (l : Lexicon) {bytes : List UInt8} (h : bytes ≠ []) :
    ∃ r after sight, bytes = r ++ after ∧ l.Reads r after sight := by
  obtain ⟨b, rest, rfl⟩ := List.exists_cons_of_ne_nil h
  obtain ⟨r, after, q, heq, hrun, hstuck⟩ :=
    l.automaton.exists_run l.automaton.initial (b :: rest)
  cases r with
  | nil =>
    obtain rfl : l.automaton.initial = q := by simpa [Automaton.run] using hrun
    obtain rfl : b :: rest = after := heq
    -- nothing begins with the byte, so it goes with the bytes that continue it
    have hcut : (rest.take (continuationCount b)).takeWhile isContinuation <+: rest :=
      (List.takeWhile_prefix _).trans (List.take_prefix _ _)
    obtain ⟨more, hmore⟩ := hcut
    exact ⟨_, more, _, by rw [List.cons_append, hmore], .stray (hstuck b rfl) (by rw [hmore])⟩
  | cons c r =>
    exact ⟨c :: r, after, _, heq, .run (List.cons_ne_nil c r) hrun hstuck⟩

/-- What is read has a byte. -/
theorem Reads.ne_nil (h : l.Reads r after sight) : r ≠ [] := by
  cases h with
  | stray => exact List.cons_ne_nil _ _
  | run some_byte => exact some_byte

/-- A glance at bytes behind which the source ends. -/
theorem glance_cons (l : Lexicon) (p : Position) (b : UInt8) (rest : List UInt8) :
    l.glance none p (b :: rest) =
      let run := munch l.automaton p (b :: rest)
      let c := takeContinuation (continuationCount b) (p.advance b) rest
      if run.length = 0 then ⟨.fault (.classify (b :: c.taken)) (b :: c.taken), p, c.stop, c.rest⟩
      else ⟨l.judge run.state run.tooLong run.bytes, p, run.stop, run.rest⟩ := by
  unfold glance
  simp only
  generalize munch l.automaton p (b :: rest) = run
  generalize takeContinuation (continuationCount b) (p.advance b) rest = c
  obtain ⟨kept, length, state, stop, left⟩ := run
  obtain ⟨taken, stop', left', ranOut⟩ := c
  cases ranOut <;> cases left <;> rfl

/-- **A glance sees what is read.** -/
theorem glance_of_reads (h : l.Reads r after sight) (p : Position) :
    l.glance none p (r ++ after) = ⟨sight, p, p.advanceAll r, after⟩ := by
  cases h with
  | @stray b taken _ stuck continued =>
    have hlength : (munch l.automaton p (b :: (taken ++ after))).length = 0 := by
      rw [munch, munchFrom, stuck]
    obtain ⟨htaken, hstop, hrest⟩ :=
      takeContinuation_append (continuationCount b) (p.advance b) continued
    rw [List.cons_append, glance_cons]
    simp only
    rw [if_pos hlength, htaken, hstop, hrest, Position.advanceAll_cons]
  | @run _ _ q some_byte read stuck =>
    have hrun : munch l.automaton p (r ++ after) = _ :=
      l.automaton.munchFrom_append ⟨[], 0, l.automaton.initial, p, r ++ after⟩ read stuck
    have hlength : (munch l.automaton p (r ++ after)).length ≠ 0 := by
      rw [hrun, Nat.zero_add]
      exact mt List.length_eq_zero_iff.mp some_byte
    obtain ⟨b, rest, rfl⟩ := List.exists_cons_of_ne_nil some_byte
    rw [List.cons_append] at hrun hlength ⊢
    rw [glance_cons]
    simp only
    rw [if_neg hlength, hrun]
    simp [Run.bytes, Run.tooLong]

/-- What is read is a word or a fault. -/
theorem Reads.cases (h : l.Reads r after sight) :
    (∃ f bytes, sight = .fault f bytes) ∨ ∃ w, sight = .word w := by
  cases h with
  | stray => exact .inl ⟨_, _, rfl⟩
  | @run _ _ q =>
    rcases l.judge_cases q (decide (Limits.lexemeLength < r.length))
      (r.take Limits.lexemeLength) with ⟨f, bytes, hf⟩ | ⟨w, hw, _⟩
    · exact .inl ⟨f, bytes, hf⟩
    · exact .inr ⟨w, hw⟩

end Lexicon

/-! ## A source in pieces -/

/-- **A piece of a source**: where it starts, its bytes, and what it is taken for. -/
structure Piece where
  start : Position
  bytes : List UInt8
  sight : Sight
  deriving DecidableEq, Repr

/-- The place after a piece. -/
def Piece.stop (x : Piece) : Position := x.start.advanceAll x.bytes

/-- The part of the source that a piece takes up. -/
def Piece.span (x : Piece) : Span := ⟨x.start, x.stop⟩

namespace Lexicon

/-- **A source cut into pieces** with separators between them. -/
inductive Cuts (l : Lexicon) : Position → List UInt8 → List Piece → Prop
  | blank {p : Position} {gap : List UInt8} (separators : ∀ b ∈ gap, isSeparator b = true) :
      Cuts l p gap []
  | piece {p : Position} {gap after : List UInt8} {x : Piece} {pieces : List Piece}
      (separators : ∀ b ∈ gap, isSeparator b = true) (placed : x.start = p.advanceAll gap)
      (unblank : Unblank x.bytes) (read : l.Reads x.bytes after x.sight)
      (rest : Cuts l x.stop after pieces) : Cuts l p (gap ++ (x.bytes ++ after)) (x :: pieces)

/-- **Every source can be cut into pieces.** -/
theorem exists_cuts (l : Lexicon) (p : Position) (bytes : List UInt8) :
    ∃ pieces, l.Cuts p bytes pieces := by
  -- every piece takes up a byte, so what is left gets shorter
  induction hn : bytes.length using Nat.strongRecOn generalizing p bytes with
  | _ n ih =>
    obtain ⟨gap, rest, rfl, hgap, hrest⟩ := exists_gap bytes
    by_cases hnil : rest = []
    · subst hnil
      rw [List.append_nil]
      exact ⟨[], .blank hgap⟩
    · obtain ⟨r, after, sight, rfl, hread⟩ := l.exists_reads hnil
      have hr : r ≠ [] := hread.ne_nil
      have hshorter : after.length < n := by
        have := List.length_pos_iff.mpr hr
        rw [← hn, List.length_append, List.length_append]
        omega
      obtain ⟨pieces, hpieces⟩ := ih _ hshorter ((p.advanceAll gap).advanceAll r) after rfl
      let x : Piece := ⟨p.advanceAll gap, r, sight⟩
      refine ⟨x :: pieces, .piece (x := x) hgap rfl ?_ hread hpieces⟩
      intro b hb
      refine hrest b ?_
      rw [Option.mem_def] at hb ⊢
      rw [List.head?_append, show r.head? = some b from hb, Option.some_or]

end Lexicon

/-! ## What is handed out for a piece -/

/-- **The token handed out for a sight**, and the registry after it. -/
def Sight.hand (r : Registry) : Sight → Token × Registry
  | .fault _ bytes => (.ofError (Text.decodeLossy bytes), r)
  | .word w => if w.kind = .identifier then r.insert w else (w, r)
  | .broken _ | .ended => (.endOfFile, r)

/-- **What is reported of a sight** that starts at a place. -/
def Sight.reports (start : Position) : Sight → List Diagnostic
  | .fault f bytes =>
    [{ kind := .lexical
       code := f.code
       message := f.message ++ " '" ++ Text.escapeMessage (Text.decodeLossy bytes) ++ "'"
       position := start
       lexeme := some (Text.decodeLossy bytes) }]
  | _ => []

/-- What is handed out, as a function. -/
theorem Sight.Handed.hand_eq {r r' : Registry} {sight : Sight} {t : Token}
    (h : sight.Handed r t r') : sight.hand r = (t, r') := by
  cases h with
  | ended => rfl
  | fault => rfl
  | name identifier => exact if_pos identifier
  | word other => exact if_neg other

/-- The token handed out for a piece, in its place. -/
def Piece.token (r : Registry) (x : Piece) : Spanned Token := ⟨(x.sight.hand r).1, x.span⟩

/-- **The tokens handed out for pieces**, one after the other. -/
def tokensOf (r : Registry) : List Piece → List (Spanned Token)
  | [] => []
  | x :: pieces => x.token r :: tokensOf (x.sight.hand r).2 pieces

/-- **The registry after pieces.** -/
def registryAfter (r : Registry) (pieces : List Piece) : Registry :=
  pieces.foldl (fun r x => (x.sight.hand r).2) r

/-- The token after the last one, at a place. -/
def endToken (p : Position) : Spanned Token := ⟨.endOfFile, .empty p⟩

/-- **What is reported of pieces**, one after the other. -/
def reportsOf (pieces : List Piece) : List Diagnostic :=
  pieces.flatMap fun x => x.sight.reports x.start

/-- Every piece has a token. -/
@[simp] theorem length_tokensOf (r : Registry) (pieces : List Piece) :
    (tokensOf r pieces).length = pieces.length := by
  induction pieces generalizing r with
  | nil => rfl
  | cons x pieces ih => rw [tokensOf, List.length_cons, ih, List.length_cons]

/-! ## Scanning pieces -/

namespace Scanner

/-- **Repeated scans**, with the tokens that they hand out. -/
inductive Scans : Scanner → List (Spanned Token) → Scanner → Prop
  | none {s : Scanner} : Scans s [] s
  | more {s s' s'' : Scanner} {t : Spanned Token} {tokens : List (Spanned Token)}
      (scanned : s.scan = (.ok t, s')) (rest : Scans s' tokens s'') : Scans s (t :: tokens) s''

/-- The end of the source ahead of a scanner. -/
def finish (s : Scanner) : Position := s.position.advanceAll s.input.bytes

/-- **The pieces ahead of a scanner** whose source can be read. -/
structure Faces (s : Scanner) (pieces : List Piece) : Prop where
  readable : s.input.failure = none
  cuts : s.lexicon.Cuts s.position s.input.bytes pieces

/-- **What scanning some pieces does.** -/
structure Passes (s : Scanner) (pieces : List Piece) (s' : Scanner) : Prop where
  lexicon_eq : s'.lexicon = s.lexicon
  counted : s'.metrics.tokens = s.metrics.tokens + pieces.length
  registry_eq : s'.registry = registryAfter s.registry pieces
  diagnostics_eq : s'.diagnostics.toList = s.diagnostics.toList ++ reportsOf pieces
  finish_eq : s'.finish = s.finish

/-- Where a token lies that is told, and what is reported with it. -/
theorem span_of_tell {s s' : Scanner} {start : Position} {sight : Sight} {t : Spanned Token}
    (h : s.tell start sight = (.ok t, s')) (hended : sight = .ended → s.position = start) :
    t.span = ⟨start, s.position⟩ ∧
      s'.diagnostics.toList = s.diagnostics.toList ++ sight.reports start := by
  cases sight with
  | broken message => cases h
  | ended =>
    obtain ⟨ht, rfl⟩ := Prod.mk.inj h
    obtain rfl := Except.ok.inj ht
    rw [hended rfl]
    exact ⟨rfl, (List.append_nil _).symm⟩
  | fault f bytes =>
    obtain ⟨ht, rfl⟩ := Prod.mk.inj h
    obtain rfl := Except.ok.inj ht
    exact ⟨rfl, Array.toList_push⟩
  | word w =>
    simp only [tell] at h
    by_cases hkind : w.kind = .identifier
    · rw [acceptToken_of_identifier hkind] at h
      obtain ⟨ht, rfl⟩ := Prod.mk.inj h
      obtain rfl := Except.ok.inj ht
      exact ⟨rfl, (List.append_nil _).symm⟩
    · rw [acceptToken_of_other hkind] at h
      obtain ⟨ht, rfl⟩ := Prod.mk.inj h
      obtain rfl := Except.ok.inj ht
      exact ⟨rfl, (List.append_nil _).symm⟩

/-- Where a scanned token lies, and what is reported with it. -/
theorem span_of_scan {s s' : Scanner} {t : Spanned Token} (h : s.scan = (.ok t, s')) :
    t.span = ⟨s.glance.start, s.glance.stop⟩ ∧
      s'.diagnostics.toList =
        s.diagnostics.toList ++ s.glance.sight.reports s.glance.start := by
  have hended : s.glance.sight = .ended → s.glance.stop = s.glance.start := by
    intro hsight
    have hprogress := s.glance_progress.2.2
    rw [hsight] at hprogress
    exact hprogress.1
  have hbelow : ¬Limits.tokenCount ≤ s.metrics.tokens :=
    Nat.not_le.mpr (scanned_of_scan h).within
  rw [scan, if_neg hbelow, scanToken_eq] at h
  rcases htell : (s.moveTo s.glance.stop s.glance.rest).tell s.glance.start s.glance.sight with
    ⟨⟨e⟩ | ⟨u⟩, told⟩
  · rw [htell] at h
    cases h
  · rw [htell] at h
    obtain ⟨ht, rfl⟩ := Prod.mk.inj h
    obtain rfl := Except.ok.inj ht
    -- counting the token changes neither
    rw [(noteEnd_eq _ _).2.2.2.2.2]
    exact span_of_tell htell hended

/-- A scanner whose source can be read sees no failure. -/
theorem Faces.unbroken {s : Scanner} {pieces : List Piece} (h : s.Faces pieces)
    (message : String) : s.glance.sight ≠ .broken message := by
  intro hbroken
  have hfailure := s.glance_progress.2.2
  rw [hbroken, h.readable] at hfailure
  cases hfailure

/-- **A scanner sees the first piece ahead of it.** -/
theorem Faces.glance_eq {s : Scanner} {x : Piece} {pieces : List Piece}
    (h : s.Faces (x :: pieces)) :
    ∃ after, s.glance = ⟨x.sight, x.start, x.stop, after⟩ ∧ s.lexicon.Cuts x.stop after pieces ∧
      s.finish = x.stop.advanceAll after := by
  obtain ⟨hreadable, hcuts⟩ := h
  generalize hbytes : s.input.bytes = bytes at hcuts
  cases hcuts with
  | @piece _ gap after _ _ separators placed unblank read rest =>
    refine ⟨after, ?_, rest, ?_⟩
    · have hrest : Unblank (x.bytes ++ after) := by
        intro b hb
        obtain ⟨c, r, hcons⟩ := List.exists_cons_of_ne_nil read.ne_nil
        rw [hcons, List.cons_append, List.head?_cons] at hb
        exact unblank b (by rw [hcons]; exact hb)
      rw [glance, hbytes, skipSeparators_append s.position separators hrest]
      simp only
      rw [hreadable, Lexicon.glance_of_reads read, ← placed]
      rfl
    · rw [finish, hbytes, Position.advanceAll_append, Position.advanceAll_append, ← placed]
      rfl

/-- At the end there are only separators. -/
theorem Faces.glance_nil {s : Scanner} (h : s.Faces []) :
    s.glance = ⟨.ended, s.finish, s.finish, []⟩ := by
  obtain ⟨hreadable, hcuts⟩ := h
  generalize hbytes : s.input.bytes = bytes at hcuts
  cases hcuts with
  | blank separators =>
    have hskip : skipSeparators s.position (bytes ++ []) = (s.position.advanceAll bytes, []) :=
      skipSeparators_append s.position separators (by simp [Unblank])
    rw [List.append_nil] at hskip
    rw [glance, hbytes, hskip]
    simp only
    rw [hreadable, finish, hbytes]
    rfl

/-- **A scan hands out the first piece ahead**, below the limit. -/
theorem Faces.scan {s : Scanner} {x : Piece} {pieces : List Piece} (h : s.Faces (x :: pieces))
    (hlimit : s.metrics.tokens < Limits.tokenCount) :
    ∃ s', s.scan = (.ok (x.token s.registry), s') ∧ s'.Faces pieces ∧ s.Passes [x] s' := by
  obtain ⟨after, hglance, hcuts, hfinish⟩ := h.glance_eq
  obtain ⟨t, s', hscan⟩ := exists_scan hlimit h.unbroken
  have hs := scanned_of_scan hscan
  obtain ⟨hspan, hdiagnostics⟩ := span_of_scan hscan
  have hhand := hs.handed.hand_eq
  rw [hglance] at hspan hdiagnostics hhand
  refine ⟨s', ?_, ⟨?_, ?_⟩, ?_⟩
  · rw [hscan]
    simp only [Piece.token, hhand]
    rw [← show t.span = x.span from hspan]
  · rw [hs.input_eq]
    exact h.readable
  · rw [hs.lexicon_eq, hs.position_eq, hs.input_eq, hglance]
    exact hcuts
  · exact
      { lexicon_eq := hs.lexicon_eq
        counted := hs.counted
        registry_eq := (congrArg Prod.snd hhand).symm
        diagnostics_eq := by simpa [reportsOf] using hdiagnostics
        finish_eq := by rw [finish, hs.position_eq, hs.input_eq, hglance, hfinish] }

/-- **A scan at the end hands out the end of the file**, and the scanner stays there. -/
theorem Faces.scan_nil {s : Scanner} (h : s.Faces [])
    (hlimit : s.metrics.tokens < Limits.tokenCount) :
    ∃ s', s.scan = (.ok (endToken s.finish), s') ∧ s'.Faces [] ∧
      s'.lexicon = s.lexicon ∧ s'.registry = s.registry ∧ s'.diagnostics = s.diagnostics ∧
      s'.metrics.tokens = s.metrics.tokens + 1 ∧ s'.finish = s.finish := by
  have hglance := h.glance_nil
  obtain ⟨t, s', hscan⟩ := exists_scan hlimit h.unbroken
  have hs := scanned_of_scan hscan
  obtain ⟨hspan, hdiagnostics⟩ := span_of_scan hscan
  have hhand := hs.handed.hand_eq
  have hcuts : s.lexicon.Cuts s.finish [] [] := .blank (by simp)
  rw [hglance] at hspan hdiagnostics hhand
  obtain ⟨hvalue, hregistry⟩ := Prod.mk.inj hhand
  refine ⟨s', ?_, ⟨?_, ?_⟩, hs.lexicon_eq, hregistry.symm, ?_, hs.counted, ?_⟩
  · rw [hscan, endToken, hvalue, show Span.empty s.finish = t.span from hspan.symm]
  · rw [hs.input_eq]
    exact h.readable
  · rw [hs.lexicon_eq, hs.position_eq, hs.input_eq, hglance]
    exact hcuts
  · exact Array.toList_inj.mp (by simpa [Sight.reports] using hdiagnostics)
  · rw [finish, hs.position_eq, hs.input_eq, hglance]
    rfl

namespace Passes

/-- No pieces, no change. -/
theorem refl (s : Scanner) : s.Passes [] s where
  lexicon_eq := rfl
  counted := rfl
  registry_eq := rfl
  diagnostics_eq := (List.append_nil _).symm
  finish_eq := rfl

/-- Some pieces and then others. -/
theorem trans {s s' s'' : Scanner} {first second : List Piece} (h : s.Passes first s')
    (h' : s'.Passes second s'') : s.Passes (first ++ second) s'' where
  lexicon_eq := h'.lexicon_eq.trans h.lexicon_eq
  counted := by rw [h'.counted, h.counted, List.length_append, Nat.add_assoc]
  registry_eq := by
    rw [h'.registry_eq, h.registry_eq]
    simp only [registryAfter, List.foldl_append]
  diagnostics_eq := by
    rw [h'.diagnostics_eq, h.diagnostics_eq, List.append_assoc, reportsOf, reportsOf, reportsOf,
      List.flatMap_append]
  finish_eq := h'.finish_eq.trans h.finish_eq

end Passes

/-- **Repeated scans hand out piece after piece**, up to the limit. -/
theorem Faces.scans {s : Scanner} {first more : List Piece} (h : s.Faces (first ++ more))
    (hlimit : s.metrics.tokens + first.length ≤ Limits.tokenCount) :
    ∃ s', s.Scans (tokensOf s.registry first) s' ∧ s'.Faces more ∧ s.Passes first s' := by
  induction first generalizing s with
  | nil => exact ⟨s, .none, h, .refl s⟩
  | cons x first ih =>
    rw [List.length_cons] at hlimit
    obtain ⟨s₁, hscan, hfaces, hpasses⟩ := h.scan (by omega)
    have hroom : s₁.metrics.tokens + first.length ≤ Limits.tokenCount := by
      rw [hpasses.counted, List.length_singleton]
      omega
    obtain ⟨s₂, hscans, hfaces', hpasses'⟩ := ih hfaces hroom
    refine ⟨s₂, .more hscan ?_, hfaces', hpasses.trans hpasses'⟩
    rw [hpasses.registry_eq] at hscans
    exact hscans

/-- Scanning goes on behind tokens that are not the end of the file. -/
theorem scanAllFrom_of_scans {s s' : Scanner} {tokens : List (Spanned Token)}
    (h : s.Scans tokens s') (hmore : ∀ t ∈ tokens, t.value.isEndOfFile = false)
    (found : Array (Spanned Token)) :
    scanAllFrom s.allowance found s = scanAllFrom s'.allowance (found ++ tokens) s' := by
  induction h generalizing found with
  | none => simp
  | @more s s₁ s₂ t tokens scanned _ ih =>
    obtain ⟨ht, hmore⟩ := List.forall_mem_cons.mp hmore
    rw [scanAllFrom_of_scan scanned ht, ih hmore]
    simp

/-- **All tokens are those of the pieces ahead** and the end of the file, if there is room for them
and none of them looks like the end of the file. -/
theorem Faces.scanAll {s : Scanner} {pieces : List Piece} (h : s.Faces pieces)
    (hlimit : s.metrics.tokens + pieces.length < Limits.tokenCount)
    (hmore : ∀ t ∈ tokensOf s.registry pieces, t.value.isEndOfFile = false) :
    ∃ s', s.scanAll = (.ok (tokensOf s.registry pieces ++ [endToken s.finish]).toArray, s') ∧
      s'.registry = registryAfter s.registry pieces ∧
      s'.diagnostics.toList = s.diagnostics.toList ++ reportsOf pieces := by
  rw [← List.append_nil pieces] at h
  obtain ⟨s₁, hscans, hfaces, hpasses⟩ := h.scans (Nat.le_of_lt hlimit)
  obtain ⟨s₂, hscan, -, -, hregistry, hdiagnostics, -, -⟩ :=
    hfaces.scan_nil (by rw [hpasses.counted]; exact hlimit)
  refine ⟨s₂, ?_, ?_, ?_⟩
  · rw [Scanner.scanAll, scanAllFrom_of_scans hscans hmore, allowance_of_scan hscan, scanAllFrom,
      hscan, hpasses.finish_eq]
    simp [Token.isEndOfFile, endToken]
  · rw [hregistry, hpasses.registry_eq]
  · rw [hdiagnostics, hpasses.diagnostics_eq]

end Scanner

end Mgol
