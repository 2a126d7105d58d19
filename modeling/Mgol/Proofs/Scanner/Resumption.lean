import Mgol.Proofs.Scanner.Pieces

/-! # Scanners that go on

Between two scans a scanner remembers nothing of the tokens that it has handed out but their names
in the registry. So one that has come some way goes on as a new one would that is given the rest of
the source, and only the places are told from where the rest begins.

* **`Position.shift`** — a place of the rest of a source as a place of the source.
* **`Lexicon.exists_glance`** — what a lexicon sees does not depend on the place.
* **`Scanner.outcomes`** — the results of several scans, whatever they are.
* **`Scanner.Resumes`, `Scanner.Resumes.scan`** — two scanners that differ in their places, and
  what a scan of both does.
* **`Scanner.outcomes_resume`** — going on is as good as starting anew. -/

namespace Mgol

/-! ## Places of the rest of a source -/

namespace Position

/-- **A place of the rest of a source that begins at `origin`**, as a place of the source. Only on
the first line of the rest the columns differ. -/
def shift (origin p : Position) : Position where
  offset := p.offset + origin.offset
  line := p.line + (origin.line - 1)
  column := if p.line = 1 then p.column + (origin.column - 1) else p.column

/-- A place on a line and in a column that exist; they count from one. -/
def Proper (p : Position) : Prop := 1 ≤ p.line ∧ 1 ≤ p.column

/-- The place after a byte is proper if the one before it is. -/
theorem Proper.advance {p : Position} (h : p.Proper) (b : UInt8) : (p.advance b).Proper := by
  unfold Position.advance
  split
  · exact ⟨Nat.le_add_left 1 _, Nat.le_refl 1⟩
  · exact ⟨h.1, Nat.le_add_left 1 _⟩

/-- The place after some bytes is proper if the one before them is. -/
theorem Proper.advanceAll {p : Position} (h : p.Proper) (bytes : List UInt8) :
    (p.advanceAll bytes).Proper := by
  induction bytes generalizing p with
  | nil => exact h
  | cons b rest ih => exact ih (h.advance b)

/-- The first byte of a source has a proper place. -/
theorem proper_start : start.Proper := ⟨Nat.le_refl 1, Nat.le_refl 1⟩

/-- The rest of a source begins at its origin. -/
theorem shift_start {origin : Position} (h : origin.Proper) : origin.shift start = origin := by
  obtain ⟨offset, line, column⟩ := origin
  obtain ⟨hline, hcolumn⟩ := h
  simp only at hline hcolumn
  simp only [shift, start, if_true, mk.injEq]
  omega

/-- Going on by a byte is the same in the rest and in the source. -/
theorem shift_advance (origin : Position) {p : Position} (h : p.Proper) (b : UInt8) :
    origin.shift (p.advance b) = (origin.shift p).advance b := by
  obtain ⟨hline, -⟩ := h
  unfold advance shift
  split
  · -- a new line is never the first one
    simp only [mk.injEq]
    refine ⟨by omega, by omega, ?_⟩
    rw [if_neg (by omega)]
  · simp only [mk.injEq, true_and]
    refine ⟨by omega, ?_⟩
    split <;> omega

/-- Going on by some bytes is the same in the rest and in the source. -/
theorem shift_advanceAll (origin : Position) {p : Position} (h : p.Proper) (bytes : List UInt8) :
    origin.shift (p.advanceAll bytes) = (origin.shift p).advanceAll bytes := by
  induction bytes generalizing p with
  | nil => rfl
  | cons b rest ih => rw [advanceAll_cons, ih (h.advance b), shift_advance origin h, advanceAll_cons]

end Position

/-- A span of the rest of a source as a span of the source. -/
def Span.shift (origin : Position) (s : Span) : Span :=
  ⟨origin.shift s.start, origin.shift s.stop⟩

/-- A token of the rest of a source as a token of the source. -/
def Token.shift (origin : Position) (t : Spanned Token) : Spanned Token :=
  ⟨t.value, t.span.shift origin⟩

/-- A diagnostic on the rest of a source as one on the source. -/
def Diagnostic.shift (origin : Position) (d : Diagnostic) : Diagnostic :=
  { d with position := origin.shift d.position }

/-- An error in the rest of a source as one in the source. -/
def LexicalError.shift (origin : Position) : LexicalError → LexicalError
  | sourceRead message p => sourceRead message (origin.shift p)
  | e => e

/-! ## What is seen does not depend on the place -/

/-- The bytes that continue a character are the same at all places. -/
theorem takeContinuation_eq (n : Nat) (p q : Position) (bytes : List UInt8) :
    takeContinuation n p bytes =
      { takeContinuation n q bytes with
        stop := p.advanceAll (takeContinuation n q bytes).taken } := by
  induction n generalizing p q bytes with
  | zero => rfl
  | succ n ih =>
    cases bytes with
    | nil => rfl
    | cons b rest =>
      rw [takeContinuation, takeContinuation]
      split
      · rw [ih (p.advance b) (q.advance b)]
        rfl
      · rfl

/-- What is taken to continue a character stands in front of what is left. -/
theorem taken_append_rest (n : Nat) (p : Position) (bytes : List UInt8) :
    (takeContinuation n p bytes).taken ++ (takeContinuation n p bytes).rest = bytes := by
  induction n generalizing p bytes with
  | zero => rfl
  | succ n ih =>
    cases bytes with
    | nil => rfl
    | cons b rest =>
      rw [takeContinuation]
      split
      · rw [List.cons_append, ih]
      · rfl

namespace Lexicon

/-- **What a lexicon sees does not depend on the place**: it passes over the same bytes, and stops
where they end. -/
theorem exists_glance (l : Lexicon) (failure : Option String) (bytes : List UInt8) :
    ∃ sight r after, bytes = r ++ after ∧
      ∀ p, l.glance failure p bytes = ⟨sight, p, p.advanceAll r, after⟩ := by
  cases bytes with
  | nil => exact ⟨_, [], [], rfl, fun p => rfl⟩
  | cons b rest =>
    obtain ⟨r, after, q, heq, hrun, hstuck⟩ :=
      l.automaton.exists_run l.automaton.initial (b :: rest)
    have hmunch : ∀ p, munch l.automaton p (b :: rest) =
        ⟨(r.take Limits.lexemeLength).reverse ++ [], 0 + r.length, q, p.advanceAll r, after⟩ := by
      intro p
      rw [munch]
      nth_rewrite 2 [heq]
      exact l.automaton.munchFrom_append ⟨[], 0, l.automaton.initial, p, b :: rest⟩ hrun hstuck
    refine ⟨(l.glance failure .start (b :: rest)).sight, ?_⟩
    unfold glance
    simp only [hmunch, Nat.zero_add]
    by_cases hlength : r.length = 0
    -- a stray byte with the bytes that continue it
    · simp only [if_pos hlength]
      let c := takeContinuation (continuationCount b) (Position.start.advance b) rest
      refine ⟨b :: c.taken, c.rest, ?_, fun p => ?_⟩
      · rw [List.cons_append, taken_append_rest]
      · rw [takeContinuation_eq _ (p.advance b) (Position.start.advance b)]
        rfl
    · simp only [if_neg hlength]
      exact ⟨r, after, heq, fun p => rfl⟩

end Lexicon

namespace Scanner

/-- **What a scanner sees does not depend on the place**, separators and all. -/
theorem exists_view (l : Lexicon) (input : Input) :
    ∃ sight gap r after, input.bytes = gap ++ (r ++ after) ∧
      ∀ s : Scanner, s.lexicon = l → s.input = input →
        s.glance = ⟨sight, s.position.advanceAll gap, s.position.advanceAll (gap ++ r), after⟩ := by
  obtain ⟨gap, rest, hbytes, hgap, hrest⟩ := exists_gap input.bytes
  obtain ⟨sight, r, after, rfl, hglance⟩ := l.exists_glance input.failure rest
  refine ⟨sight, gap, r, after, hbytes, fun s hlexicon hinput => ?_⟩
  rw [glance, hinput, hbytes, skipSeparators_append s.position hgap hrest]
  simp only
  rw [hlexicon, hglance, Position.advanceAll_append]

/-! ## Two scanners in step -/

/-- The result of a scan of the rest of a source as one of the source. -/
def shiftResult (origin : Position) :
    Except LexicalError (Spanned Token) → Except LexicalError (Spanned Token)
  | .ok t => .ok (Token.shift origin t)
  | .error e => .error (e.shift origin)

/-- **The results of `n` scans**, whatever they are, and the scanner after them. -/
def outcomes : Nat → Scanner → List (Except LexicalError (Spanned Token)) × Scanner
  | 0, s => ([], s)
  | n + 1, s => (s.scan.1 :: (outcomes n s.scan.2).1, (outcomes n s.scan.2).2)

/-- **A scanner that goes on beside one that is new**: the same is ahead of both, their places
differ by an origin, and what the one has reported since then is what the other has. -/
structure Resumes (origin : Position) (before : List Diagnostic) (s new : Scanner) : Prop where
  lexicon_eq : s.lexicon = new.lexicon
  input_eq : s.input = new.input
  registry_eq : s.registry = new.registry
  position_eq : s.position = origin.shift new.position
  proper : new.position.Proper
  counted : new.metrics.tokens ≤ s.metrics.tokens
  diagnostics_eq : s.diagnostics.toList =
    before ++ new.diagnostics.toList.map (Diagnostic.shift origin)

namespace Resumes

variable {origin : Position} {before : List Diagnostic} {s new : Scanner}

/-- Moving both on by the same bytes keeps them in step. -/
theorem moveTo (h : Resumes origin before s new) (read rest : List UInt8) :
    Resumes origin before (s.moveTo (s.position.advanceAll read) rest)
      (new.moveTo (new.position.advanceAll read) rest) where
  lexicon_eq := h.lexicon_eq
  input_eq := congrArg (fun i : Input => { i with bytes := rest }) h.input_eq
  registry_eq := h.registry_eq
  position_eq := by
    show s.position.advanceAll read = origin.shift (new.position.advanceAll read)
    rw [Position.shift_advanceAll origin h.proper, h.position_eq]
  proper := h.proper.advanceAll read
  counted := h.counted
  diagnostics_eq := h.diagnostics_eq

/-- Both tell the same of a sight, each in its own places. -/
theorem tell (h : Resumes origin before s new) (start : Position) (sight : Sight) :
    (s.tell (origin.shift start) sight).1 = shiftResult origin (new.tell start sight).1 ∧
      Resumes origin before (s.tell (origin.shift start) sight).2 (new.tell start sight).2 := by
  cases sight with
  | broken message =>
    refine ⟨?_, ⟨h.1, h.2, h.3, h.4, h.5, h.6, h.7⟩⟩
    simp only [Scanner.tell, breakOff, h.position_eq]
    rfl
  | ended =>
    refine ⟨?_, h⟩
    simp only [Scanner.tell, h.position_eq]
    rfl
  | fault f bytes =>
    refine ⟨?_, ⟨h.1, h.2, h.3, h.4, h.5, h.6, ?_⟩⟩
    · simp only [Scanner.tell, reject, h.position_eq]
      rfl
    · simp only [Scanner.tell, reject, Array.toList_push, h.diagnostics_eq, List.map_append,
        List.append_assoc]
      rfl
  | word w =>
    simp only [Scanner.tell]
    by_cases hkind : w.kind = .identifier
    · rw [acceptToken_of_identifier hkind, acceptToken_of_identifier hkind, h.registry_eq,
        h.position_eq]
      exact ⟨rfl, ⟨h.1, h.2, rfl, h.4, h.5, h.6, h.7⟩⟩
    · rw [acceptToken_of_other hkind, acceptToken_of_other hkind, h.position_eq]
      exact ⟨rfl, ⟨h.1, h.2, h.3, h.4, h.5, h.6, h.7⟩⟩

/-- Both see the same, each in its own places. -/
theorem scanToken (h : Resumes origin before s new) :
    s.scanToken.1 = shiftResult origin new.scanToken.1 ∧
      Resumes origin before s.scanToken.2 new.scanToken.2 := by
  obtain ⟨sight, gap, r, after, hbytes, hview⟩ := exists_view new.lexicon new.input
  have hnew := hview new rfl rfl
  have hold := hview s h.lexicon_eq h.input_eq
  rw [scanToken_eq, scanToken_eq, hnew, hold]
  simp only
  rw [show s.position.advanceAll gap = origin.shift (new.position.advanceAll gap) by
    rw [Position.shift_advanceAll origin h.proper, h.position_eq]]
  exact (h.moveTo (gap ++ r) after).tell _ sight

/-- Both count a token and note the end of the file, each in its own way. -/
theorem finish (h : Resumes origin before s new) (t t' : Token) :
    Resumes origin before
      (noteEnd { s with metrics := s.metrics.record s.options.detailedMetrics t } t)
      (noteEnd { new with metrics := new.metrics.record new.options.detailedMetrics t' } t') := by
  obtain ⟨hmetrics, hlexicon, hinput, hposition, hregistry, hdiagnostics⟩ := noteEnd_eq
    { s with metrics := s.metrics.record s.options.detailedMetrics t } t
  obtain ⟨hmetrics', hlexicon', hinput', hposition', hregistry', hdiagnostics'⟩ := noteEnd_eq
    { new with metrics := new.metrics.record new.options.detailedMetrics t' } t'
  exact
    { lexicon_eq := by rw [hlexicon, hlexicon']; exact h.lexicon_eq
      input_eq := by rw [hinput, hinput']; exact h.input_eq
      registry_eq := by rw [hregistry, hregistry']; exact h.registry_eq
      position_eq := by rw [hposition, hposition']; exact h.position_eq
      proper := by rw [hposition']; exact h.proper
      counted := by rw [hmetrics, hmetrics']; exact Nat.succ_le_succ h.counted
      diagnostics_eq := by rw [hdiagnostics, hdiagnostics']; exact h.diagnostics_eq }

/-- **A scan of both has the same result**, each in its own places, below the limit of the one that
has come further. -/
theorem scan (h : Resumes origin before s new) (hlimit : s.metrics.tokens < Limits.tokenCount) :
    s.scan.1 = shiftResult origin new.scan.1 ∧ Resumes origin before s.scan.2 new.scan.2 := by
  have hbelow : ¬Limits.tokenCount ≤ s.metrics.tokens := by omega
  have hcounted := h.counted
  have hbelow' : ¬Limits.tokenCount ≤ new.metrics.tokens := by omega
  obtain ⟨hresult, hnext⟩ := h.scanToken
  rw [Scanner.scan, Scanner.scan, if_neg hbelow, if_neg hbelow']
  rcases hnew : new.scanToken with ⟨⟨e⟩ | ⟨t⟩, new'⟩
  · rcases hold : s.scanToken with ⟨result, s'⟩
    rw [hnew, hold] at hresult hnext
    subst hresult
    exact ⟨rfl, hnext⟩
  · rcases hold : s.scanToken with ⟨result, s'⟩
    rw [hnew, hold] at hresult hnext
    subst hresult
    exact ⟨rfl, hnext.finish _ _⟩

/-- **What both hand out from now on is the same**, each in its own places, as long as the one that
has come further does not reach its limit. -/
theorem outcomes (h : Resumes origin before s new) (n : Nat)
    (hlimit : ∀ r ∈ (s.outcomes n).1, r ≠ .error (.tokenLimit Limits.tokenCount)) :
    (s.outcomes n).1 = (new.outcomes n).1.map (shiftResult origin) ∧
      Resumes origin before (s.outcomes n).2 (new.outcomes n).2 := by
  induction n generalizing s new with
  | zero => exact ⟨rfl, h⟩
  | succ n ih =>
    obtain ⟨hfirst, hrest⟩ := List.forall_mem_cons.mp hlimit
    have hbelow : s.metrics.tokens < Limits.tokenCount := by
      by_contra hreached
      refine hfirst ?_
      rw [Scanner.scan, if_pos (Nat.not_lt.mp hreached)]
    obtain ⟨hresult, hnext⟩ := h.scan hbelow
    obtain ⟨hresults, hend⟩ := ih hnext hrest
    exact ⟨congrArg₂ List.cons hresult hresults, hend⟩

end Resumes

/-! ## Starting anew where a scanner has come to -/

/-- **Where a scanned token lies**: behind what was passed over, and right before what is left. -/
theorem place_of_scan {s s' : Scanner} {t : Spanned Token} (h : s.scan = (.ok t, s')) :
    ∃ gap r, s.input = ⟨gap ++ (r ++ s'.input.bytes), s'.input.failure⟩ ∧
      t.span = ⟨s.position.advanceAll gap, s'.position⟩ ∧
      s'.position = s.position.advanceAll (gap ++ r) := by
  have hs := scanned_of_scan h
  obtain ⟨sight, gap, r, after, hbytes, hview⟩ := exists_view s.lexicon s.input
  have hglance := hview s rfl rfl
  refine ⟨gap, r, ?_, ?_, ?_⟩
  · rw [hs.input_eq, hglance, ← hbytes]
  · rw [(span_of_scan h).1, hs.position_eq, hglance]
  · rw [hs.position_eq, hglance]

/-- A scan that hands out a token reads on, and forgets nothing of what comes after. -/
theorem read_of_scan {s s' : Scanner} {t : Spanned Token} (h : s.scan = (.ok t, s')) :
    ∃ read, s.input = ⟨read ++ s'.input.bytes, s'.input.failure⟩ ∧
      s'.position = s.position.advanceAll read := by
  obtain ⟨gap, r, hinput, -, hposition⟩ := place_of_scan h
  refine ⟨gap ++ r, ?_, hposition⟩
  rw [List.append_assoc]
  exact hinput

/-- What scans have read stands in front of what is left, and the lexicon stays. -/
theorem Scans.exists_read {s s' : Scanner} {tokens : List (Spanned Token)}
    (h : s.Scans tokens s') :
    s'.lexicon = s.lexicon ∧
      ∃ read, s.input = ⟨read ++ s'.input.bytes, s'.input.failure⟩ ∧
        s'.position = s.position.advanceAll read := by
  induction h with
  | none => exact ⟨rfl, [], rfl, rfl⟩
  | @more s s₁ s₂ t tokens scanned rest ih =>
    obtain ⟨hlexicon, later, hinput, hposition⟩ := ih
    obtain ⟨first, hfirst, hplace⟩ := read_of_scan scanned
    refine ⟨hlexicon.trans (scanned_of_scan scanned).lexicon_eq, first ++ later, ?_, ?_⟩
    · rw [hfirst, hinput, List.append_assoc]
    · rw [hposition, hplace, Position.advanceAll_append]

/-- Scans that all succeed hand out tokens. -/
theorem scans_outcomes {n : Nat} {s : Scanner} (h : ∀ r ∈ (s.outcomes n).1, r.isOk = true) :
    ∃ tokens, s.Scans tokens (s.outcomes n).2 := by
  induction n generalizing s with
  | zero => exact ⟨[], .none⟩
  | succ n ih =>
    obtain ⟨hfirst, hrest⟩ := List.forall_mem_cons.mp h
    obtain ⟨tokens, hscans⟩ := ih hrest
    rcases hscan : s.scan with ⟨⟨e⟩ | ⟨t⟩, s'⟩
    · rw [hscan] at hfirst
      cases hfirst
    · refine ⟨t :: tokens, .more hscan ?_⟩
      rw [hscan] at hscans
      simpa only [outcomes, hscan] using hscans

/-- A scanner is beside one that starts anew where it has come to. -/
theorem Scans.resumes {input : Input} {l : Lexicon} {session : Session} {options : ScanOptions}
    {tokens : List (Spanned Token)} {s : Scanner}
    (h : (ofInput input l session options).Scans tokens s) (journal : Journal)
    (options' : ScanOptions) :
    s.position = Position.start.advanceAll (input.bytes.take s.position.offset) ∧
      Resumes s.position s.diagnostics.toList s
        (ofInput ⟨input.bytes.drop s.position.offset, input.failure⟩ l ⟨s.registry, journal⟩
          options') := by
  obtain ⟨hlexicon, read, hinput, hposition⟩ := h.exists_read
  obtain rfl : input = ⟨read ++ s.input.bytes, s.input.failure⟩ := hinput
  have hstart : s.position = Position.start.advanceAll read := hposition
  have hoffset : s.position.offset = read.length := by
    rw [hstart, Position.offset_advanceAll]
    exact Nat.zero_add _
  have hproper : s.position.Proper := by
    rw [hstart]
    exact Position.proper_start.advanceAll read
  simp only [hoffset, List.take_left, List.drop_left]
  exact ⟨hstart,
    { lexicon_eq := hlexicon
      input_eq := rfl
      registry_eq := rfl
      position_eq := (Position.shift_start hproper).symm
      proper := Position.proper_start
      counted := Nat.zero_le _
      diagnostics_eq := (List.append_nil _).symm }⟩

/-- **Going on is as good as starting anew.** A scanner whose first `k` scans succeeded, whatever
they handed out, stands at the place after the first `n` bytes. What it hands out and reports from
there on is what a new scanner does that is given the bytes after them and the registry so far,
with the places told from there; and so on for as many scans as the limit allows. -/
theorem outcomes_resume (input : Input) (l : Lexicon) (session : Session) (options : ScanOptions)
    {k : Nat} (hscans : ∀ r ∈ ((ofInput input l session options).outcomes k).1, r.isOk = true)
    (journal : Journal) (options' : ScanOptions) (m : Nat) :
    let s := ((ofInput input l session options).outcomes k).2
    let n := s.position.offset
    let origin := Position.start.advanceAll (input.bytes.take n)
    let new := ofInput ⟨input.bytes.drop n, input.failure⟩ l ⟨s.registry, journal⟩ options'
    (∀ r ∈ (s.outcomes m).1, r ≠ .error (.tokenLimit Limits.tokenCount)) →
      s.position = origin ∧
      (s.outcomes m).1 = (new.outcomes m).1.map (shiftResult origin) ∧
      (s.outcomes m).2.diagnostics.toList =
        s.diagnostics.toList ++ (new.outcomes m).2.diagnostics.toList.map (Diagnostic.shift origin) ∧
      (s.outcomes m).2.registry = (new.outcomes m).2.registry := by
  intro s n origin new hlimit
  obtain ⟨tokens, h⟩ := scans_outcomes hscans
  obtain ⟨hposition, hresumes⟩ := h.resumes journal options'
  have horigin : s.position = origin := hposition
  obtain ⟨hresults, hend⟩ := hresumes.outcomes m hlimit
  rw [← horigin]
  exact ⟨rfl, hresults, hend.diagnostics_eq, hend.registry_eq⟩

/-- After a character that is no word and a name on the next line, the rest is read as a source of
its own: `é`, line feed, `ab`, `é`, line feed, `ab`. -/
theorem outcomes_resume_accent :
    let s := ((ofInput ⟨[195, 169, 10, 97, 98, 195, 169, 10, 97, 98], none⟩).outcomes 2).2
    s.position = ⟨5, 2, 3⟩ ∧
      (s.outcomes 3).1 =
        ((ofInput ⟨[195, 169, 10, 97, 98], none⟩ .mgol ⟨s.registry, {}⟩).outcomes 3).1.map
          (shiftResult ⟨5, 2, 3⟩) ∧
      (s.outcomes 3).1.map (fun r => r.toOption.map fun t => (t.value.lexeme, t.span.start)) =
        [some ("é", ⟨5, 2, 3⟩), some ("ab", ⟨8, 3, 1⟩), some ("EOF", ⟨10, 3, 3⟩)] := by
  have hscans : ∀ r ∈ ((ofInput ⟨[195, 169, 10, 97, 98, 195, 169, 10, 97, 98], none⟩).outcomes
      2).1, r.isOk = true := by
    decide
  obtain ⟨hposition, hresults, -⟩ := outcomes_resume _ _ _ _ hscans {} {} 3 (by decide)
  exact ⟨hposition, hresults, by decide⟩

end Scanner

end Mgol
