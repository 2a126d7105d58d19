import Mgol.Proofs.Scanner.Resumption
import Mgol.Proofs.Text.Utf8

/-! # Scanning byte by byte

A scanner that reads its source one byte at a time finds the end of a token only by reading past it.
The byte behind the token is given back, for which the source has room once, and the place of the
scanner is set back to where it was before the last read. Here is such a scanner, which refuses to
go on where there is no room for a byte that it gives back, and where a span would end before it
starts. Neither ever happens, and it finds what the scanner finds that sees all of its source.

* **`Tape`, `Reader`** — a source with room for one byte, and the places of the last two reads.
* **`Pass.run`** — reads one token, byte by byte.
* **`Scanner.scanByBytes`, `Scanner.outcomesByBytes`** — a scan and repeated scans, byte by byte.
* **`Scanner.outcomesByBytes_eq`** — they never refuse, and agree with the scanner. -/

namespace Mgol

/-! ## Sources with room for one byte -/

/-- **A source with room for one byte** that was given back. -/
structure Tape where
  input : Input
  pending : Option UInt8 := none

namespace Tape

/-- The bytes to come. -/
def bytes (t : Tape) : List UInt8 := t.pending.toList ++ t.input.bytes

/-- **Reads one byte**, the one that was given back if there is one. -/
def read (t : Tape) : Input.Found × Tape :=
  match t.pending with
  | some b => (.byte b, { t with pending := none })
  | none => (t.input.read.1, { t with input := t.input.read.2 })

/-- **Gives a byte back**, if there is room for it. -/
def unread (t : Tape) (b : UInt8) : Option Tape :=
  match t.pending with
  | none => some { t with pending := some b }
  | some _ => none

end Tape

/-- **A reader of a source**: where it stands, and where it stood before the last byte. -/
structure Reader where
  tape : Tape
  position : Position := .start
  previous : Position := .start

namespace Reader

/-- A reader at the start of a source. -/
def ofInput (input : Input) : Reader := { tape := { input } }

/-- **Reads one byte** and moves on behind it. -/
def read (r : Reader) : Input.Found × Reader :=
  match r.tape.read with
  | (.byte b, tape) => (.byte b, ⟨tape, r.position.advance b, r.position⟩)
  | (found, tape) => (found, { r with tape })

/-- **Gives a byte back** and moves to where the reader stood before the last read. -/
def unread (r : Reader) (b : UInt8) : Option Reader :=
  match r.tape.unread b with
  | none => none
  | some tape => some { r with tape, position := r.previous }

/-- **Where a reader stands**, and what it will read. -/
structure At (r : Reader) (p : Position) (bytes : List UInt8) (failure : Option String) : Prop where
  position_eq : r.position = p
  bytes_eq : r.tape.bytes = bytes
  failure_eq : r.tape.input.failure = failure

variable {r : Reader} {p : Position} {b : UInt8} {rest : List UInt8} {failure : Option String}

/-- **A byte that is to come is read**, after which there is room for it. -/
theorem At.read_byte (h : r.At p (b :: rest) failure) :
    ∃ r', r.read = (.byte b, r') ∧ r'.At (p.advance b) rest failure ∧ r'.previous = p ∧
      r'.tape.pending = none := by
  obtain ⟨⟨⟨bytes, failure'⟩, pending⟩, position, previous⟩ := r
  obtain ⟨hposition, hbytes, hfailure⟩ := h
  cases pending with
  | some c =>
    obtain ⟨rfl, rfl⟩ := List.cons.inj hbytes
    exact ⟨_, rfl, ⟨congrArg (Position.advance · c) hposition, rfl, hfailure⟩, hposition, rfl⟩
  | none =>
    have hinput : bytes = b :: rest := hbytes
    subst hinput
    exact ⟨_, rfl, ⟨congrArg (Position.advance · b) hposition, rfl, hfailure⟩, hposition, rfl⟩

/-- Where no byte is to come, the end or the failure is read. -/
theorem At.read_end (h : r.At p [] failure) :
    r.read = ((⟨[], failure⟩ : Input).exhausted, r) := by
  obtain ⟨⟨⟨bytes, failure'⟩, pending⟩, position, previous⟩ := r
  obtain ⟨-, hbytes, hfailure⟩ := h
  cases pending with
  | some c => cases hbytes
  | none =>
    have hinput : bytes = [] := hbytes
    have hfails : failure' = failure := hfailure
    subst hinput hfails
    cases failure' <;> rfl

/-- **A byte that was just read can be given back**, and is to come again at its place. -/
theorem At.unread_byte {q : Position} (h : r.At q rest failure) (hprevious : r.previous = p)
    (hroom : r.tape.pending = none) (b : UInt8) :
    ∃ r', r.unread b = some r' ∧ r'.At p (b :: rest) failure := by
  obtain ⟨⟨input, pending⟩, position, previous⟩ := r
  obtain ⟨-, hbytes, hfailure⟩ := h
  have hnone : pending = none := hroom
  subst hnone
  exact ⟨_, rfl, hprevious, congrArg (List.cons b) hbytes, hfailure⟩

/-- A byte that is read was to come. -/
theorem bytes_of_read {r' : Reader} (h : r.read = (.byte b, r')) :
    r.tape.bytes = b :: r'.tape.bytes := by
  obtain ⟨⟨⟨bytes, failure⟩, pending⟩, position, previous⟩ := r
  cases pending with
  | some c =>
    cases h
    rfl
  | none =>
    cases bytes with
    | nil => cases failure <;> cases h
    | cons c bytes =>
      cases h
      rfl

/-- Takes up to `n` bytes that continue a character, behind those taken, which come last first. The
byte behind them is given back. -/
def takeContinuation : Nat → List UInt8 → Reader → Option (Except String (List UInt8) × Reader)
  | 0, taken, r => some (.ok taken, r)
  | n + 1, taken, r =>
    match r.read with
    | (.failed message, r) => some (.error message, r)
    | (.atEnd, r) => some (.ok taken, r)
    | (.byte b, r) =>
      if isContinuation b then takeContinuation n (b :: taken) r
      else
        match r.unread b with
        | none => none
        | some r => some (.ok taken, r)

end Reader

/-- What the bytes that continue a character come to, behind those taken before: the source may have
broken off. -/
def Continuation.outcome (c : Continuation) (failure : Option String) (taken : List UInt8) :
    Except String (List UInt8) :=
  match c.ranOut, failure with
  | true, some message => .error message
  | _, _ => .ok (c.taken.reverse ++ taken)

/-- **The rest of a character is taken** as if all of the source were seen. -/
theorem Reader.At.takeContinuation {r : Reader} {p : Position} {bytes : List UInt8}
    {failure : Option String} (h : r.At p bytes failure) (n : Nat) (taken : List UInt8) :
    ∃ r', r'.At (Mgol.takeContinuation n p bytes).stop (Mgol.takeContinuation n p bytes).rest
        failure ∧
      r.takeContinuation n taken =
        some ((Mgol.takeContinuation n p bytes).outcome failure taken, r') := by
  induction n generalizing r p bytes taken with
  | zero => exact ⟨r, h, rfl⟩
  | succ n ih =>
    cases bytes with
    | nil =>
      refine ⟨r, h, ?_⟩
      rw [Reader.takeContinuation, h.read_end]
      cases failure <;> rfl
    | cons b rest =>
      obtain ⟨r₁, hread, hnext, hprevious, hroom⟩ := h.read_byte
      rw [Reader.takeContinuation, hread, Mgol.takeContinuation]
      by_cases hb : isContinuation b = true
      · obtain ⟨r', hr', heq⟩ := ih hnext (b :: taken)
        simp only [if_pos hb]
        refine ⟨r', hr', ?_⟩
        rw [heq]
        simp only [Continuation.outcome, List.reverse_cons, List.append_assoc, List.singleton_append]
      · -- the byte belongs to what comes behind the character
        obtain ⟨r', hunread, hr'⟩ := hnext.unread_byte hprevious hroom b
        simp only [if_neg hb]
        refine ⟨r', hr', ?_⟩
        rw [hunread]
        rfl

/-! ## One token -/

/-- **How the reading of a token ends**: at the end of the source, behind a run of the automaton,
behind a character that no token starts with, or where the source breaks off. -/
inductive Halt where
  | ended
  | run (state : Nat) (overflowed : Bool) (bytes : List UInt8) (start : Position)
  | stray (bytes : List UInt8) (start : Position)
  | failed (message : String)

/-- **A token that is being read**: where it starts, the state of the automaton, and the bytes kept,
last first. Bytes past the length of a lexeme are not kept. -/
structure Pass where
  reader : Reader
  start : Position
  state : Nat
  buffer : List UInt8 := []
  overflowed : Bool := false

namespace Pass

/-- The pass behind one more byte. The first byte of a token is where it starts. -/
def enter (p : Pass) (r : Reader) : Pass :=
  { p with reader := r, start := if p.buffer.isEmpty then r.previous else p.start }

/-- The pass after a move of the automaton on a byte. -/
def keep (p : Pass) (b : UInt8) (q : Nat) : Pass :=
  if p.buffer.length < Limits.lexemeLength then { p with state := q, buffer := b :: p.buffer }
  else { p with state := q, overflowed := true }

@[simp] theorem reader_enter (p : Pass) (r : Reader) : (p.enter r).reader = r := rfl

@[simp] theorem reader_keep (p : Pass) (b : UInt8) (q : Nat) : (p.keep b q).reader = p.reader := by
  unfold keep
  split <;> rfl

/-- How a pass ends where the source does. -/
def atEnd (p : Pass) : Halt :=
  if p.buffer.isEmpty then .ended else .run p.state p.overflowed p.buffer.reverse p.start

/-- How a pass ends on a byte that the automaton cannot move on. If it is the first one, it is taken
with the rest of its character, and otherwise it is given back. -/
def stop (p : Pass) (b : UInt8) : Option (Halt × Reader) :=
  if p.buffer.isEmpty then
    match p.reader.takeContinuation (if 0x80 ≤ b then continuationCount b else 0) [b] with
    | none => none
    | some (.error message, r) => some (.failed message, r)
    | some (.ok taken, r) => some (.stray taken.reverse p.start, r)
  else
    match p.reader.unread b with
    | none => none
    | some r => some (.run p.state p.overflowed p.buffer.reverse p.start, r)

/-- **Reads one token, byte by byte.** There is no result where a byte cannot be given back. -/
def run (a : Automaton) (p : Pass) : Option (Halt × Reader) :=
  match _hread : p.reader.read with
  | (.failed message, r) => some (.failed message, r)
  | (.atEnd, r) => some (p.atEnd, r)
  | (.byte b, r) =>
    if p.buffer.isEmpty && isSeparator b then run a { p with reader := r }
    else
      match a.next p.state b with
      | some q => run a ((p.enter r).keep b q)
      | none => (p.enter r).stop b
termination_by p.reader.tape.bytes.length
decreasing_by
  all_goals
    have hbytes := Reader.bytes_of_read _hread
    simp only [reader_keep, reader_enter, hbytes, List.length_cons]
    omega

/-! ## What a pass reads -/

variable {a : Automaton} {p : Pass} {place : Position} {b : UInt8} {rest : List UInt8}
  {failure : Option String}

/-- A pass ends where the source does. -/
theorem run_of_end (h : p.reader.At place [] none) : p.run a = some (p.atEnd, p.reader) := by
  rw [run]
  have hread := h.read_end
  split
  · next hfailed => cases hread.symm.trans hfailed
  · next hend =>
    cases hread.symm.trans hend
    rfl
  · next hbyte => cases hread.symm.trans hbyte

/-- A pass ends where the source breaks off. -/
theorem run_of_failure {message : String} (h : p.reader.At place [] (some message)) :
    p.run a = some (.failed message, p.reader) := by
  rw [run]
  have hread := h.read_end
  split
  · next hfailed =>
    cases hread.symm.trans hfailed
    rfl
  · next hend => cases hread.symm.trans hend
  · next hbyte => cases hread.symm.trans hbyte

/-- A pass goes on with the byte that it reads. -/
theorem run_of_byte {r : Reader} (hread : p.reader.read = (.byte b, r)) :
    p.run a =
      if p.buffer.isEmpty && isSeparator b then run a { p with reader := r }
      else
        match a.next p.state b with
        | some q => run a ((p.enter r).keep b q)
        | none => (p.enter r).stop b := by
  rw [run]
  split
  · next hfailed => cases hread.symm.trans hfailed
  · next hend => cases hread.symm.trans hend
  · next hbyte =>
    cases hread.symm.trans hbyte
    rfl

/-- How a pass ends that has read a whole run: the source may have broken off behind it. -/
def haltOf (u : Run) (failure : Option String) (start : Position) : Halt :=
  match u.rest, failure with
  | [], some message => .failed message
  | _, _ => .run u.state u.tooLong u.bytes start

/-- **A pass that is as far as a run**: it stands behind what the run has read, and has kept the same
bytes of it. -/
structure Follows (p : Pass) (u : Run) (bytes : List UInt8) (failure : Option String) : Prop where
  reader : p.reader.At u.stop bytes failure
  state_eq : p.state = u.state
  buffer_eq : p.buffer = u.kept
  length_eq : u.kept.length = min u.length Limits.lexemeLength
  overflowed_eq : p.overflowed = u.tooLong
  begun : 0 < u.length

/-- A pass within a token has kept a byte of it. -/
theorem Follows.buffer_ne {u : Run} {bytes : List UInt8} (h : p.Follows u bytes failure) :
    p.buffer.isEmpty = false := by
  have hlength := h.length_eq
  have hbegun := h.begun
  have hlimit : 0 < Limits.lexemeLength := by decide
  rw [h.buffer_eq, List.isEmpty_eq_false_iff_exists_mem]
  exact List.exists_mem_of_length_pos (by omega)

/-- A move of the automaton takes the pass on with the run. -/
theorem Follows.keep {u : Run} (h : p.Follows u (b :: rest) failure) {r : Reader}
    (hr : r.At (u.stop.advance b) rest failure) (q : Nat) :
    ((p.enter r).keep b q).Follows (u.extend b q rest) rest failure ∧
      ((p.enter r).keep b q).start = p.start := by
  have hlength := h.length_eq
  have hbuffer : (p.enter r).buffer = u.kept := h.buffer_eq
  have hstart : (p.enter r).start = p.start := by
    simp only [enter, h.buffer_ne]
    rfl
  unfold Pass.keep
  rw [hbuffer]
  by_cases hroom : u.length < Limits.lexemeLength
  · have hshort : u.kept.length < Limits.lexemeLength := by omega
    rw [if_pos hshort]
    refine ⟨?_, hstart⟩
    exact
      { reader := hr
        state_eq := rfl
        buffer_eq := by simp only [Run.extend, if_pos hroom]
        length_eq := by
          simp only [Run.extend, if_pos hroom, List.length_cons]
          omega
        overflowed_eq := by
          show p.overflowed = _
          rw [h.overflowed_eq]
          exact decide_eq_decide.mpr (by simp only [Run.extend]; omega)
        begun := Nat.succ_pos _ }
  · have hlong : ¬u.kept.length < Limits.lexemeLength := by omega
    rw [if_neg hlong]
    refine ⟨?_, hstart⟩
    exact
      { reader := hr
        state_eq := rfl
        buffer_eq := by simp only [Run.extend, if_neg hroom]
        length_eq := by
          simp only [Run.extend, if_neg hroom]
          omega
        overflowed_eq := by
          simp only [Run.tooLong, Run.extend]
          exact (decide_eq_true (by omega)).symm
        begun := Nat.succ_pos _ }

/-- The first byte of a token begins the run, at the place where it was read. -/
theorem follows_first {r₁ : Reader} (hnew : p.buffer = []) (hwithin : p.overflowed = false)
    (hr : r₁.At (place.advance b) rest failure) (hprevious : r₁.previous = place) (q : Nat)
    (bytes : List UInt8) :
    ((p.enter r₁).keep b q).Follows (Run.extend ⟨[], 0, p.state, place, bytes⟩ b q rest) rest
        failure ∧
      ((p.enter r₁).keep b q).start = place := by
  have hlimit : 0 < Limits.lexemeLength := by decide
  have hbuffer : (p.enter r₁).buffer = [] := hnew
  have hkeep : (p.enter r₁).keep b q = ⟨r₁, place, q, [b], false⟩ := by
    rw [Pass.keep, hbuffer, if_pos (show ([] : List UInt8).length < _ from hlimit)]
    simp only [enter, hnew, hwithin, hprevious, List.isEmpty_nil, if_true]
  rw [hkeep]
  refine ⟨?_, rfl⟩
  exact
    { reader := hr
      state_eq := rfl
      buffer_eq := by simp only [Run.extend, if_pos hlimit]
      length_eq := by
        simp only [Run.extend, if_pos hlimit, List.length_singleton]
        omega
      overflowed_eq := by
        simp only [Run.tooLong, Run.extend]
        exact (decide_eq_false (by decide)).symm
      begun := Nat.succ_pos _ }

/-- **A pass reads the longest stretch** that the automaton can read, and gives back one byte at
most. -/
theorem Follows.run {u : Run} {bytes : List UInt8} (h : p.Follows u bytes failure) :
    ∃ r, r.At (munchFrom a u bytes).stop (munchFrom a u bytes).rest failure ∧
      p.run a = some (haltOf (munchFrom a u bytes) failure p.start, r) := by
  induction bytes generalizing p u with
  | nil =>
    refine ⟨p.reader, h.reader, ?_⟩
    cases failure with
    | some message => exact run_of_failure h.reader
    | none =>
      rw [run_of_end h.reader, atEnd, h.buffer_ne]
      simp only [haltOf, munchFrom, Run.bytes, Bool.false_eq_true, if_false, h.state_eq,
        h.buffer_eq, h.overflowed_eq]
      rfl
  | cons b rest ih =>
    have hbuffer := h.buffer_ne
    obtain ⟨r, hread, hr, hprevious, hroom⟩ := h.reader.read_byte
    rw [run_of_byte hread, hbuffer, munchFrom, ← h.state_eq]
    simp only [Bool.false_and, Bool.false_eq_true, if_false]
    cases a.next p.state b with
    | some q =>
      obtain ⟨hnext, hstart⟩ := h.keep hr q
      obtain ⟨r', hr', heq⟩ := ih hnext
      refine ⟨r', hr', ?_⟩
      rw [← hstart]
      exact heq
    | none =>
      -- the byte is the first one behind the token
      obtain ⟨r', hunread, hr'⟩ := hr.unread_byte hprevious hroom b
      refine ⟨r', hr', ?_⟩
      simp only [stop, enter, hbuffer, hunread, Bool.false_eq_true, if_false]
      simp only [haltOf, Run.bytes, h.buffer_eq, h.overflowed_eq]
      rfl

/-- Separators in front of a token are read and forgotten. -/
theorem run_skipSeparators {bytes : List UInt8} (h : p.reader.At place bytes failure)
    (hbuffer : p.buffer = []) :
    ∃ r, r.At (skipSeparators place bytes).1 (skipSeparators place bytes).2 failure ∧
      p.run a = run a { p with reader := r } := by
  induction bytes generalizing p place with
  | nil => exact ⟨p.reader, h, rfl⟩
  | cons b rest ih =>
    rw [skipSeparators]
    by_cases hb : isSeparator b = true
    · rw [if_pos hb]
      obtain ⟨r, hread, hr, -, -⟩ := h.read_byte
      obtain ⟨r', hr', heq⟩ := ih (p := { p with reader := r }) hr hbuffer
      have hskip : (p.buffer.isEmpty && isSeparator b) = true := by
        rw [hbuffer, hb]
        rfl
      refine ⟨r', hr', ?_⟩
      rw [run_of_byte hread, if_pos hskip]
      exact heq
    · rw [if_neg hb]
      exact ⟨p.reader, h, rfl⟩

end Pass

namespace Scanner

/-- What a scanner makes of how a token was read. There is no result where its span would end before
it starts. -/
def settle (s : Scanner) : Halt → Option Result
  | .ended => some (.ok ⟨.endOfFile, .empty s.position⟩, s)
  | .failed message => some (s.breakOff message)
  | .run q overflowed bytes start =>
    if start.offset ≤ s.position.offset then some (s.finishRun q overflowed bytes start) else none
  | .stray bytes start =>
    if start.offset ≤ s.position.offset then some (s.reject (.classify bytes) bytes start)
    else none

/-- The next token, before it is counted, byte by byte. -/
def scanTokenByBytes (s : Scanner) (r : Reader) : Option (Result × Reader) :=
  match Pass.run s.lexicon.automaton ⟨r, r.position, s.lexicon.automaton.initial, [], false⟩ with
  | none => none
  | some (halt, r) => ((s.moveTo r.position r.tape.bytes).settle halt).map fun result => (result, r)

/-- Counts a token that was found. -/
def count : Result → Result
  | (.error e, s) => (.error e, s)
  | (.ok t, s) =>
    let s := { s with metrics := s.metrics.record s.options.detailedMetrics t.value }
    (.ok t, s.noteEnd t.value)

/-- **The next token with its span, byte by byte.** -/
def scanByBytes (s : Scanner) (r : Reader) : Option (Result × Reader) :=
  if Limits.tokenCount ≤ s.metrics.tokens then
    some ((.error (.tokenLimit Limits.tokenCount), s.note (.tokenLimit Limits.tokenCount)), r)
  else (s.scanTokenByBytes r).map fun (result, r) => (count result, r)

/-- **The results of `n` scans, byte by byte**, and the scanner after them. -/
def outcomesByBytes (s : Scanner) : Nat → Reader →
    Option (List (Except LexicalError (Spanned Token)) × Scanner)
  | 0, _ => some ([], s)
  | n + 1, r =>
    match s.scanByBytes r with
    | none => none
    | some ((found, s), r) => (s.outcomesByBytes n r).map fun (more, s) => (found :: more, s)

/-! ## Byte by byte as at a glance -/

/-- An ASCII byte leads no other bytes. -/
theorem continuationCount_of_ascii {b : UInt8} (h : ¬0x80 ≤ b) : continuationCount b = 0 := by
  have hb : b.toNat < 0x80 := by simpa [UInt8.le_iff_toNat_le] using h
  rw [Text.continuationCount_eq, if_neg (by omega), if_neg (by omega), if_neg (by omega)]

/-- **A reader stands where a scanner does**, before the same bytes. -/
def BesideReader (s : Scanner) (r : Reader) : Prop :=
  r.At s.position s.input.bytes s.input.failure

/-- A character that no token starts with is told as it stands, if the scanner has moved on. -/
theorem settle_stray {s : Scanner} {place : Position} (b : UInt8) (c : Continuation)
    (hplace : place.offset ≤ s.position.offset) (failure : Option String) (r : Reader) :
    ∃ halt,
      (match some (c.outcome failure [b], r) with
        | none => none
        | some (.error message, r) => some (Halt.failed message, r)
        | some (.ok taken, r) => some (.stray taken.reverse place, r)) = some (halt, r) ∧
      s.settle halt = some (s.tell place
        (match c.ranOut, failure with
          | true, some message => .broken message
          | _, _ => .fault (.classify (b :: c.taken)) (b :: c.taken))) := by
  have hfault : s.settle (.stray (c.taken.reverse ++ [b]).reverse place) =
      some (s.reject (.classify (b :: c.taken)) (b :: c.taken) place) := by
    rw [List.reverse_append, List.reverse_reverse, settle, if_pos hplace]
    rfl
  unfold Continuation.outcome
  cases c.ranOut with
  | false => exact ⟨_, rfl, hfault⟩
  | true =>
    cases failure with
    | none => exact ⟨_, rfl, hfault⟩
    | some message => exact ⟨_, rfl, rfl⟩

/-- A run is told as it was judged, if the scanner has moved on. -/
theorem settle_haltOf {s : Scanner} {place : Position} (hplace : place.offset ≤ s.position.offset)
    (u : Run) (failure : Option String) :
    s.settle (Pass.haltOf u failure place) = some (s.tell place
      (match u.rest, failure with
        | [], some message => .broken message
        | _, _ => s.lexicon.judge u.state u.tooLong u.bytes)) := by
  have hrun : s.settle (.run u.state u.tooLong u.bytes place) =
      some (s.tell place (s.lexicon.judge u.state u.tooLong u.bytes)) := by
    rw [settle, if_pos hplace, finishRun_eq]
  unfold Pass.haltOf
  cases u.rest with
  | cons c more => exact hrun
  | nil =>
    cases failure with
    | none => exact hrun
    | some message => rfl

/-- **What is read byte by byte is what stands there**, where no separator stands, and the reader
stops behind it. -/
theorem exists_halt {s : Scanner} {r : Reader} {place : Position} {bytes : List UInt8}
    {failure : Option String} (start : Position) (h : r.At place bytes failure) (hbytes : Unblank bytes)
    (hposition : s.position = (s.lexicon.glance failure place bytes).stop) :
    ∃ halt r',
      Pass.run s.lexicon.automaton ⟨r, start, s.lexicon.automaton.initial, [], false⟩ =
        some (halt, r') ∧
      r'.At s.position (s.lexicon.glance failure place bytes).rest failure ∧
      s.settle halt = some (s.tell (s.lexicon.glance failure place bytes).start
        (s.lexicon.glance failure place bytes).sight) := by
  cases bytes with
  | nil =>
    have hr : r.At s.position [] failure := ⟨h.position_eq.trans hposition.symm, h.bytes_eq,
      h.failure_eq⟩
    cases failure with
    | none => exact ⟨_, r, Pass.run_of_end h, hr, rfl⟩
    | some message => exact ⟨_, r, Pass.run_of_failure h, hr, rfl⟩
  | cons b rest =>
    obtain ⟨r₁, hread, hr₁, hprevious, hroom⟩ := h.read_byte
    have hb : isSeparator b = false := hbytes b rfl
    rw [Pass.run_of_byte hread]
    simp only [hb, Bool.and_false, Bool.false_eq_true, if_false]
    cases hnext : s.lexicon.automaton.next s.lexicon.automaton.initial b with
    | none =>
      -- no token starts with the byte, so it is taken with the rest of its character
      have hmunch : (munch s.lexicon.automaton place (b :: rest)).length = 0 := by
        simp only [munch, munchFrom, hnext]
      have hcount : (if 0x80 ≤ b then continuationCount b else 0) = continuationCount b := by
        split
        · rfl
        · next hascii => rw [continuationCount_of_ascii hascii]
      obtain ⟨r', hr', htaken⟩ := hr₁.takeContinuation (continuationCount b) [b]
      have hstop := (offset_takeContinuation (continuationCount b) (place.advance b) rest).2
      rw [Position.offset_advance] at hstop
      simp only [Lexicon.glance, if_pos hmunch] at hposition ⊢
      rw [← hposition] at hr' hstop
      simp only [Pass.stop, Pass.enter, List.isEmpty_nil, if_true, hcount, htaken, hprevious]
      obtain ⟨halt, hhalt, hsettle⟩ := settle_stray b
        (takeContinuation (continuationCount b) (place.advance b) rest)
        (show place.offset ≤ s.position.offset by omega) failure r'
      exact ⟨halt, r', hhalt, hr', hsettle⟩
    | some q =>
      obtain ⟨hfollows, hstart⟩ := Pass.follows_first
        (p := ⟨r, start, s.lexicon.automaton.initial, [], false⟩) rfl rfl hr₁ hprevious q (b :: rest)
      obtain ⟨r', hr', heq⟩ := hfollows.run (a := s.lexicon.automaton)
      rw [hstart] at heq
      have hmunch : munch s.lexicon.automaton place (b :: rest) = munchFrom s.lexicon.automaton
          (Run.extend ⟨[], 0, s.lexicon.automaton.initial, place, b :: rest⟩ b q rest) rest := by
        rw [munch, munchFrom, hnext]
      obtain ⟨-, hmoved, hlength⟩ := offset_munchFrom s.lexicon.automaton
        (Run.extend ⟨[], 0, s.lexicon.automaton.initial, place, b :: rest⟩ b q rest) rest
      rw [← hmunch] at hr' heq hmoved hlength
      simp only [Run.extend, Position.offset_advance] at hmoved hlength
      have hlong : ¬(munch s.lexicon.automaton place (b :: rest)).length = 0 := by omega
      simp only [Lexicon.glance, if_neg hlong] at hposition ⊢
      rw [← hposition] at hr' hmoved
      exact ⟨_, r', heq, hr', settle_haltOf (by omega) _ failure⟩

/-- Telling what was seen moves the scanner no further. -/
theorem tell_place (s : Scanner) (start : Position) (sight : Sight) :
    (s.tell start sight).2.position = s.position ∧ (s.tell start sight).2.input = s.input := by
  cases sight with
  | broken message => exact ⟨rfl, rfl⟩
  | ended => exact ⟨rfl, rfl⟩
  | fault f bytes => exact ⟨rfl, rfl⟩
  | word w =>
    simp only [tell]
    by_cases hkind : w.kind = .identifier
    · rw [acceptToken_of_identifier hkind]
      exact ⟨rfl, rfl⟩
    · rw [acceptToken_of_other hkind]
      exact ⟨rfl, rfl⟩

variable {s : Scanner} {r : Reader}

/-- **A token is read byte by byte** as it is scanned, and the reader stays beside the scanner. -/
theorem scanTokenByBytes_eq (h : s.BesideReader r) :
    ∃ r', s.scanTokenByBytes r = some (s.scanToken, r') ∧ s.scanToken.2.BesideReader r' := by
  obtain ⟨r₁, hr₁, hskip⟩ := Pass.run_skipSeparators (a := s.lexicon.automaton)
    (p := ⟨r, r.position, s.lexicon.automaton.initial, [], false⟩) h rfl
  have hunblank : Unblank (skipSeparators s.position s.input.bytes).2 := by
    obtain ⟨gap, rest, hbytes, hgap, hrest⟩ := exists_gap s.input.bytes
    rw [hbytes, skipSeparators_append s.position hgap hrest]
    exact hrest
  obtain ⟨halt, r', hrun, hr', hsettle⟩ := exists_halt r.position hr₁ hunblank
    (show (s.moveTo s.glance.stop s.glance.rest).position = s.glance.stop from rfl)
  have hmoved : s.moveTo r'.position r'.tape.bytes = s.moveTo s.glance.stop s.glance.rest := by
    rw [hr'.position_eq, hr'.bytes_eq]
    rfl
  obtain ⟨hposition, hinput⟩ :=
    (s.moveTo s.glance.stop s.glance.rest).tell_place s.glance.start s.glance.sight
  refine ⟨r', ?_, ?_⟩
  · rw [scanTokenByBytes, hskip, scanToken_eq]
    have hrun' : Pass.run s.lexicon.automaton
        ⟨r₁, r.position, s.lexicon.automaton.initial, [], false⟩ = some (halt, r') := hrun
    rw [hrun']
    simp only [hmoved]
    rw [hsettle]
    rfl
  · rw [scanToken_eq]
    unfold BesideReader
    rw [hposition, hinput]
    exact hr'

/-- A scan below the limit counts what it finds. -/
theorem scan_eq_count (hlimit : ¬Limits.tokenCount ≤ s.metrics.tokens) :
    s.scan = count s.scanToken := by
  rw [scan, if_neg hlimit]
  rcases s.scanToken with ⟨⟨e⟩ | ⟨t⟩, s'⟩ <;> rfl

/-- Counting a token moves the scanner no further. -/
theorem count_place (result : Result) :
    (count result).2.position = result.2.position ∧ (count result).2.input = result.2.input := by
  rcases result with ⟨⟨e⟩ | ⟨t⟩, s⟩
  · exact ⟨rfl, rfl⟩
  · obtain ⟨-, -, hinput, hposition, -⟩ := noteEnd_eq
      { s with metrics := s.metrics.record s.options.detailedMetrics t.value } t.value
    exact ⟨hposition, hinput⟩

/-- **A scan byte by byte** finds what a scan finds. -/
theorem scanByBytes_eq (h : s.BesideReader r) :
    ∃ r', s.scanByBytes r = some (s.scan, r') ∧ s.scan.2.BesideReader r' := by
  by_cases hlimit : Limits.tokenCount ≤ s.metrics.tokens
  · refine ⟨r, ?_, ?_⟩
    · rw [scanByBytes, if_pos hlimit, scan, if_pos hlimit]
    · rw [scan, if_pos hlimit]
      exact h
  · obtain ⟨r', htoken, hbeside⟩ := scanTokenByBytes_eq h
    obtain ⟨hposition, hinput⟩ := count_place s.scanToken
    rw [scan_eq_count hlimit]
    refine ⟨r', ?_, ?_⟩
    · rw [scanByBytes, if_neg hlimit, htoken]
      rfl
    · unfold BesideReader
      rw [hposition, hinput]
      exact hbeside

/-- **Scans byte by byte never refuse**, and find what scans find that see all of the source. -/
theorem outcomesByBytes_eq (h : s.BesideReader r) (n : Nat) :
    s.outcomesByBytes n r = some (s.outcomes n) := by
  induction n generalizing s r with
  | zero => rfl
  | succ n ih =>
    obtain ⟨r', hscan, hbeside⟩ := scanByBytes_eq h
    rw [outcomesByBytes, hscan]
    simp only
    rw [ih hbeside]
    rfl

/-- A reader at the start of a source stands beside a scanner at its start. -/
theorem besideReader_ofInput (input : Input) (l : Lexicon) (session : Session)
    (options : ScanOptions) :
    (ofInput input l session options).BesideReader (.ofInput input) :=
  ⟨rfl, rfl, rfl⟩

end Scanner

end Mgol
