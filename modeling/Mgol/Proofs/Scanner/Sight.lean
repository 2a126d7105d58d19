import Mgol.Scanner.Basic
import Mathlib.Tactic.Common

/-! # What a scanner sees

A scan has two parts. What stands next in the source depends on the lexicon and the bytes alone;
what is told about it, and which entry of the registry is handed out for it, is added afterwards.

* **`Sight`, `Lexicon.glance`** — what stands next in a source, and where it ends.
* **`Scanner.scanToken_eq`** — a scan tells what a glance finds.
* **`Lexicon.glance_progress`, `Lexicon.run_of_glance`** — a glance moves on, and a word was read by
  the automaton. -/

namespace Mgol

/-- **What stands next in a source**: a failure to read it, its end, a lexeme that is no word, or a
word as the lexicon classifies it. -/
inductive Sight where
  | broken (message : String)
  | ended
  | fault (f : LexemeFault) (bytes : List UInt8)
  | word (t : Token)
  deriving DecidableEq, Repr

/-- **A sight in its place**: where it starts and stops, and the bytes after it. -/
structure Glance where
  sight : Sight
  start : Position
  stop : Position
  rest : List UInt8
  deriving DecidableEq, Repr

namespace Lexicon

/-- What a run that stopped in state `q` amounts to. -/
def judge (l : Lexicon) (q : Nat) (tooLong : Bool) (bytes : List UInt8) : Sight :=
  if tooLong then .fault .lexemeTooLong bytes
  else if l.automaton.isFinal q then
    match l.accept q (Text.decodeLossy bytes) with
    | some t => .word t
    | none => .fault (.classify bytes) bytes
  else .fault (.classify bytes) bytes

/-- **What stands at a place**, where no separator stands. -/
def glance (l : Lexicon) (failure : Option String) (p : Position) : List UInt8 → Glance
  | [] =>
    let sight : Sight :=
      match failure with
      | some message => .broken message
      | none => .ended
    ⟨sight, p, p, []⟩
  | b :: rest =>
    let run := munch l.automaton p (b :: rest)
    if run.length = 0 then
      let c := takeContinuation (continuationCount b) (p.advance b) rest
      let sight : Sight :=
        match c.ranOut, failure with
        | true, some message => .broken message
        | _, _ => .fault (.classify (b :: c.taken)) (b :: c.taken)
      ⟨sight, p, c.stop, c.rest⟩
    else
      let sight : Sight :=
        match run.rest, failure with
        | [], some message => .broken message
        | _, _ => l.judge run.state run.tooLong run.bytes
      ⟨sight, p, run.stop, run.rest⟩

end Lexicon

namespace Scanner

/-- What is told of a sight that starts at a place and stops where the scanner stands. -/
def tell (s : Scanner) (start : Position) : Sight → Result
  | .broken message => s.breakOff message
  | .ended => (.ok ⟨.endOfFile, .empty s.position⟩, s)
  | .fault f bytes => s.reject f bytes start
  | .word t => s.acceptToken t start

/-- What stands next, after the separators. -/
def glance (s : Scanner) : Glance :=
  let (p, rest) := skipSeparators s.position s.input.bytes
  s.lexicon.glance s.input.failure p rest

/-- The end of a run is told as it was judged. -/
theorem finishRun_eq (s : Scanner) (q : Nat) (tooLong : Bool) (bytes : List UInt8)
    (start : Position) :
    s.finishRun q tooLong bytes start = s.tell start (s.lexicon.judge q tooLong bytes) := by
  unfold finishRun Lexicon.judge
  by_cases hlong : tooLong = true
  · rw [if_pos hlong, if_pos hlong]
    rfl
  · rw [if_neg hlong, if_neg hlong]
    by_cases hfinal : s.lexicon.automaton.isFinal q = true
    · rw [if_pos hfinal, if_pos hfinal]
      cases s.lexicon.accept q (Text.decodeLossy bytes) <;> rfl
    · rw [if_neg hfinal, if_neg hfinal]
      rfl

/-- At a place without separators, a scan tells what stands there. -/
theorem scanHere_eq (s : Scanner) :
    s.scanHere =
      let g := s.lexicon.glance s.input.failure s.position s.input.bytes
      (s.moveTo g.stop g.rest).tell g.start g.sight := by
  obtain ⟨lexicon, options, ⟨bytes, failure⟩, position, session, diagnostics, metrics, ended⟩ := s
  cases bytes with
  | nil => cases failure <;> rfl
  | cons b rest =>
    unfold scanHere Lexicon.glance
    simp only
    by_cases hrun : (munch lexicon.automaton position (b :: rest)).length = 0
    · rw [if_pos hrun, if_pos hrun]
      simp only [strayByte, moveTo]
      cases (takeContinuation (continuationCount b) (position.advance b) rest).ranOut <;>
        cases failure <;> rfl
    · rw [if_neg hrun, if_neg hrun]
      simp only [moveTo]
      cases hrest : (munch lexicon.automaton position (b :: rest)).rest with
      | nil =>
        cases failure with
        | none => exact finishRun_eq _ _ _ _ _
        | some message => rfl
      | cons c more => cases failure <;> exact finishRun_eq _ _ _ _ _

/-- **A scan tells what stands next.** -/
theorem scanToken_eq (s : Scanner) :
    s.scanToken = (s.moveTo s.glance.stop s.glance.rest).tell s.glance.start s.glance.sight := by
  unfold scanToken glance
  rcases skipSeparators s.position s.input.bytes with ⟨p, rest⟩
  exact scanHere_eq _

end Scanner

/-! ## Glances move on -/

/-- Passing over separators moves on as far as bytes are passed. -/
theorem offset_skipSeparators (p : Position) (bytes : List UInt8) :
    (skipSeparators p bytes).1.offset + (skipSeparators p bytes).2.length =
      p.offset + bytes.length := by
  induction bytes generalizing p with
  | nil => rfl
  | cons b rest ih =>
    rw [skipSeparators]
    split
    · rw [ih, Position.offset_advance, List.length_cons]
      omega
    · rfl

/-- Passing over separators never moves back. -/
theorem le_offset_skipSeparators (p : Position) (bytes : List UInt8) :
    p.offset ≤ (skipSeparators p bytes).1.offset := by
  induction bytes generalizing p with
  | nil => exact Nat.le_refl _
  | cons b rest ih =>
    rw [skipSeparators]
    split
    · have := ih (p.advance b)
      rw [Position.offset_advance] at this
      omega
    · exact Nat.le_refl _

/-- A run moves on as far as it reads, and counts what it reads. -/
theorem offset_munchFrom (a : Automaton) (r : Run) (bytes : List UInt8) :
    (munchFrom a r bytes).stop.offset + (munchFrom a r bytes).rest.length =
        r.stop.offset + bytes.length ∧
      (munchFrom a r bytes).stop.offset + r.length =
        r.stop.offset + (munchFrom a r bytes).length ∧
      r.length ≤ (munchFrom a r bytes).length := by
  induction bytes generalizing r with
  | nil => exact ⟨rfl, rfl, Nat.le_refl _⟩
  | cons b rest ih =>
    rw [munchFrom]
    split
    · next q _ =>
      obtain ⟨hrest, hlength, hle⟩ := ih (r.extend b q rest)
      simp only [Run.extend, Position.offset_advance] at hrest hlength hle ⊢
      rw [List.length_cons]
      omega
    · exact ⟨rfl, rfl, Nat.le_refl _⟩

/-- The rest of a character moves on as far as bytes are taken. -/
theorem offset_takeContinuation (n : Nat) (p : Position) (bytes : List UInt8) :
    (takeContinuation n p bytes).stop.offset + (takeContinuation n p bytes).rest.length =
        p.offset + bytes.length ∧
      p.offset ≤ (takeContinuation n p bytes).stop.offset := by
  induction n generalizing p bytes with
  | zero => exact ⟨rfl, Nat.le_refl _⟩
  | succ n ih =>
    cases bytes with
    | nil => exact ⟨rfl, Nat.le_refl _⟩
    | cons b rest =>
      rw [takeContinuation]
      split
      · obtain ⟨hrest, hstop⟩ := ih (p.advance b) rest
        simp only [Position.offset_advance] at hrest hstop ⊢
        rw [List.length_cons]
        omega
      · exact ⟨rfl, Nat.le_refl _⟩

namespace Lexicon

/-- What a run is judged to be is no end and no failure. -/
theorem judge_cases (l : Lexicon) (q : Nat) (tooLong : Bool) (bytes : List UInt8) :
    (∃ f b, l.judge q tooLong bytes = .fault f b) ∨
      ∃ t, l.judge q tooLong bytes = .word t ∧ tooLong = false ∧ l.automaton.isFinal q = true ∧
        l.accept q (Text.decodeLossy bytes) = some t := by
  unfold judge
  split
  · exact .inl ⟨_, _, rfl⟩
  · next hlong =>
    split
    · next hfinal =>
      split
      · next t ht => exact .inr ⟨t, rfl, by simpa using hlong, hfinal, ht⟩
      · exact .inl ⟨_, _, rfl⟩
    · exact .inl ⟨_, _, rfl⟩

/-- **What a glance passes over**: it starts where it is, moves on as far as bytes are passed, and
passes over at least one unless it sees the end or a failure. -/
theorem glance_progress (l : Lexicon) (failure : Option String) (p : Position)
    (bytes : List UInt8) :
    (l.glance failure p bytes).start = p ∧
      (l.glance failure p bytes).stop.offset + (l.glance failure p bytes).rest.length =
        p.offset + bytes.length ∧
      match (l.glance failure p bytes).sight with
      | .broken message => failure = some message
      | .ended => (l.glance failure p bytes).stop = p ∧ (l.glance failure p bytes).rest = []
      | _ => p.offset < (l.glance failure p bytes).stop.offset := by
  cases bytes with
  | nil =>
    cases failure with
    | none => exact ⟨rfl, rfl, rfl, rfl⟩
    | some message => exact ⟨rfl, rfl, rfl⟩
  | cons b rest =>
    unfold glance
    simp only
    split
    -- a stray byte and the bytes that continue it
    · obtain ⟨hrest, hstop⟩ :=
        offset_takeContinuation (continuationCount b) (p.advance b) rest
      rw [Position.offset_advance] at hrest hstop
      refine ⟨rfl, by simp only [List.length_cons]; omega, ?_⟩
      split
      · next h =>
        split at h
        · rw [Sight.broken.inj h]
        · cases h
      · next h => split at h <;> cases h
      · simp only
        omega
    · next hrun =>
      obtain ⟨hrest, hlength, _⟩ :=
        offset_munchFrom l.automaton ⟨[], 0, l.automaton.initial, p, b :: rest⟩ (b :: rest)
      simp only [Nat.add_zero] at hlength
      split
      · exact ⟨rfl, hrest, rfl⟩
      · refine ⟨rfl, hrest, ?_⟩
        -- the longest run is not empty here
        have hmove : p.offset < (munch l.automaton p (b :: rest)).stop.offset := by
          rw [munch, hlength]
          have : (munchFrom l.automaton ⟨[], 0, l.automaton.initial, p, b :: rest⟩
            (b :: rest)).length ≠ 0 := hrun
          omega
        rcases l.judge_cases (munch l.automaton p (b :: rest)).state
          (munch l.automaton p (b :: rest)).tooLong (munch l.automaton p (b :: rest)).bytes with
          ⟨f, bs, hf⟩ | ⟨t, ht, _⟩
        · rw [hf]
          exact hmove
        · rw [ht]
          exact hmove

end Lexicon

/-! ## Words are runs of the automaton -/

/-- The automaton reads one more byte at the end. -/
theorem Automaton.run_concat {a : Automaton} {p q r : Nat} {bytes : List UInt8} {b : UInt8}
    (hrun : a.run p bytes = some q) (hnext : a.next q b = some r) :
    a.run p (bytes ++ [b]) = some r := by
  induction bytes generalizing p with
  | nil =>
    obtain rfl : p = q := by simpa [run] using hrun
    simp [run, hnext]
  | cons c bytes ih =>
    rw [run] at hrun
    rw [List.cons_append, run]
    split at hrun
    · exact ih hrun
    · exact absurd hrun (by simp)

/-- The bytes that a run keeps are read by the automaton, as long as it keeps all of them. -/
theorem run_munchFrom {a : Automaton} {r : Run} (hr : a.run a.initial r.bytes = some r.state)
    (bytes : List UInt8) (hlong : (munchFrom a r bytes).length ≤ Limits.lexemeLength) :
    a.run a.initial (munchFrom a r bytes).bytes = some (munchFrom a r bytes).state := by
  induction bytes generalizing r with
  | nil => exact hr
  | cons b rest ih =>
    rw [munchFrom] at hlong ⊢
    split at hlong
    · next q hnext =>
      refine ih ?_ hlong
      have hlt : r.length < Limits.lexemeLength :=
        Nat.le_trans (offset_munchFrom a (r.extend b q rest) rest).2.2 hlong
      simp only [Run.extend, Run.bytes, if_pos hlt, List.reverse_cons]
      exact Automaton.run_concat hr hnext
    · exact hr

/-- **A word was read by the automaton** up to the final state that gave it its class. -/
theorem Lexicon.run_of_glance {l : Lexicon} {failure : Option String} {p : Position}
    {bytes : List UInt8} {t : Token} (h : (l.glance failure p bytes).sight = .word t) :
    ∃ q lexeme, l.automaton.run l.automaton.initial lexeme = some q ∧
      l.accept q (Text.decodeLossy lexeme) = some t := by
  cases bytes with
  | nil => cases failure <;> cases h
  | cons b rest =>
    unfold glance at h
    simp only at h
    split at h
    · split at h <;> cases h
    · split at h
      · cases h
      · rcases l.judge_cases (munch l.automaton p (b :: rest)).state
          (munch l.automaton p (b :: rest)).tooLong (munch l.automaton p (b :: rest)).bytes with
          ⟨f, bs, hf⟩ | ⟨t', ht, hlong, _, haccept⟩
        · rw [hf] at h
          cases h
        · obtain rfl : t' = t := Sight.word.inj (ht.symm.trans h)
          refine ⟨_, _, run_munchFrom rfl (b :: rest) ?_, haccept⟩
          exact Nat.not_lt.mp (of_decide_eq_false hlong)

end Mgol
