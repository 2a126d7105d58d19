import Mgol.Automaton.Basic
import Mgol.Limits
import Mgol.Source.Position

/-! # Runs of the automaton

The part of the input that becomes one token.

* **`skipSeparators`** — passes over blanks between tokens.
* **`Run`, `munch`** — the longest stretch that the automaton can read.
* **`takeContinuation`** — the rest of a multi-byte character that no token starts with. -/

namespace Mgol

/-- The bytes between tokens: space, tab, line feed and carriage return. -/
def isSeparator (b : UInt8) : Bool := b == 32 || b == 9 || b == 10 || b == 13

/-- **Passes over the separators** at the start of the input. -/
def skipSeparators (p : Position) : List UInt8 → Position × List UInt8
  | [] => (p, [])
  | b :: rest => if isSeparator b then skipSeparators (p.advance b) rest else (p, b :: rest)

/-- **A stretch of input that the automaton has read**: the bytes kept of it, last first, its
length, the state reached, the place after it, and the input that remains. Only as many bytes are
kept as a lexeme may have. -/
structure Run where
  kept : List UInt8
  length : Nat
  state : Nat
  stop : Position
  rest : List UInt8
  deriving Repr

namespace Run

/-- The kept bytes in order. -/
def bytes (r : Run) : List UInt8 := r.kept.reverse

/-- Whether the stretch is longer than a lexeme may be. -/
def tooLong (r : Run) : Bool := Limits.lexemeLength < r.length

/-- The run with one more byte. -/
def extend (r : Run) (b : UInt8) (state : Nat) (rest : List UInt8) : Run where
  kept := if r.length < Limits.lexemeLength then b :: r.kept else r.kept
  length := r.length + 1
  state := state
  stop := r.stop.advance b
  rest := rest

end Run

/-- **Reads on as far as the automaton can move.** -/
def munchFrom (a : Automaton) (r : Run) : List UInt8 → Run
  | [] => { r with rest := [] }
  | b :: rest =>
    match a.next r.state b with
    | some q => munchFrom a (r.extend b q rest) rest
    | none => { r with rest := b :: rest }

/-- **The longest stretch** that the automaton can read from its initial state. -/
def munch (a : Automaton) (p : Position) (input : List UInt8) : Run :=
  munchFrom a ⟨[], 0, a.initial, p, input⟩ input

/-- How many bytes have to follow the first byte of a multi-byte character. -/
def continuationCount (lead : UInt8) : Nat :=
  if 0xC0 ≤ lead && lead ≤ 0xDF then 1
  else if 0xE0 ≤ lead && lead ≤ 0xEF then 2
  else if 0xF0 ≤ lead && lead ≤ 0xF7 then 3
  else 0

/-- Whether a byte can continue a multi-byte character. -/
def isContinuation (b : UInt8) : Bool := 0x80 ≤ b && b ≤ 0xBF

/-- The bytes that continue a character: those taken, the place after them, what remains, and
whether the input ended while one was still wanted. -/
structure Continuation where
  taken : List UInt8
  stop : Position
  rest : List UInt8
  ranOut : Bool
  deriving Repr

/-- **Takes up to `n` bytes that continue a character.** -/
def takeContinuation : Nat → Position → List UInt8 → Continuation
  | 0, p, input => ⟨[], p, input, false⟩
  | _ + 1, p, [] => ⟨[], p, [], true⟩
  | n + 1, p, b :: rest =>
    if isContinuation b then
      let c := takeContinuation n (p.advance b) rest
      { c with taken := b :: c.taken }
    else ⟨[], p, b :: rest, false⟩

end Mgol
