/-! # Lossy UTF-8 decoding

Reads any byte sequence as text. Well-formed UTF-8 decodes to itself; of everything else each
maximal prefix of a character that cannot be completed becomes one replacement character.

* **`Opening`, `opening b`** — what a byte can begin.
* **`Decoder`, `Decoder.step`** — the decoder as a machine that takes one byte at a time.
* **`decodeLossy bytes`** — the text of a whole byte sequence. -/

namespace Mgol.Text

/-- Stands for bytes that are no character. -/
def replacement : Char := '\uFFFD'

/-- An unfinished character: how many bytes are missing, the range the next one must lie in, and
the bits gathered so far. -/
structure Unfinished where
  missing : Nat
  low : Nat
  high : Nat
  bits : Nat
  deriving DecidableEq, Repr

/-- **What a byte can begin**: a whole character, a longer one, or nothing. -/
inductive Opening where
  | whole (c : Char)
  | longer (u : Unfinished)
  | stray
  deriving DecidableEq, Repr

/-- Classifies a byte that stands at the start of a character. The ranges of the second byte
exclude overlong forms, surrogates and values past the last code point. -/
def opening (b : Nat) : Opening :=
  if b < 0x80 then .whole (Char.ofNat b)
  else if b < 0xC2 then .stray
  else if b < 0xE0 then .longer ⟨1, 0x80, 0xBF, b - 0xC0⟩
  else if b = 0xE0 then .longer ⟨2, 0xA0, 0xBF, 0⟩
  else if b = 0xED then .longer ⟨2, 0x80, 0x9F, 0xD⟩
  else if b < 0xF0 then .longer ⟨2, 0x80, 0xBF, b - 0xE0⟩
  else if b = 0xF0 then .longer ⟨3, 0x90, 0xBF, 0⟩
  else if b < 0xF4 then .longer ⟨3, 0x80, 0xBF, b - 0xF0⟩
  else if b = 0xF4 then .longer ⟨3, 0x80, 0x8F, 4⟩
  else .stray

/-- **The decoder**: the characters found, last first, and the character in progress. -/
structure Decoder where
  found : List Char := []
  pending : Option Unfinished := none
  deriving Repr

namespace Decoder

/-- Takes a byte at the start of a character. -/
def start (found : List Char) (b : Nat) : Decoder :=
  match opening b with
  | .whole c => ⟨c :: found, none⟩
  | .longer u => ⟨found, some u⟩
  | .stray => ⟨replacement :: found, none⟩

/-- Takes one byte. A byte that cannot continue the character in progress ends it as a
replacement and is looked at afresh. -/
def step (d : Decoder) (byte : UInt8) : Decoder :=
  let b := byte.toNat
  match d.pending with
  | none => start d.found b
  | some u =>
    if u.low ≤ b ∧ b ≤ u.high then
      let bits := u.bits * 64 + (b - 0x80)
      if u.missing ≤ 1 then ⟨Char.ofNat bits :: d.found, none⟩
      else ⟨d.found, some ⟨u.missing - 1, 0x80, 0xBF, bits⟩⟩
    else start (replacement :: d.found) b

/-- The text found once the bytes have ended. -/
def finish (d : Decoder) : List Char :=
  match d.pending with
  | none => d.found.reverse
  | some _ => (replacement :: d.found).reverse

end Decoder

/-- **The characters of a byte sequence**, read lossily. -/
def lossyChars (bytes : List UInt8) : List Char :=
  (bytes.foldl Decoder.step {}).finish

/-- **The text of a byte sequence**, read lossily. -/
def decodeLossy (bytes : List UInt8) : String :=
  String.ofList (lossyChars bytes)

/-- The UTF-8 bytes of a text. -/
def encode (s : String) : List UInt8 :=
  s.toUTF8.toList

end Mgol.Text
