/-! # Byte input

The bytes of a source as a scanner meets them. A source may break off: reading past its last byte
then fails with a message instead of reporting the end. An interrupted read is tried again at
once, so it leaves no trace here.

* **`Input.read`** — the next byte, the end, or the failure.
* **`Input.unread`** — gives a byte back, to be read next. -/

namespace Mgol

/-- **The rest of a source**: the bytes to come, and how reading fails after the last of them. -/
structure Input where
  bytes : List UInt8
  failure : Option String := none
  deriving DecidableEq, Repr

namespace Input

/-- What one read finds. -/
inductive Found where
  | byte (b : UInt8)
  | atEnd
  | failed (message : String)
  deriving DecidableEq, Repr

/-- What reading finds once no byte is left. -/
def exhausted (i : Input) : Found :=
  match i.failure with
  | some message => .failed message
  | none => .atEnd

/-- **Reads one byte.** -/
def read (i : Input) : Found × Input :=
  match i.bytes with
  | b :: rest => (.byte b, { i with bytes := rest })
  | [] => (i.exhausted, i)

/-- Gives a byte back. -/
def unread (i : Input) (b : UInt8) : Input :=
  { i with bytes := b :: i.bytes }

/-- A byte given back is the next one read. -/
@[simp] theorem read_unread (i : Input) (b : UInt8) : (i.unread b).read = (.byte b, i) := rfl

end Input

end Mgol
