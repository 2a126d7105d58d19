/-! # Positions and spans

Where something stands in a source. Lines and columns count from one, and a column counts bytes.

* **`Position`, `Position.advance`** — a place in the source and the place one byte further.
* **`Span`, `Span.merge`** — a half-open range of the source and the least range over two.
* **`Spanned`** — a value with the range it came from. -/

namespace Mgol

/-- **A place in a source**: its byte offset from zero, and its line and column from one. In a file
that is small enough to be read, the line and the column fit into 32 bits (`Scanner.places_fit`). -/
structure Position where
  offset : Nat
  line : Nat
  column : Nat
  deriving DecidableEq, Repr, Inhabited

namespace Position

/-- The first byte of a source. -/
def start : Position := ⟨0, 1, 1⟩

/-- **The place right after a byte.** A line feed begins a new line. -/
def advance (p : Position) (byte : UInt8) : Position :=
  if byte = 10 then ⟨p.offset + 1, p.line + 1, 1⟩
  else ⟨p.offset + 1, p.line, p.column + 1⟩

@[simp] theorem offset_advance (p : Position) (byte : UInt8) :
    (p.advance byte).offset = p.offset + 1 := by
  unfold advance
  split <;> rfl

/-- The place after several bytes. -/
def advanceAll (p : Position) (bytes : List UInt8) : Position :=
  bytes.foldl advance p

@[simp] theorem advanceAll_nil (p : Position) : p.advanceAll [] = p := rfl

@[simp] theorem advanceAll_cons (p : Position) (b : UInt8) (bytes : List UInt8) :
    p.advanceAll (b :: bytes) = (p.advance b).advanceAll bytes := rfl

/-- Line and column, as shown to people. -/
def text (p : Position) : String :=
  toString p.line ++ ":" ++ toString p.column

/-- The position in full detail. -/
def inspect (p : Position) : String :=
  "Position \x7b offset: " ++ toString p.offset ++ ", line: " ++ toString p.line ++ ", column: "
    ++ toString p.column ++ " \x7d"

/-- Order by offset, then line, then column. -/
def order (p q : Position) : Ordering :=
  (compare p.offset q.offset).then ((compare p.line q.line).then (compare p.column q.column))

end Position

/-- **A half-open range of a source.** -/
structure Span where
  start : Position
  stop : Position
  deriving DecidableEq, Repr, Inhabited

namespace Span

/-- The span of one byte that ends no line. -/
def single (p : Position) : Span := ⟨p, ⟨p.offset + 1, p.line, p.column + 1⟩⟩

/-- The empty span at a place; the end of the input and empty reductions have one. -/
def empty (p : Position) : Span := ⟨p, p⟩

/-- **The least span over two.** Of two starts at one offset the first span's is kept, of two ends
the second span's. -/
def merge (a b : Span) : Span :=
  ⟨if a.start.offset ≤ b.start.offset then a.start else b.start,
   if a.stop.offset ≤ b.stop.offset then b.stop else a.stop⟩

/-- The least span over all of `spans`, or the empty span at `p` if there is none. -/
def cover (p : Position) : List Span → Span
  | [] => empty p
  | s :: rest => rest.foldl merge s

end Span

/-- **A value with the part of the source that it came from.** -/
structure Spanned (α : Type) where
  value : α
  span : Span
  deriving DecidableEq, Repr

end Mgol
