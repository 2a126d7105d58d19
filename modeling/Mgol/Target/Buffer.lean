import Mgol.Limits
import Mgol.Semantics.Error
import Mgol.Target.Statement

/-! # The code buffer

The generated program while it grows: the lines of its body and the temporaries they use.

* **`TemporaryKind`** — what a temporary holds.
* **`CodeBuffer.emit`, `openBlock`, `closeBlock`, `newTemporary`** — how it grows.
* **`CodeBuffer.program`** — the whole C program. -/

namespace Mgol.Target

/-- **What a temporary holds.** A truth value is the result of a comparison. -/
inductive TemporaryKind where
  | integer
  | real
  | truth
  deriving DecidableEq, Repr

namespace TemporaryKind

/-- The name of a kind. -/
def text : TemporaryKind → String
  | integer => "int"
  | real => "real"
  | truth => "bool"

/-- All kinds. -/
def all : List TemporaryKind := [integer, real, truth]

/-- The kind with a given name. -/
def ofText? (s : String) : Option TemporaryKind := all.find? fun k => k.text = s

/-- The kind of an arithmetic result; only numbers have one. -/
def ofArithmetic? : DataType → Option TemporaryKind
  | .integer => some .integer
  | .real => some .real
  | .literal | .untyped => none

/-- The C type of a temporary. -/
def cType : TemporaryKind → String
  | integer | truth => "int"
  | real => "double"

/-- The type that the value of a temporary carries on. -/
def dataType : TemporaryKind → DataType
  | integer | truth => .integer
  | real => .real

end TemporaryKind

/-- The name of a temporary. -/
def temporaryName (index : Nat) : String := "T" ++ toString index

/-- **The generated program while it grows.** -/
structure CodeBuffer where
  lines : Array Line := #[]
  temporaries : Array TemporaryKind := #[]
  depth : Nat := 0
  deriving Repr

namespace CodeBuffer

/-- Adds a line at the present depth. -/
def addLine (b : CodeBuffer) (body : LineBody) : CodeBuffer :=
  { b with lines := b.lines.push ⟨b.depth, body⟩ }

/-- **Adds a statement.** -/
def emit (b : CodeBuffer) (s : Statement) : CodeBuffer := b.addLine (.statement s)

/-- **Opens a block**; what follows stands one deeper. -/
def openBlock (b : CodeBuffer) (h : Header) : CodeBuffer :=
  { b.addLine (.opening h) with depth := b.depth + 1 }

/-- **Closes a block.** -/
def closeBlock (b : CodeBuffer) : CodeBuffer :=
  { b with depth := b.depth - 1 }.addLine .closing

/-- Whether there is no room for another temporary. -/
def isFull (b : CodeBuffer) : Bool := Limits.temporaries ≤ b.temporaries.size

/-- The name of the next temporary. -/
def nextTemporary (b : CodeBuffer) : String := temporaryName b.temporaries.size

/-- The buffer with one more temporary. -/
def addTemporary (b : CodeBuffer) (kind : TemporaryKind) : CodeBuffer :=
  { b with temporaries := b.temporaries.push kind }

/-- **Takes the next temporary**, unless there are too many. -/
def newTemporary (b : CodeBuffer) (kind : TemporaryKind) :
    Except SemanticError String × CodeBuffer :=
  if b.isFull then (.error (.tooManyTemporaries Limits.temporaries), b)
  else
    let name := b.nextTemporary
    (.ok name, b.addTemporary kind)

/-- Whether nothing was written yet. -/
def isEmpty (b : CodeBuffer) : Bool := b.lines.isEmpty && b.temporaries.isEmpty

/-- The text of some lines. -/
def linesText (lines : Array Line) : String :=
  lines.foldl (fun text l => text ++ l.text) ""

/-- The text of the body. -/
def text (b : CodeBuffer) : String := linesText b.lines

/-- The text of the lines after the first `n`. -/
def textFrom (b : CodeBuffer) (n : Nat) : String := linesText (b.lines.extract n b.lines.size)

/-- The declarations of the temporaries, numbered from `index`. -/
def declarations : Nat → List TemporaryKind → List String
  | _, [] => []
  | index, kind :: rest =>
    ("\t" ++ kind.cType ++ " " ++ temporaryName index ++ ";\n") :: declarations (index + 1) rest

/-- The lines before the temporaries. -/
def preamble : String :=
  "#include<stdio.h>\n#include<string.h>\ntypedef char literal["
    ++ toString Limits.literalBuffer ++ "];\nvoid main(void) \x7b\n"

/-- **The whole C program.** -/
def program (b : CodeBuffer) : String :=
  preamble ++ String.join (declarations 0 b.temporaries.toList)
    ++ (if b.temporaries.isEmpty then "" else "\n") ++ b.text ++ "\x7d\n"

end CodeBuffer

end Mgol.Target
