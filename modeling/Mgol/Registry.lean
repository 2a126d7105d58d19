import Mgol.Report.Code
import Mgol.Text.Padded
import Mgol.Token.Basic
import Std.Data.TreeMap

/-! # The registry of names

Every word of a program is entered once, under its lexeme. Reserved words are there from the
start; identifiers get their type when their declaration is reduced.

* **`Registry.insert`** — enters a token unless its lexeme is known, and gives the entry.
* **`Registry.setType`** — sets the type of an identifier.
* **`Registry.typeOf`** — the type of a lexeme. -/

namespace Mgol

/-- Why a type could not be set. -/
inductive RegistryError where
  | notFound (lexeme : String)
  | reservedWord (lexeme : String) (type : DataType)
  deriving DecidableEq, Repr

namespace RegistryError

/-- The text of the error. -/
def message : RegistryError → String
  | notFound lexeme => "Symbol '" ++ lexeme ++ "' is not in the symbol table"
  | reservedWord lexeme type =>
    "Reserved word '" ++ lexeme ++ "' cannot be given type " ++ type.text

/-- The code of the error. -/
def code : RegistryError → Code
  | notFound _ => .undeclaredIdentifier
  | reservedWord _ _ => .redeclaration

end RegistryError

/-- **The registry**: tokens by lexeme, in ascending order. -/
structure Registry where
  entries : Std.TreeMap String Token := {}

namespace Registry

/-- The registry without entries. -/
def empty : Registry := {}

/-- The entry of a lexeme. -/
def get? (r : Registry) (lexeme : String) : Option Token := r.entries[lexeme]?

/-- Whether a lexeme has an entry. -/
def contains (r : Registry) (lexeme : String) : Bool := r.entries.contains lexeme

/-- Sets the entry of a token's lexeme. -/
def put (r : Registry) (t : Token) : Registry := ⟨r.entries.insert t.lexeme t⟩

/-- **Enters a token** unless its lexeme has an entry, and gives the entry. -/
def insert (r : Registry) (t : Token) : Token × Registry :=
  match r.get? t.lexeme with
  | some old => (old, r)
  | none => (t, r.put t)

/-- Sets the entry of a token's lexeme and gives the one before. -/
def update (r : Registry) (t : Token) : Option Token × Registry :=
  (r.get? t.lexeme, r.put t)

/-- **Sets the type of an identifier.** Reserved words have none. -/
def setType (r : Registry) (lexeme : String) (type : DataType) : Except RegistryError Registry :=
  match r.get? lexeme with
  | none => .error (.notFound lexeme)
  | some t =>
    match t.kind with
    | .keyword _ => .error (.reservedWord lexeme type)
    | _ => .ok ⟨r.entries.insert lexeme { t with type }⟩

/-- **The type of a lexeme**; without an entry it has none. -/
def typeOf (r : Registry) (lexeme : String) : DataType :=
  match r.get? lexeme with
  | some t => t.type
  | none => .untyped

/-- How many entries there are. -/
def size (r : Registry) : Nat := r.entries.size

/-- Whether there are no entries. -/
def isEmpty (r : Registry) : Bool := r.entries.isEmpty

/-- **The registry with the reserved words.** -/
def reserved : Registry :=
  Keyword.all.foldl (fun r word => (r.insert (.ofKeyword word)).2) empty

/-- The entries in ascending order of their lexemes. -/
def toList (r : Registry) : List Token := r.entries.toList.map Prod.snd

/-- The entries that are identifiers. -/
def identifiers (r : Registry) : List Token :=
  r.toList.filter fun t => t.kind = .identifier

/-- The length in bytes of the longest lexeme, and at least that of the heading. -/
def widest (r : Registry) : Nat :=
  (r.entries.toList.map fun e => e.1.utf8ByteSize).foldl max "Lexema".length

/-- One line of the listing. -/
def listingLine (width : Nat) (lexeme kind type : String) : String :=
  Text.padRight width lexeme ++ "  " ++ Text.padRight 10 kind ++ "  " ++ type ++ "\n"

/-- **The entries as a table.** -/
def listing (r : Registry) : String :=
  let width := r.widest
  String.join
    (listingLine width "Lexema" "Classe" "Tipo"
      :: r.toList.map fun t => listingLine width t.lexeme t.kind.name t.type.text)

/-! ## The view by lexeme -/

theorem get?_put (r : Registry) (t : Token) (lexeme : String) :
    (r.put t).get? lexeme = if t.lexeme = lexeme then some t else r.get? lexeme := by
  simp [get?, put, Std.TreeMap.getElem?_insert, Std.LawfulEqCmp.compare_eq_iff_eq]

end Registry

end Mgol
