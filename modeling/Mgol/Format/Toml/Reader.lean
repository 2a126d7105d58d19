import Mgol.Format.Toml.Scalar

/-! # Reading TOML

* **`Toml.readValue`** — a value, with arrays and inline tables.
* **`Toml.read? cs`** — the entries of a whole document. -/

namespace Mgol.Toml

/-- Deepest nesting of values, and longest dotted key. -/
def nestingLimit : Nat := 80

/-! ## Keys and blanks -/

/-- A character of a key without quotes. -/
def isKeyChar (c : Char) : Bool := c.isAlphanum || c = '_' || c = '-'

/-- One part of a key. -/
def readKeyPart (cs : List Char) : Read String :=
  match cs with
  | '"' :: rest => readBasic (rest.length + 1) [] rest
  | '\'' :: rest => readLiteral [] rest
  | _ =>
    match cs.span isKeyChar with
    | ([], _) => none
    | (key, rest) => some (String.ofList key, rest)

/-- The parts of a key after those found already, at most `n`. -/
def readKeyParts : Nat → List String → List Char → Read (List String)
  | 0, _, _ => none
  | n + 1, found, cs =>
    match readKeyPart (skipBlanks cs) with
    | none => none
    | some (part, rest) =>
      match skipBlanks rest with
      | '.' :: rest => readKeyParts n (part :: found) rest
      | rest => some ((part :: found).reverse, rest)

/-- **A key**: the names of the tables it leads through, and the last name. -/
def readKey (cs : List Char) : Read (List String × String) :=
  match readKeyParts (nestingLimit - 1) [] cs with
  | some (parts, rest) => parts.getLast?.map fun key => ((parts.dropLast, key), rest)
  | none => none

/-- The rest of a text after a comment, up to its line end. -/
def skipComment (cs : List Char) : List Char :=
  match cs with
  | '#' :: rest => rest.dropWhile isPlain
  | _ => cs

/-- The rest of a text after the end of a line, which may hold blanks and a comment. -/
def endLine? (cs : List Char) : Option (List Char) :=
  match skipComment (skipBlanks cs) with
  | [] => some []
  | rest => dropNewline? rest

/-- The rest of a text after blanks, comments and line ends, at most `n` of them. -/
def skipLines : Nat → List Char → List Char
  | 0, cs => cs
  | n + 1, cs =>
    match skipBlanks cs with
    | '#' :: rest => skipLines n (rest.dropWhile isPlain)
    | cs =>
      match dropNewline? cs with
      | some rest => skipLines n rest
      | none => cs

/-- The rest of a text after all blanks, comments and line ends that it begins with. -/
def skipSpace (cs : List Char) : List Char := skipLines (cs.length + 1) cs

/-! ## Values -/

mutual

/-- **A value** inside `depth` others; `n` bounds the steps. -/
def readValue : Nat → Nat → List Char → Read Value
  | 0, _, _ => none
  | n + 1, depth, cs =>
    match cs with
    | '"' :: _ => (readString cs).map fun (s, rest) => (.text s, rest)
    | '\'' :: _ => (readString cs).map fun (s, rest) => (.text s, rest)
    | '[' :: rest =>
      if nestingLimit ≤ depth + 1 then none
      else
        match readItems n (depth + 1) [] (skipSpace rest) with
        | some (items, rest) => some (.array items, rest)
        | none => none
    | '\x7b' :: rest =>
      if nestingLimit ≤ depth + 1 then none
      else
        match skipBlanks rest with
        | '\x7d' :: rest => some (.table [], rest)
        | rest =>
          match readPairs n (depth + 1) [] rest with
          | some (entries, rest) => some (.table (entriesValue entries), rest)
          | none => none
    | 't' :: 'r' :: 'u' :: 'e' :: rest => some (.boolean true, rest)
    | 'f' :: 'a' :: 'l' :: 's' :: 'e' :: rest => some (.boolean false, rest)
    | _ => readNumber cs

/-- The items of an array up to its closing bracket, after those found already. -/
def readItems : Nat → Nat → List Value → List Char → Read (List Value)
  | 0, _, _, _ => none
  | n + 1, depth, found, cs =>
    match cs with
    | ']' :: rest => some (found.reverse, rest)
    | _ =>
      match readValue n depth cs with
      | none => none
      | some (item, rest) =>
        match skipSpace rest with
        | ']' :: rest => some ((item :: found).reverse, rest)
        | ',' :: rest => readItems n depth (item :: found) (skipSpace rest)
        | _ => none

/-- The pairs of an inline table up to its closing brace, added to those found already. -/
def readPairs : Nat → Nat → Entries → List Char → Read Entries
  | 0, _, _, _ => none
  | n + 1, depth, found, cs =>
    match readKey cs with
    | some ((path, key), '=' :: rest) =>
      match readValue n depth (skipBlanks rest) with
      | none => none
      | some (v, rest) =>
        match insertKey path key v found with
        | none => none
        | some found =>
          match skipBlanks rest with
          | '\x7d' :: rest => some (found, rest)
          | ',' :: rest => readPairs n depth found rest
          | _ => none
    | _ => none

end

/-! ## Documents -/

/-- **A document in the making**: the path of the table that keys go to, and all entries. -/
structure Document where
  path : List String := []
  entries : Entries := []

/-- Adds a value under a key of the table in progress. -/
def Document.insert (d : Document) (path : List String) (key : String) (v : Value) :
    Option Document :=
  (editAt false (fun _ entries => insertKey path key v entries) d.path false d.entries).map
    fun entries => { d with entries }

/-- A line with a key and a value. -/
def readPair (d : Document) (cs : List Char) : Option (Document × List Char) :=
  match readKey cs with
  | some ((path, key), '=' :: rest) =>
    match readValue (2 * rest.length + 2) 0 (skipBlanks rest) with
    | none => none
    | some (v, rest) =>
      match d.insert path key v, endLine? rest with
      | some d, some rest => some (d, rest)
      | _, _ => none
  | _ => none

/-- The heading of a table, after its bracket. -/
def readHeading (d : Document) (cs : List Char) : Option (Document × List Char) :=
  match readKey cs with
  | some ((path, key), ']' :: rest) =>
    match openTable path key d.entries, endLine? rest with
    | some entries, some rest => some (⟨path ++ [key], entries⟩, rest)
    | _, _ => none
  | _ => none

/-- The heading of an array of tables, after its two brackets. -/
def readItemHeading (d : Document) (cs : List Char) : Option (Document × List Char) :=
  match readKey cs with
  | some ((path, key), ']' :: ']' :: rest) =>
    match openTableItem path key d.entries, endLine? rest with
    | some entries, some rest => some (⟨path ++ [key], entries⟩, rest)
    | _, _ => none
  | _ => none

/-- One line of a document that holds something. -/
def readLine (d : Document) (cs : List Char) : Option (Document × List Char) :=
  match cs with
  | '[' :: '[' :: rest => readItemHeading d rest
  | '[' :: rest => readHeading d rest
  | _ => readPair d cs

/-- The lines of a document, at most `n`. -/
def readLines : Nat → Document → List Char → Option Document
  | 0, _, _ => none
  | n + 1, d, cs =>
    match skipSpace cs with
    | [] => some d
    | cs =>
      match readLine d cs with
      | some (d, rest) => readLines n d rest
      | none => none

/-- A text without the byte order mark that it may begin with. -/
def dropMark : List Char → List Char
  | '\uFEFF' :: rest => rest
  | cs => cs

/-- **The entries of a whole document.** -/
def read? (cs : List Char) : Option (List (String × Value)) :=
  (readLines (cs.length + 1) {} (dropMark cs)).map fun d => entriesValue d.entries

end Mgol.Toml
