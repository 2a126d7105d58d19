import Mgol.Text.Decimal

/-! # Reading JSON

JSON documents as values. A string whose surrogate escapes do not pair up has no text; it is a
document all the same, which only fails where somebody asks for the text.

* **`Json.Value`** — the values.
* **`Json.read? cs`** — the value of a whole document. -/

namespace Mgol.Json

/-- **A JSON value.** Numbers are kept as they are written. -/
inductive Value where
  | null
  | bool (b : Bool)
  | number (digits : List Char)
  | text (s : Option String)
  | array (items : List Value)
  | object (fields : List (Option String × Value))

/-- The blanks between the parts of a document. -/
def isBlank (c : Char) : Bool := c = ' ' || c = '\n' || c = '\t' || c = '\r'

/-- The rest of a document from its next part on. -/
def skipBlanks (cs : List Char) : List Char := cs.dropWhile isBlank

/-! ## Strings -/

/-- The value of a hexadecimal digit. -/
def hexDigit? (c : Char) : Option Nat :=
  if '0' ≤ c ∧ c ≤ '9' then some (c.toNat - '0'.toNat)
  else if 'a' ≤ c ∧ c ≤ 'f' then some (c.toNat - 'a'.toNat + 10)
  else if 'A' ≤ c ∧ c ≤ 'F' then some (c.toNat - 'A'.toNat + 10)
  else none

/-- The value of four hexadecimal digits. -/
def hexUnit? (a b c d : Char) : Option Nat :=
  match hexDigit? a, hexDigit? b, hexDigit? c, hexDigit? d with
  | some a, some b, some c, some d => some (((a * 16 + b) * 16 + c) * 16 + d)
  | _, _, _, _ => none

/-- The character that a letter after a backslash stands for. -/
def shortEscape? : Char → Option Nat
  | '"' => some 0x22
  | '\\' => some 0x5C
  | '/' => some 0x2F
  | 'b' => some 0x08
  | 'f' => some 0x0C
  | 'n' => some 0x0A
  | 'r' => some 0x0D
  | 't' => some 0x09
  | _ => none

/-- The units of a string up to its closing quote, put before those in `found` in reverse, and the
rest after the quote. -/
def readUnits (found : List Nat) : List Char → Option (List Nat × List Char)
  | [] => none
  | '"' :: rest => some (found.reverse, rest)
  | '\\' :: 'u' :: a :: b :: c :: d :: rest =>
    match hexUnit? a b c d with
    | some unit => readUnits (unit :: found) rest
    | none => none
  | '\\' :: e :: rest =>
    match shortEscape? e with
    | some unit => readUnits (unit :: found) rest
    | none => none
  | c :: rest => if c.toNat < 0x20 ∨ c = '\\' then none else readUnits (c.toNat :: found) rest

/-- The characters of a list of units: a high surrogate joins the low one after it, and any other
surrogate spoils the text. -/
def joinUnits : List Nat → Option (List Char)
  | [] => some []
  | u :: rest =>
    if 0xD800 ≤ u ∧ u ≤ 0xDBFF then
      match rest with
      | v :: rest' =>
        if 0xDC00 ≤ v ∧ v ≤ 0xDFFF then
          (joinUnits rest').map (Char.ofNat (0x10000 + (u - 0xD800) * 0x400 + (v - 0xDC00)) :: ·)
        else none
      | [] => none
    else if 0xDC00 ≤ u ∧ u ≤ 0xDFFF then none
    else (joinUnits rest).map (Char.ofNat u :: ·)

/-- A string after its opening quote. -/
def readText (cs : List Char) : Option (Option String × List Char) :=
  match readUnits [] cs with
  | some (units, rest) => some ((joinUnits units).map String.ofList, rest)
  | none => none

/-! ## Numbers -/

/-- Whether a character is an ASCII digit. -/
def isDigit (c : Char) : Bool := '0' ≤ c && c ≤ '9'

/-- A run of at least one digit, and the rest. -/
def readRun (cs : List Char) : Option (List Char × List Char) :=
  match cs.span isDigit with
  | ([], _) => none
  | (run, rest) => some (run, rest)

/-- The whole part of a number: zero, or digits that do not begin with it. -/
def readWhole : List Char → Option (List Char × List Char)
  | '0' :: rest => some (['0'], rest)
  | cs => readRun cs

/-- The fraction of a number, if there is one. -/
def readFraction : List Char → Option (List Char × List Char)
  | '.' :: rest => (readRun rest).map fun (run, rest) => ('.' :: run, rest)
  | cs => some ([], cs)

/-- The digits of an exponent after its mark and sign. -/
def readExponentDigits (mark : List Char) (cs : List Char) : Option (List Char × List Char) :=
  (readRun cs).map fun (run, rest) => (mark ++ run, rest)

/-- The exponent of a number, if there is one. -/
def readExponent : List Char → Option (List Char × List Char)
  | c :: rest =>
    if c = 'e' ∨ c = 'E' then
      match rest with
      | '+' :: rest => readExponentDigits [c, '+'] rest
      | '-' :: rest => readExponentDigits [c, '-'] rest
      | _ => readExponentDigits [c] rest
    else some ([], c :: rest)
  | [] => some ([], [])

/-- A number without its sign. -/
def readMagnitude (cs : List Char) : Option (List Char × List Char) :=
  match readWhole cs with
  | none => none
  | some (whole, rest) =>
    match readFraction rest with
    | none => none
    | some (fraction, rest) =>
      match readExponent rest with
      | none => none
      | some (exponent, rest) => some (whole ++ fraction ++ exponent, rest)

/-- **A number**, as it is written. -/
def readNumber : List Char → Option (List Char × List Char)
  | '-' :: rest => (readMagnitude rest).map fun (digits, rest) => ('-' :: digits, rest)
  | cs => readMagnitude cs

/-! ## Values -/

mutual

/-- A value at the start of the text. -/
def readValue : Nat → List Char → Option (Value × List Char)
  | 0, _ => none
  | n + 1, cs =>
    match skipBlanks cs with
    | 'n' :: 'u' :: 'l' :: 'l' :: rest => some (.null, rest)
    | 't' :: 'r' :: 'u' :: 'e' :: rest => some (.bool true, rest)
    | 'f' :: 'a' :: 'l' :: 's' :: 'e' :: rest => some (.bool false, rest)
    | '"' :: rest => (readText rest).map fun (s, rest) => (.text s, rest)
    | '[' :: rest =>
      match skipBlanks rest with
      | ']' :: rest => some (.array [], rest)
      | rest => (readItems n rest).map fun (items, rest) => (.array items, rest)
    | '\x7b' :: rest =>
      match skipBlanks rest with
      | '\x7d' :: rest => some (.object [], rest)
      | rest => (readFields n rest).map fun (fields, rest) => (.object fields, rest)
    | rest => (readNumber rest).map fun (digits, rest) => (.number digits, rest)

/-- The items of an array up to its closing bracket. -/
def readItems : Nat → List Char → Option (List Value × List Char)
  | 0, _ => none
  | n + 1, cs =>
    match readValue n cs with
    | none => none
    | some (item, rest) =>
      match skipBlanks rest with
      | ']' :: rest => some ([item], rest)
      | ',' :: rest => (readItems n rest).map fun (items, rest) => (item :: items, rest)
      | _ => none

/-- The fields of an object up to its closing brace. -/
def readFields : Nat → List Char → Option (List (Option String × Value) × List Char)
  | 0, _ => none
  | n + 1, cs =>
    match skipBlanks cs with
    | '"' :: rest =>
      match readText rest with
      | none => none
      | some (key, rest) =>
        match skipBlanks rest with
        | ':' :: rest =>
          match readValue n rest with
          | none => none
          | some (value, rest) =>
            match skipBlanks rest with
            | '\x7d' :: rest => some ([(key, value)], rest)
            | ',' :: rest =>
              (readFields n rest).map fun (fields, rest) => ((key, value) :: fields, rest)
            | _ => none
        | _ => none
    | _ => none

end

/-- **The value of a whole document.** Every step into a value leaves a character behind, so twice
the length of the text is steps enough. -/
def read? (cs : List Char) : Option Value :=
  match readValue (2 * cs.length + 2) cs with
  | some (value, rest) => if (skipBlanks rest).isEmpty then some value else none
  | none => none

end Mgol.Json
