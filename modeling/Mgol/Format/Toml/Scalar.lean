import Mgol.Format.JsonReader
import Mgol.Format.Toml.Value

/-! # Scalars of TOML

Strings, numbers and dates. Every reader takes the text from its first character on and gives what
it read with the rest, or nothing.

* **`Toml.readString`** — the four kinds of strings.
* **`Toml.readNumber`** — dates, floats and integers. -/

namespace Mgol.Toml

/-- What a reader gives: what it read and the rest of the text. -/
abbrev Read (α : Type) := Option (α × List Char)

/-- Whether a character may stand in a comment or a string: everything but control characters. -/
def isPlain (c : Char) : Bool := c = '\t' || (0x20 ≤ c.toNat && c.toNat ≠ 0x7F)

/-- A space or a tab. -/
def isBlank (c : Char) : Bool := c = ' ' || c = '\t'

/-- The rest of a text after its blanks. -/
def skipBlanks (cs : List Char) : List Char := cs.dropWhile isBlank

/-! ## Strings -/

/-- The value of some hexadecimal digits. -/
def hexValue? (value : Nat) : List Char → Option Nat
  | [] => some value
  | c :: rest =>
    match Json.hexDigit? c with
    | some d => hexValue? (value * 16 + d) rest
    | none => none

/-- The character with a code point, if there is one. -/
def scalar? (n : Nat) : Option Char :=
  if n < 0xD800 ∨ (0xDFFF < n ∧ n < 0x110000) then some (Char.ofNat n) else none

/-- The character of an escape of one letter. -/
def shortEscape? : Char → Option Char
  | 'b' => some '\x08'
  | 't' => some '\t'
  | 'n' => some '\n'
  | 'f' => some '\x0c'
  | 'r' => some '\r'
  | '"' => some '"'
  | '\\' => some '\\'
  | _ => none

/-- A code point in hexadecimal digits. -/
def readCodePoint (digits : Nat) (cs : List Char) : Read Char :=
  if cs.length < digits then none
  else
    match (hexValue? 0 (cs.take digits)).bind scalar? with
    | some c => some (c, cs.drop digits)
    | none => none

/-- The character of an escape, after the backslash. -/
def readEscape : List Char → Read Char
  | 'u' :: rest => readCodePoint 4 rest
  | 'U' :: rest => readCodePoint 8 rest
  | c :: rest => (shortEscape? c).map fun e => (e, rest)
  | [] => none

/-- A string in double quotes on one line, after its opening quote; `n` bounds its length. -/
def readBasic : Nat → List Char → List Char → Read String
  | 0, _, _ => none
  | n + 1, found, cs =>
    match cs with
    | [] => none
    | '"' :: rest => some (String.ofList found.reverse, rest)
    | '\\' :: rest =>
      match readEscape rest with
      | some (c, rest) => readBasic n (c :: found) rest
      | none => none
    | c :: rest => if isPlain c then readBasic n (c :: found) rest else none

/-- A string in single quotes on one line, after its opening quote. -/
def readLiteral (found : List Char) : List Char → Read String
  | [] => none
  | '\'' :: rest => some (String.ofList found.reverse, rest)
  | c :: rest => if isPlain c then readLiteral (c :: found) rest else none

/-- The rest of a text after a line end, if it begins with one. -/
def dropNewline? : List Char → Option (List Char)
  | '\n' :: rest => some rest
  | '\r' :: '\n' :: rest => some rest
  | _ => none

/-- The rest of a text after the line end that it may begin with. -/
def dropFirstNewline (cs : List Char) : List Char := (dropNewline? cs).getD cs

/-- The rest of a text after the blanks and line ends it begins with. -/
def skipBlankLines : List Char → List Char
  | ' ' :: rest => skipBlankLines rest
  | '\t' :: rest => skipBlankLines rest
  | '\n' :: rest => skipBlankLines rest
  | '\r' :: '\n' :: rest => skipBlankLines rest
  | cs => cs

/-- What closes a string over several lines: three quotes, before which one or two more belong to
the string. -/
def closing (quote : Char) (cs : List Char) : Option (List Char × List Char) :=
  let run := cs.takeWhile (· = quote)
  if run.length < 3 then none
  else
    let kept := min (run.length - 3) 2
    some (List.replicate kept quote, cs.drop (kept + 3))

/-- A string in double quotes over several lines, after its opening; `n` bounds its length. -/
def readLongBasic : Nat → List Char → List Char → Read String
  | 0, _, _ => none
  | n + 1, found, cs =>
    match cs with
    | [] => none
    | '"' :: rest =>
      match closing '"' cs with
      | some (kept, rest) => some (String.ofList (kept ++ found).reverse, rest)
      | none => readLongBasic n ('"' :: found) rest
    | '\\' :: rest =>
      match dropNewline? (skipBlanks rest) with
      | some rest => readLongBasic n found (skipBlankLines rest)
      | none =>
        match readEscape rest with
        | some (c, rest) => readLongBasic n (c :: found) rest
        | none => none
    | c :: rest =>
      match dropNewline? cs with
      | some rest => readLongBasic n ('\n' :: found) rest
      | none => if isPlain c then readLongBasic n (c :: found) rest else none

/-- A string in single quotes over several lines, after its opening; `n` bounds its length. -/
def readLongLiteral : Nat → List Char → List Char → Read String
  | 0, _, _ => none
  | n + 1, found, cs =>
    match cs with
    | [] => none
    | '\'' :: rest =>
      match closing '\'' cs with
      | some (kept, rest) => some (String.ofList (kept ++ found).reverse, rest)
      | none => readLongLiteral n ('\'' :: found) rest
    | c :: rest =>
      match dropNewline? cs with
      | some rest => readLongLiteral n ('\n' :: found) rest
      | none => if isPlain c then readLongLiteral n (c :: found) rest else none

/-- **A string of any kind.** -/
def readString (cs : List Char) : Read String :=
  match cs with
  | '"' :: '"' :: '"' :: rest => readLongBasic (rest.length + 1) [] (dropFirstNewline rest)
  | '"' :: rest => readBasic (rest.length + 1) [] rest
  | '\'' :: '\'' :: '\'' :: rest => readLongLiteral (rest.length + 1) [] (dropFirstNewline rest)
  | '\'' :: rest => readLiteral [] rest
  | _ => none

/-! ## Numbers -/

/-- Digits after the first one, with single underscores between them. -/
def moreDigits (isDigit : Char → Bool) : List Char → Read (List Char)
  | '_' :: c :: rest =>
    if isDigit c then (moreDigits isDigit rest).map fun (ds, rest) => (c :: ds, rest) else none
  | c :: rest =>
    if isDigit c then (moreDigits isDigit rest).map fun (ds, rest) => (c :: ds, rest)
    else if c = '_' then none
    else some ([], c :: rest)
  | [] => some ([], [])

/-- A run of digits with single underscores between them. -/
def readDigits (isDigit : Char → Bool) : List Char → Read (List Char)
  | c :: rest =>
    if isDigit c then (moreDigits isDigit rest).map fun (ds, rest) => (c :: ds, rest) else none
  | [] => none

/-- The digits of a whole number, which begin with a zero only if that is all. -/
def readWhole : List Char → Read (List Char)
  | '0' :: rest => some (['0'], rest)
  | cs => readDigits Json.isDigit cs

/-- The sign of a number, if it has one, and the rest: whether it is negative. -/
def readSign : List Char → Bool × List Char
  | '-' :: rest => (true, rest)
  | '+' :: rest => (false, rest)
  | cs => (false, cs)

/-- Largest integer of a document; the least one is one below its negative. -/
def integerMax : Nat := 9223372036854775807

/-- A signed integer in the range of a document. -/
def signed? (negative : Bool) (magnitude : Nat) : Option Int :=
  if negative then (if magnitude ≤ integerMax + 1 then some (-(magnitude : Int)) else none)
  else if magnitude ≤ integerMax then some (magnitude : Int)
  else none

/-- Whether a character is a digit of a base up to sixteen. -/
def isDigitOf (base : Nat) (c : Char) : Bool :=
  match Json.hexDigit? c with
  | some d => d < base
  | none => false

/-- The value of digits in a base. -/
def valueIn (base : Nat) (digits : List Char) : Nat :=
  digits.foldl (fun value c => value * base + (Json.hexDigit? c).getD 0) 0

/-- An integer in another base, after the letter that names the base. -/
def readBased (base : Nat) (cs : List Char) : Read Value :=
  match readDigits (isDigitOf base) cs with
  | none => none
  | some (digits, rest) => (signed? false (valueIn base digits)).map fun n => (.integer n, rest)

/-- An integer. -/
def readInteger (cs : List Char) : Read Value :=
  match cs with
  | '0' :: 'x' :: rest => readBased 16 rest
  | '0' :: 'o' :: rest => readBased 8 rest
  | '0' :: 'b' :: rest => readBased 2 rest
  | _ =>
    let (negative, rest) := readSign cs
    match readWhole rest with
    | none => none
    | some (digits, rest) =>
      (signed? negative (valueIn 10 digits)).map fun n => (.integer n, rest)

/-- The fraction of a float after its point. -/
def readFraction : List Char → Read (List Char)
  | '.' :: rest => readDigits Json.isDigit rest
  | _ => none

/-- The exponent of a float. -/
def readExponent : List Char → Read Int
  | c :: rest =>
    if c = 'e' ∨ c = 'E' then
      let (negative, rest) := readSign rest
      (readDigits Json.isDigit rest).map fun (ds, rest) =>
        (if negative then -(valueIn 10 ds : Int) else (valueIn 10 ds : Int), rest)
    else none
  | [] => none

/-- The fraction and the exponent of a float, of which one must be there. -/
def readFloatTail (cs : List Char) : Read (List Char × Int) :=
  match readFraction cs with
  | some (fraction, rest) =>
    match readExponent rest with
    | some (exponent, rest) => some ((fraction, exponent), rest)
    | none => some ((fraction, 0), rest)
  | none => (readExponent cs).map fun (exponent, rest) => (([], exponent), rest)

/-- Whether `digits * 10 ^ exponent` is too large for double precision: nearer to two to the power
of 1024 than to the largest number below it. -/
def isHuge (digits : List Char) (exponent : Int) : Bool :=
  let digits := digits.dropWhile (· = '0')
  let size : Int := (digits.length : Int) + exponent
  if digits.isEmpty ∨ size < 300 then false
  else if 320 < size then true
  else
    let bound := Nat.pow 2 1024 - Nat.pow 2 970
    let value := valueIn 10 digits
    if 0 ≤ exponent then bound ≤ value * Nat.pow 10 exponent.toNat
    else bound * Nat.pow 10 (-exponent).toNat ≤ value

/-- The text between two ends of a text, of which the second is a part of the first. -/
def between (whole rest : List Char) : List Char := whole.take (whole.length - rest.length)

/-- A float with digits. One that is positive and too large is none. -/
def readDigitsFloat (cs : List Char) : Read Value :=
  let (negative, rest) := readSign cs
  match readWhole rest with
  | none => none
  | some (whole, rest) =>
    match readFloatTail rest with
    | none => none
    | some ((fraction, exponent), rest) =>
      if !negative && isHuge (whole ++ fraction) (exponent - fraction.length) then none
      else some (.float (between cs rest), rest)

/-- A float that is infinite or no number. -/
def readSpecialFloat (cs : List Char) : Read Value :=
  match (readSign cs).2 with
  | 'i' :: 'n' :: 'f' :: rest => some (.float (between cs rest), rest)
  | 'n' :: 'a' :: 'n' :: rest => some (.float (between cs rest), rest)
  | _ => none

/-- A float. -/
def readFloat (cs : List Char) : Read Value := readDigitsFloat cs <|> readSpecialFloat cs

/-! ## Dates and times -/

/-- A number of exactly `n` digits. -/
def readFixed (n : Nat) (cs : List Char) : Read Nat :=
  let digits := cs.take n
  if digits.length = n ∧ digits.all Json.isDigit then some (valueIn 10 digits, cs.drop n) else none

/-- A number of two digits between two bounds. -/
def readBetween (low high : Nat) (cs : List Char) : Read Nat :=
  match readFixed 2 cs with
  | some (n, rest) => if low ≤ n ∧ n ≤ high then some (n, rest) else none
  | none => none

/-- The rest of a text after a character. -/
def expect (c : Char) : List Char → Option (List Char)
  | d :: rest => if d = c then some rest else none
  | [] => none

/-- How many days a month has. -/
def daysIn (year month : Nat) : Nat :=
  if month = 2 then
    if year % 4 = 0 ∧ (year % 100 ≠ 0 ∨ year % 400 = 0) then 29 else 28
  else if month = 4 ∨ month = 6 ∨ month = 9 ∨ month = 11 then 30
  else 31

/-- The rest of a text after a date. -/
def skipDate (cs : List Char) : Option (List Char) := do
  let (year, rest) ← readFixed 4 cs
  let rest ← expect '-' rest
  let (month, rest) ← readBetween 1 12 rest
  let rest ← expect '-' rest
  let (_, rest) ← readBetween 1 (daysIn year month) rest
  return rest

/-- The rest of a text after the fraction of a second that it may begin with. -/
def skipSecondFraction (cs : List Char) : Option (List Char) :=
  match cs with
  | '.' :: rest =>
    match rest.span Json.isDigit with
    | ([], _) => some cs
    | (_, rest) => some rest
  | _ => some cs

/-- The rest of a text after a time of day. -/
def skipTime (cs : List Char) : Option (List Char) := do
  let (_, rest) ← readBetween 0 23 cs
  let rest ← expect ':' rest
  let (_, rest) ← readBetween 0 59 rest
  let rest ← expect ':' rest
  let (_, rest) ← readBetween 0 60 rest
  skipSecondFraction rest

/-- The rest of a text after hours and minutes. -/
def skipHours (cs : List Char) : Option (List Char) := do
  let (_, rest) ← readBetween 0 23 cs
  let rest ← expect ':' rest
  let (_, rest) ← readBetween 0 59 rest
  return rest

/-- The rest of a text after the offset of a time that it may begin with. -/
def skipOffset (cs : List Char) : List Char :=
  match cs with
  | 'Z' :: rest => rest
  | 'z' :: rest => rest
  | '+' :: rest => (skipHours rest).getD cs
  | '-' :: rest => (skipHours rest).getD cs
  | _ => cs

/-- The rest of a text after the time that may follow a date. -/
def skipTimeOfDate (cs : List Char) : List Char :=
  match cs with
  | c :: rest =>
    if c = 'T' ∨ c = 't' ∨ c = ' ' then
      match skipTime rest with
      | some rest => skipOffset rest
      | none => cs
    else cs
  | [] => []

/-- A date, a time or both. -/
def readDate (cs : List Char) : Read Value :=
  match skipDate cs with
  | some rest =>
    let rest := skipTimeOfDate rest
    some (.date (between cs rest), rest)
  | none => (skipTime cs).map fun rest => (.date (between cs rest), rest)

/-- **A date or a number.** -/
def readNumber (cs : List Char) : Read Value := readDate cs <|> readFloat cs <|> readInteger cs

end Mgol.Toml
