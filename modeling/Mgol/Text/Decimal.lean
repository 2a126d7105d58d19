/-! # Decimal numerals

Reading and writing natural numbers in decimal.

* **`readDigits? cs`** — the value of a non-empty run of ASCII digits.
* **`readBounded? bound cs`** — the same after an optional plus sign, up to a largest value. -/

namespace Mgol.Text

/-- The value of an ASCII digit. -/
def digit? (c : Char) : Option Nat :=
  if '0' ≤ c ∧ c ≤ '9' then some (c.toNat - '0'.toNat) else none

/-- Continues a numeral whose digits so far have the value `value`. -/
def digitsFrom (value : Nat) : List Char → Option Nat
  | [] => some value
  | c :: cs =>
    match digit? c with
    | some d => digitsFrom (value * 10 + d) cs
    | none => none

/-- The value of a non-empty run of digits. -/
def readDigits? : List Char → Option Nat
  | [] => none
  | cs => digitsFrom 0 cs

/-- **Reads an unsigned numeral**: an optional plus sign, then digits, with a value of at most
`bound`. -/
def readBounded? (bound : Nat) (cs : List Char) : Option Nat :=
  let digits :=
    match cs with
    | '+' :: rest => rest
    | _ => cs
  match readDigits? digits with
  | some n => if n ≤ bound then some n else none
  | none => none

/-- Largest value of a table cell, a state number or a stack capacity. -/
def wordMax : Nat := 18446744073709551615

/-- Largest number of an error category slot. -/
def slotMax : Nat := 65535

/-- Hexadecimal digits of a number, in lower case. -/
def hexDigits (n : Nat) : List Char :=
  Nat.toDigits 16 n

/-- A number in decimal, filled with zeros on the left to at least `width` digits. -/
def zeroFilled (width n : Nat) : String :=
  let digits := Nat.toDigits 10 n
  String.ofList (List.replicate (width - digits.length) '0' ++ digits)

end Mgol.Text
