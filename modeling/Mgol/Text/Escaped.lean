import Mgol.Text.Combining
import Mgol.Text.Decimal
import Mgol.Text.Printable

/-! # Escaped text

Writing a text so that every character of it can be seen. Quotes, backslashes and the common
control characters get a backslash; what is unprintable is written as its code point.

* **`escapeMessage s`** — for use between quotes inside a message: a combining character is
  written as its code point only where it begins the text.
* **`quote s`** — a whole quoted text: single quotes stay, and a combining character is always
  written as its code point.
* **`escapeByte b`** — a single byte, by its ASCII character. -/

namespace Mgol.Text

/-- A code point in braces. -/
def codePoint (c : Char) : List Char :=
  ['\\', 'u', '\x7b'] ++ hexDigits c.toNat ++ ['\x7d']

/-- Choices of one escaping: which quotes get a backslash, and whether combining characters are
written as code points. -/
structure Escaping where
  doubleQuote : Bool
  singleQuote : Bool
  combining : Bool

/-- One character, escaped. -/
def escapeChar (e : Escaping) (c : Char) : List Char :=
  if c = '\x00' then ['\\', '0']
  else if c = '\t' then ['\\', 't']
  else if c = '\r' then ['\\', 'r']
  else if c = '\n' then ['\\', 'n']
  else if c = '\\' then ['\\', '\\']
  else if c = '"' && e.doubleQuote then ['\\', '"']
  else if c = '\'' && e.singleQuote then ['\\', '\'']
  else if e.combining && isCombining c then codePoint c
  else if isPrintable c then [c]
  else codePoint c

/-- Both quotes are escaped, and a combining character as well. -/
def Escaping.atStart : Escaping := ⟨true, true, true⟩

/-- Both quotes are escaped, and combining characters stay. -/
def Escaping.inside : Escaping := ⟨true, true, false⟩

/-- Only the double quote is escaped, and every combining character is. -/
def Escaping.quoted : Escaping := ⟨true, false, true⟩

/-- **A text escaped for a message.** -/
def escapeMessage (s : String) : String :=
  match s.toList with
  | [] => ""
  | c :: cs => String.ofList (escapeChar .atStart c ++ cs.flatMap (escapeChar .inside))

/-- **A text in double quotes**, escaped. -/
def quote (s : String) : String :=
  String.ofList ('"' :: s.toList.flatMap (escapeChar .quoted) ++ ['"'])

/-- A byte as its ASCII character, escaped where it has none. -/
def escapeByte (b : UInt8) : String :=
  let n := b.toNat
  if n = 9 then "\\t"
  else if n = 13 then "\\r"
  else if n = 10 then "\\n"
  else if n = 39 then "\\'"
  else if n = 34 then "\\\""
  else if n = 92 then "\\\\"
  else if 0x20 ≤ n ∧ n < 0x7F then String.singleton (Char.ofNat n)
  else
    let digits := hexDigits n
    String.ofList (['\\', 'x'] ++ List.replicate (2 - digits.length) '0' ++ digits)

end Mgol.Text
