import Mgol.Text.Decimal

/-! # Writing JSON

The textual form of JSON values that the compiler writes: log lines and rule sets.

* **`Json.quote s`** — a string; only quotes, backslashes and control characters are escaped. -/

namespace Mgol.Json

/-- One character inside a string. -/
def escapeChar (c : Char) : List Char :=
  if c = '"' then ['\\', '"']
  else if c = '\\' then ['\\', '\\']
  else if c = '\x08' then ['\\', 'b']
  else if c = '\x0c' then ['\\', 'f']
  else if c = '\n' then ['\\', 'n']
  else if c = '\r' then ['\\', 'r']
  else if c = '\t' then ['\\', 't']
  else if c.toNat < 0x20 then
    let digits := Text.hexDigits c.toNat
    ['\\', 'u', '0', '0'] ++ List.replicate (2 - digits.length) '0' ++ digits
  else [c]

/-- **A string in JSON.** -/
def quote (s : String) : String :=
  String.ofList ('"' :: s.toList.flatMap escapeChar ++ ['"'])

/-- A truth value in JSON. -/
def ofBool (b : Bool) : String :=
  if b then "true" else "false"

/-- A field of an object. -/
def field (key value : String) : String :=
  quote key ++ ":" ++ value

/-- An object with the given fields, without blanks. -/
def object (fields : List String) : String :=
  "\x7b" ++ ",".intercalate fields ++ "\x7d"

end Mgol.Json
