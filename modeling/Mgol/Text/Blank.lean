/-! # Blank characters

White space in the sense of the Unicode property of that name, and the removal of it at the ends
of a text.

* **`isBlank c`** — the property.
* **`trim cs`** — `cs` without the blanks at its two ends. -/

namespace Mgol.Text

/-- The white space characters. -/
def isBlank (c : Char) : Bool :=
  let n := c.toNat
  (0x9 ≤ n && n ≤ 0xD) || n == 0x20 || n == 0x85 || n == 0xA0 || n == 0x1680
    || (0x2000 ≤ n && n ≤ 0x200A) || n == 0x2028 || n == 0x2029 || n == 0x202F || n == 0x205F
    || n == 0x3000

/-- Drops the blanks at the end of a text. -/
def trimRight (cs : List Char) : List Char :=
  (cs.reverse.dropWhile isBlank).reverse

/-- Drops the blanks at both ends of a text. -/
def trim (cs : List Char) : List Char :=
  trimRight (cs.dropWhile isBlank)

/-- A text is blank when it holds nothing but white space. -/
def allBlank (cs : List Char) : Bool :=
  cs.all isBlank

end Mgol.Text
