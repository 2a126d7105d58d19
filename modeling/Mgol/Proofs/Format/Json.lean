import Mathlib.Data.List.DropRight
import Mathlib.Data.List.Forall2
import Mathlib.Data.List.TakeDrop
import Mathlib.Tactic.IntervalCases
import Mgol.Format.JsonReader
import Mgol.Format.JsonText
import Mgol.Proofs.Text.Decimal

/-! # JSON read back

The texts of values, one kind after the other: what is written of a value is read as the value,
whatever comes behind it.

* **`Json.readText_escaped`** — strings.
* **`Json.Reads`** — a text is read as a value.
* **`Json.reads_quote`, `Json.reads_toDigits`** — strings and numbers as values.
* **`Json.ReadsItems`, `Json.readsItems_intercalate`, `Json.reads_array`** — arrays, item by item.
* **`Json.ReadsFields`, `Json.reads_object`** — objects, field by field. -/

namespace Mgol.Json

-- the proofs below step through the reader by its own equations
attribute [local simp] readUnits readValue readItems readFields

/-! ## Strings -/

/-- A character that needs no escape is read as its code. -/
theorem readUnits_plain {c : Char} (hcontrol : ¬ c.toNat < 0x20) (hquote : c ≠ '"')
    (hslash : c ≠ '\\') (found : List Nat) (cs : List Char) :
    readUnits found (c :: cs) = readUnits (c.toNat :: found) cs := by
  rw [readUnits]
  · rw [if_neg (not_or.mpr ⟨hcontrol, hslash⟩)]
  · exact hquote
  · intro a b d e rest heq
    exact absurd heq hslash
  · intro e rest heq
    exact absurd heq hslash

/-- **A character in a string is read as its code.** -/
theorem readUnits_escapeChar (c : Char) (found : List Nat) (cs : List Char) :
    readUnits found (escapeChar c ++ cs) = readUnits (c.toNat :: found) cs := by
  by_cases hcontrol : c.toNat < 0x20
  · have hall : ∀ k < 0x20,
        readUnits found (escapeChar (Char.ofNat k) ++ cs) = readUnits (k :: found) cs := by
      intro k hk
      interval_cases k <;> rfl
    simpa using hall c.toNat hcontrol
  · by_cases hquote : c = '"'
    · subst hquote
      rfl
    by_cases hslash : c = '\\'
    · subst hslash
      rfl
    -- the other escapes are those of control characters
    have hother : ∀ d : Char, d.toNat < 0x20 → c ≠ d := fun d hd heq => hcontrol (heq ▸ hd)
    have hescape : escapeChar c = [c] := by
      rw [escapeChar, if_neg hquote, if_neg hslash, if_neg (hother _ (by decide)),
        if_neg (hother _ (by decide)), if_neg (hother _ (by decide)),
        if_neg (hother _ (by decide)), if_neg (hother _ (by decide)), if_neg hcontrol]
    rw [hescape]
    exact readUnits_plain hcontrol hquote hslash found cs

/-- The codes of characters are joined to the characters. -/
theorem joinUnits_toNat (cs : List Char) : joinUnits (cs.map Char.toNat) = some cs := by
  induction cs with
  | nil => rfl
  | cons c cs ih =>
    have hvalid : c.toNat < 0xD800 ∨ 0xDFFF < c.toNat := by
      rcases c.valid with hlow | hhigh
      · exact .inl hlow
      · exact .inr hhigh.1
    have hhigh : ¬ (0xD800 ≤ c.toNat ∧ c.toNat ≤ 0xDBFF) := by omega
    have hlow : ¬ (0xDC00 ≤ c.toNat ∧ c.toNat ≤ 0xDFFF) := by omega
    rw [List.map_cons, joinUnits.eq_def]
    simp only [if_neg hhigh, if_neg hlow, ih, Char.ofNat_toNat, Option.map_some]

/-- The characters of a string are read up to the closing quote. -/
theorem readUnits_escaped (s : List Char) (found : List Nat) (rest : List Char) :
    readUnits found (s.flatMap escapeChar ++ '"' :: rest) =
      some (found.reverse ++ s.map Char.toNat, rest) := by
  induction s generalizing found with
  | nil => simp
  | cons c s ih =>
    rw [List.flatMap_cons, List.append_assoc, readUnits_escapeChar, ih]
    simp

/-- **A string is read back.** -/
theorem readText_escaped (s : String) (rest : List Char) :
    readText (s.toList.flatMap escapeChar ++ '"' :: rest) = some (some s, rest) := by
  simp [readText, readUnits_escaped, joinUnits_toNat]

/-! ## Values -/

/-- What can stand behind a number: no character that would be part of it. -/
def Stops (rest : List Char) : Prop :=
  ∀ c ∈ rest.head?, isDigit c = false ∧ c ≠ '.' ∧ c ≠ 'e' ∧ c ≠ 'E'

/-- **A text that is read as a value**, with whatever behind it. Every step into the value leaves
a character behind, so that twice the length is steps enough. -/
def Reads (cs : List Char) (v : Value) : Prop :=
  ∀ n rest, 2 * cs.length < n → Stops rest → readValue n (cs ++ rest) = some (v, rest)

/-- Blanks before a text are skipped. -/
theorem skipBlanks_append {blanks : List Char} (h : ∀ c ∈ blanks, isBlank c = true)
    (cs : List Char) : skipBlanks (blanks ++ cs) = skipBlanks cs := by
  rw [skipBlanks, List.dropWhile_append_of_pos h]
  rfl

/-- Nothing is skipped of what begins with no blank. -/
theorem skipBlanks_cons {c : Char} (h : isBlank c = false) (cs : List Char) :
    skipBlanks (c :: cs) = c :: cs :=
  List.dropWhile_cons_of_neg (by simp [h])

/-- Nothing is skipped twice. -/
theorem skipBlanks_skipBlanks (cs : List Char) : skipBlanks (skipBlanks cs) = skipBlanks cs := by
  exact List.dropWhile_idempotent _ cs

/-- Blanks before a value do not matter. -/
theorem readValue_congr {cs cs' : List Char} (h : skipBlanks cs = skipBlanks cs') (n : Nat) :
    readValue n cs = readValue n cs' := by
  cases n with
  | zero => rfl
  | succ n => rw [readValue, readValue, h]

/-- **A value may be indented.** -/
theorem Reads.indent {cs : List Char} {v : Value} (h : Reads cs v) {blanks : List Char}
    (hblanks : ∀ c ∈ blanks, isBlank c = true) : Reads (blanks ++ cs) v := by
  intro n rest hn hrest
  rw [List.length_append] at hn
  rw [List.append_assoc, readValue_congr (skipBlanks_append hblanks _)]
  exact h n rest (by omega) hrest

/-- **A string is read as its text.** -/
theorem reads_quote (s : String) : Reads (quote s).toList (.text (some s)) := by
  intro n rest hn hrest
  obtain ⟨n, rfl⟩ := Nat.exists_eq_succ_of_ne_zero (Nat.ne_zero_of_lt hn)
  have hchars : (quote s).toList ++ rest = '"' :: (s.toList.flatMap escapeChar ++ '"' :: rest) := by
    simp [quote]
  rw [hchars, readValue, skipBlanks_cons (by decide)]
  simp [readText_escaped]

/-! ## Numbers -/

/-- Digits are found up to where they stop. -/
theorem readRun_append {digits rest : List Char} (hne : digits ≠ [])
    (hdigits : ∀ c ∈ digits, isDigit c = true) (hrest : Stops rest) :
    readRun (digits ++ rest) = some (digits, rest) := by
  have hstop : rest.takeWhile isDigit = [] ∧ rest.dropWhile isDigit = rest := by
    cases rest with
    | nil => exact ⟨rfl, rfl⟩
    | cons c rest =>
      have hc : ¬ isDigit c = true := by simp [(hrest c rfl).1]
      exact ⟨List.takeWhile_cons_of_neg hc, List.dropWhile_cons_of_neg hc⟩
  have hspan : (digits ++ rest).span isDigit = (digits, rest) := by
    rw [List.span_eq_takeWhile_dropWhile, List.takeWhile_append_of_pos hdigits,
      List.dropWhile_append_of_pos hdigits, hstop.1, hstop.2, List.append_nil]
  rw [readRun, hspan]
  split
  · next heq => exact absurd (Prod.mk.inj heq).1 hne
  · next heq => rw [heq]

/-- Behind the digits of a number there is no fraction and no exponent. -/
theorem readMagnitude_of_whole {cs digits rest : List Char}
    (h : readWhole cs = some (digits, rest)) (hrest : Stops rest) :
    readMagnitude cs = some (digits, rest) := by
  have hfraction : readFraction rest = some ([], rest) := by
    unfold readFraction
    split
    · exact absurd rfl (hrest '.' rfl).2.1
    · rfl
  have hexponent : readExponent rest = some ([], rest) := by
    cases rest with
    | nil => rfl
    | cons c rest =>
      unfold readExponent
      exact if_neg (not_or.mpr (hrest c rfl).2.2)
  simp [readMagnitude, h, hfraction, hexponent]

/-- The digits of a number are a whole number. -/
theorem readWhole_toDigits (n : Nat) {rest : List Char} (hrest : Stops rest) :
    readWhole (Nat.toDigits 10 n ++ rest) = some (Nat.toDigits 10 n, rest) := by
  by_cases hn : n = 0
  · subst hn
    rfl
  obtain ⟨c, cs, hdigits, -, hzero⟩ := Text.head_toDigits n
  unfold readWhole
  split
  · next heq =>
    -- only zero begins with a zero
    rw [hdigits] at heq
    exact absurd (hzero (List.cons.inj heq).1) hn
  · refine readRun_append Nat.toDigits_ne_nil (fun d hd => ?_) hrest
    simpa [isDigit, Char.isDigit, Char.le_def] using Text.isDigit_of_mem hd

/-- A value that begins with a digit is a number. -/
theorem readValue_of_isDigit {c : Char} (hc : c.isDigit = true) (k : Nat) (cs : List Char) :
    readValue (k + 1) (c :: cs) =
      (readMagnitude (c :: cs)).map fun (digits, rest) => (.number digits, rest) := by
  have hother : ∀ d : Char, d.isDigit = false → c ≠ d := by
    rintro d hd rfl
    rw [hc] at hd
    cases hd
  have hblank : isBlank c = false := by
    simp [isBlank, hother ' ' rfl, hother '\n' rfl, hother '\t' rfl, hother '\r' rfl]
  have hnumber : readNumber (c :: cs) = readMagnitude (c :: cs) := by
    unfold readNumber
    split
    · next heq => exact absurd (List.cons.inj heq).1 (hother '-' rfl)
    · rfl
  rw [readValue, skipBlanks_cons hblank]
  split
  case h_7 => rw [hnumber]
  all_goals next heq => exact absurd (List.cons.inj heq).1 (hother _ rfl)

/-- **The digits of a number are read as they are.** -/
theorem reads_toDigits (n : Nat) : Reads (Nat.toDigits 10 n) (.number (Nat.toDigits 10 n)) := by
  intro k rest hk hrest
  obtain ⟨k, rfl⟩ := Nat.exists_eq_succ_of_ne_zero (Nat.ne_zero_of_lt hk)
  have hmagnitude := readMagnitude_of_whole (readWhole_toDigits n hrest) hrest
  obtain ⟨c, cs, hdigits, hc, -⟩ := Text.head_toDigits n
  rw [hdigits, List.cons_append] at hmagnitude ⊢
  rw [Nat.succ_eq_add_one, readValue_of_isDigit hc, hmagnitude]
  rfl

/-! ## Arrays -/

/-- **Items up to a closing bracket** that are read as values. -/
def ReadsItems (cs : List Char) (items : List Value) : Prop :=
  ∀ n rest, 2 * cs.length ≤ n → readItems n (cs ++ rest) = some (items, rest)

/-- Blanks before the items are skipped. -/
theorem readItems_skipBlanks (n : Nat) (cs : List Char) :
    readItems n (skipBlanks cs) = readItems n cs := by
  cases n with
  | zero => rfl
  | succ n =>
    rw [readItems, readItems, readValue_congr (skipBlanks_skipBlanks cs)]

/-- Items may be indented. -/
theorem ReadsItems.indent {cs : List Char} {items : List Value} (h : ReadsItems cs items)
    {blanks : List Char} (hblanks : ∀ c ∈ blanks, isBlank c = true) :
    ReadsItems (blanks ++ cs) items := by
  intro n rest hn
  rw [List.length_append] at hn
  rw [List.append_assoc, ← readItems_skipBlanks, skipBlanks_append hblanks, readItems_skipBlanks]
  exact h n rest (by omega)

/-- A comma may stand behind a number. -/
theorem stops_comma (rest : List Char) : Stops (',' :: rest) := by
  intro c hc
  obtain rfl := Option.some.inj hc
  decide

/-- Blanks and a mark may stand behind a number. -/
theorem stops_mark {blanks : List Char} (hblanks : ∀ c ∈ blanks, isBlank c = true) {mark : Char}
    (hmark : mark ∈ [']', '\x7d']) (rest : List Char) : Stops (blanks ++ mark :: rest) := by
  have hstop : ∀ c ∈ [' ', '\n', '\t', '\r', ']', '\x7d'],
      isDigit c = false ∧ c ≠ '.' ∧ c ≠ 'e' ∧ c ≠ 'E' := by simp [isDigit]
  intro c hc
  refine hstop c ?_
  cases blanks with
  | nil =>
    obtain rfl := Option.some.inj hc
    exact List.mem_append_right [' ', '\n', '\t', '\r'] hmark
  | cons b blanks =>
    obtain rfl := Option.some.inj hc
    have hb := hblanks b List.mem_cons_self
    simp only [isBlank, Bool.or_eq_true, decide_eq_true_eq] at hb
    rcases hb with ((rfl | rfl) | rfl) | rfl <;> decide

/-- The last item. -/
theorem ReadsItems.last {cs : List Char} {v : Value} (h : Reads cs v) {blanks : List Char}
    (hblanks : ∀ c ∈ blanks, isBlank c = true) : ReadsItems (cs ++ blanks ++ [']']) [v] := by
  intro n rest hn
  simp only [List.length_append, List.length_singleton] at hn
  obtain ⟨n, rfl⟩ : ∃ m, n = m + 1 := ⟨n - 1, by omega⟩
  have hitem := h n (blanks ++ ']' :: rest) (by omega) (stops_mark hblanks (by decide) rest)
  have hskip : skipBlanks (blanks ++ ']' :: rest) = ']' :: rest :=
    (skipBlanks_append hblanks _).trans (skipBlanks_cons (by decide) _)
  rw [List.append_assoc, List.append_assoc, List.singleton_append]
  simp [hitem, hskip]

/-- An item before others. -/
theorem ReadsItems.cons {cs more : List Char} {v : Value} {vs : List Value} (h : Reads cs v)
    (hmore : ReadsItems more vs) : ReadsItems (cs ++ ',' :: more) (v :: vs) := by
  intro n rest hn
  simp only [List.length_append, List.length_cons] at hn
  obtain ⟨n, rfl⟩ : ∃ m, n = m + 1 := ⟨n - 1, by omega⟩
  have hitem := h n (',' :: (more ++ rest)) (by omega) (stops_comma _)
  have hskip : skipBlanks (',' :: (more ++ rest)) = ',' :: (more ++ rest) :=
    skipBlanks_cons (by decide) _
  rw [List.append_assoc, List.cons_append]
  simp [hitem, hskip, hmore n rest (by omega)]

/-- **Items between commas and line feeds.** -/
theorem readsItems_intercalate {texts : List (List Char)} {items : List Value}
    (h : List.Forall₂ Reads texts items) (hne : texts ≠ []) {blanks : List Char}
    (hblanks : ∀ c ∈ blanks, isBlank c = true) :
    ReadsItems ([',', '\n'].intercalate texts ++ blanks ++ [']']) items := by
  induction h with
  | nil => exact absurd rfl hne
  | cons hitem hitems ih =>
    cases hitems with
    | nil => simpa using ReadsItems.last hitem hblanks
    | cons hnext hitems =>
      have hfeed : ∀ c ∈ ['\n'], isBlank c = true := List.all_eq_true.mp rfl
      have hmore := (ih (List.cons_ne_nil _ _)).indent hfeed
      simpa [List.intercalate_cons_cons] using ReadsItems.cons hitem hmore

/-- An array with no items. -/
theorem reads_array_nil : Reads ['[', ']'] (.array []) := by
  intro n rest hn _
  obtain ⟨n, rfl⟩ := Nat.exists_eq_succ_of_ne_zero (Nat.ne_zero_of_lt hn)
  rfl

/-- Where a value is read there is no closing bracket. -/
theorem readValue_bracket {cs rest : List Char} (h : skipBlanks cs = ']' :: rest) (n : Nat) :
    readValue n cs = none := by
  cases n with
  | zero => rfl
  | succ n =>
    rw [readValue, h]
    rfl

/-- **An array is read as its items.** -/
theorem reads_array {cs : List Char} {items : List Value} (h : ReadsItems cs items) :
    Reads ('[' :: cs) (.array items) := by
  intro n rest hn _
  rw [List.length_cons] at hn
  obtain ⟨n, rfl⟩ : ∃ m, n = m + 1 := ⟨n - 1, by omega⟩
  have hitems := h n rest (by omega)
  rw [List.cons_append, readValue, skipBlanks_cons (by decide)]
  simp only
  split
  · next heq =>
    cases n with
    | zero => cases hitems
    | succ n =>
      rw [readItems, readValue_bracket heq] at hitems
      cases hitems
  · rw [readItems_skipBlanks, hitems]
    rfl

/-! ## Objects -/

/-- **Fields up to a closing brace** that are read as keys and values. -/
def ReadsFields (cs : List Char) (fields : List (Option String × Value)) : Prop :=
  ∀ n rest, 2 * cs.length ≤ n → readFields n (cs ++ rest) = some (fields, rest)

/-- The text of a field: its key, indented, and its value. -/
def fieldChars (indent : List Char) (key : String) (value : List Char) : List Char :=
  indent ++ (quote key).toList ++ ':' :: value

/-- A field begins with the quote of its key. -/
theorem skipBlanks_fieldChars {indent : List Char} (hindent : ∀ c ∈ indent, isBlank c = true)
    (key : String) (value rest : List Char) :
    skipBlanks (fieldChars indent key value ++ rest) =
      '"' :: (key.toList.flatMap escapeChar ++ '"' :: ':' :: (value ++ rest)) := by
  have hchars : fieldChars indent key value ++ rest =
      indent ++ '"' :: (key.toList.flatMap escapeChar ++ '"' :: ':' :: (value ++ rest)) := by
    simp [fieldChars, quote]
  rw [hchars, skipBlanks_append hindent, skipBlanks_cons (by decide)]

/-- The last field. -/
theorem ReadsFields.last {indent : List Char} (hindent : ∀ c ∈ indent, isBlank c = true)
    (key : String) {value : List Char} {v : Value} (h : Reads value v) {blanks : List Char}
    (hblanks : ∀ c ∈ blanks, isBlank c = true) :
    ReadsFields (fieldChars indent key value ++ blanks ++ ['\x7d']) [(some key, v)] := by
  intro n rest hn
  simp only [fieldChars, List.length_append, List.length_cons] at hn
  obtain ⟨n, rfl⟩ : ∃ m, n = m + 1 := ⟨n - 1, by omega⟩
  have hvalue := h n (blanks ++ '\x7d' :: rest) (by omega) (stops_mark hblanks (by decide) rest)
  have hcolon := skipBlanks_cons (c := ':') (by decide) (value ++ (blanks ++ '\x7d' :: rest))
  have hskip : skipBlanks (blanks ++ '\x7d' :: rest) = '\x7d' :: rest :=
    (skipBlanks_append hblanks _).trans (skipBlanks_cons (by decide) _)
  rw [List.append_assoc, List.append_assoc, List.singleton_append]
  simp [skipBlanks_fieldChars hindent, readText_escaped, hcolon, hvalue, hskip]

/-- A field before others. -/
theorem ReadsFields.cons {indent : List Char} (hindent : ∀ c ∈ indent, isBlank c = true)
    (key : String) {value more : List Char} {v : Value} {fields : List (Option String × Value)}
    (h : Reads value v) (hmore : ReadsFields more fields) :
    ReadsFields (fieldChars indent key value ++ ',' :: more) ((some key, v) :: fields) := by
  intro n rest hn
  simp only [fieldChars, List.length_append, List.length_cons] at hn
  obtain ⟨n, rfl⟩ : ∃ m, n = m + 1 := ⟨n - 1, by omega⟩
  have hvalue := h n (',' :: (more ++ rest)) (by omega) (stops_comma _)
  have hcolon := skipBlanks_cons (c := ':') (by decide) (value ++ ',' :: (more ++ rest))
  have hskip := skipBlanks_cons (c := ',') (by decide) (more ++ rest)
  rw [List.append_assoc, List.cons_append]
  simp [skipBlanks_fieldChars hindent, readText_escaped, hcolon, hvalue, hskip,
    hmore n rest (by omega)]

/-- Blanks before the fields are skipped. -/
theorem readFields_skipBlanks (n : Nat) (cs : List Char) :
    readFields n (skipBlanks cs) = readFields n cs := by
  cases n with
  | zero => rfl
  | succ n => rw [readFields, readFields, skipBlanks_skipBlanks]

/-- **An object is read as its fields.** -/
theorem reads_object {cs : List Char} {fields : List (Option String × Value)}
    (h : ReadsFields cs fields) : Reads ('\x7b' :: cs) (.object fields) := by
  intro n rest hn _
  rw [List.length_cons] at hn
  obtain ⟨n, rfl⟩ : ∃ m, n = m + 1 := ⟨n - 1, by omega⟩
  have hfields := h n rest (by omega)
  rw [List.cons_append, readValue, skipBlanks_cons (by decide)]
  simp only
  split
  · next heq =>
    -- a field begins with a quote
    cases n with
    | zero => cases hfields
    | succ n =>
      rw [readFields, heq] at hfields
      cases hfields
  · rw [readFields_skipBlanks, hfields]
    rfl

/-! ## Documents -/

/-- **A text that is read as a value is a document.** -/
theorem read?_of_reads {cs : List Char} {v : Value} (h : Reads cs v) : read? cs = some v := by
  have hread := h (2 * cs.length + 2) [] (by omega) (by simp [Stops])
  rw [List.append_nil] at hread
  rw [read?, hread]
  rfl

end Mgol.Json
