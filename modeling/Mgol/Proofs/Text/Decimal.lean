import Mgol.Text.Decimal

/-! # Numerals read back

A number that is written in decimal and read again is the number.

* **`Text.digitsFrom_eq`** — the value of a run of digits.
* **`Text.readDigits?_toDigits`, `Text.readBounded?_toDigits`** — reading the digits of a number.
* **`Text.le_of_readBounded?`** — what is read is within the bound.
* **`Text.head_toDigits`** — what the digits of a number begin with. -/

namespace Mgol.Text

/-- The value of a digit. -/
theorem digit?_of_isDigit {c : Char} (h : c.isDigit = true) :
    digit? c = some (c.toNat - '0'.toNat) := by
  have hrange : '0' ≤ c ∧ c ≤ '9' := by
    simpa [Char.isDigit, Char.le_def] using h
  rw [digit?, if_pos hrange]

/-- **The value of a run of digits** after others. -/
theorem digitsFrom_eq {cs : List Char} (h : ∀ c ∈ cs, c.isDigit = true) (value : Nat) :
    digitsFrom value cs = some (Nat.ofDigitChars 10 cs value) := by
  induction cs generalizing value with
  | nil => rfl
  | cons c cs ih =>
    obtain ⟨hc, hcs⟩ := List.forall_mem_cons.mp h
    rw [digitsFrom, digit?_of_isDigit hc, Nat.ofDigitChars_cons, Nat.mul_comm 10]
    exact ih hcs _

/-- The digits of a number are digits. -/
theorem isDigit_of_mem {n : Nat} {c : Char} (h : c ∈ Nat.toDigits 10 n) : c.isDigit = true :=
  Nat.isDigit_of_mem_toDigits (by decide) (by decide) h

/-- **The digits of a number are read back.** -/
theorem readDigits?_toDigits (n : Nat) : readDigits? (Nat.toDigits 10 n) = some n := by
  have hvalue := digitsFrom_eq (fun _ hc => isDigit_of_mem (n := n) hc) 0
  rw [Nat.ofDigitChars_ten_toDigits] at hvalue
  cases hdigits : Nat.toDigits 10 n with
  | nil => exact absurd hdigits Nat.toDigits_ne_nil
  | cons c cs =>
    rw [hdigits] at hvalue
    exact hvalue

/-- **What the digits of a number begin with**: a zero only if the number is zero. -/
theorem head_toDigits (n : Nat) :
    ∃ c cs, Nat.toDigits 10 n = c :: cs ∧ c.isDigit = true ∧ (c = '0' → n = 0) := by
  induction n using Nat.strongRecOn with
  | _ n ih =>
    by_cases hsmall : n < 10
    · have hdigits := Nat.toDigits_of_lt_base hsmall
      refine ⟨n.digitChar, [], hdigits, ?_, ?_⟩
      · exact isDigit_of_mem (n := n) (by rw [hdigits]; exact List.mem_cons_self)
      · have hzero : ∀ m < 10, m.digitChar = '0' → m = 0 := by decide
        exact hzero n hsmall
    · obtain ⟨c, cs, hdigits, hc, hzero⟩ := ih (n / 10) (by omega)
      refine ⟨c, cs ++ [(n % 10).digitChar], ?_, hc, fun h => ?_⟩
      · rw [Nat.toDigits_of_base_le (by decide) (Nat.le_of_not_lt hsmall), hdigits]
        rfl
      · have := hzero h
        omega

/-- **The digits of a number are read back within a bound.** -/
theorem readBounded?_toDigits {bound n : Nat} (h : n ≤ bound) :
    readBounded? bound (Nat.toDigits 10 n) = some n := by
  obtain ⟨c, cs, hdigits, hc, -⟩ := head_toDigits n
  have hread := readDigits?_toDigits n
  rw [hdigits] at hread ⊢
  unfold readBounded?
  split
  · next rest heq =>
    -- a digit is no sign
    obtain ⟨rfl, -⟩ := List.cons.inj heq
    cases hc
  · simp only [hread, if_pos h]

/-- A number that was read is within the bound. -/
theorem le_of_readBounded? {bound n : Nat} {cs : List Char} (h : readBounded? bound cs = some n) :
    n ≤ bound := by
  unfold readBounded? at h
  dsimp only at h
  split at h
  · split at h
    · next hle => rwa [← Option.some.inj h]
    · cases h
  · cases h

end Mgol.Text
