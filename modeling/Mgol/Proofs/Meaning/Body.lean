import Mgol.Proofs.Meaning.Machine
import Mgol.Proofs.Scanner.Spelling
import Mgol.Target.Buffer
import Mgol.Target.Literal

/-! # What generated programs do

The lines of a generated program are read as C: blocks are put together from their braces, and
statements are executed one after the other.

* **`Target.Body`, `Target.Body.ofLines?`** — the body of a program, read from its lines.
* **`Target.literalText`, `Target.literalText_cLiteral`** — the text that a string literal stands for.
* **`Target.Statement.run`, `Target.Body.run`** — what a body does. -/

namespace Mgol.Target

open Machine

/-- **The body of a program**: a sequence of statements and blocks. -/
inductive Body where
  | done
  | statement (s : Statement) (next : Body)
  | block (h : Header) (body next : Body)

namespace Body

/-- Reads one more line in front of what is read already. The bodies are those of the blocks that
the line stands in, the innermost first; lines of unknown meaning are refused. -/
def readLine (line : LineBody) : List Body → Option (List Body)
  | [] => none
  | next :: outer =>
    match line with
    | .statement (.verbatim _) => none
    | .statement s => some (.statement s next :: outer)
    | .opening (.verbatim _) => none
    | .opening h =>
      match outer with
      | [] => none
      | after :: outer => some (.block h next after :: outer)
    | .closing => some (.done :: next :: outer)

/-- Reads lines from the last to the first. -/
def readLines (lines : List LineBody) (bodies : List Body) : Option (List Body) :=
  lines.foldr (fun line read => read.bind (readLine line)) (some bodies)

/-- **The body that lines are read as**, if their braces match. -/
def ofLines? (lines : List LineBody) : Option Body :=
  match readLines lines [.done] with
  | some [body] => some body
  | _ => none

/-- Lines are read after those behind them. -/
theorem readLines_append (front back : List LineBody) (bodies : List Body) :
    readLines (front ++ back) bodies = (readLines back bodies).bind (readLines front) := by
  unfold readLines
  rw [List.foldr_append]
  generalize back.foldr (fun line read => read.bind (readLine line)) (some bodies) = read
  cases read with
  | none =>
    induction front with
    | nil => rfl
    | cons line front ih =>
      rw [List.foldr_cons, ih]
      rfl
  | some bodies => rfl

/-- A line is read after those behind it. -/
theorem readLines_cons (line : LineBody) (lines : List LineBody) (bodies : List Body) :
    readLines (line :: lines) bodies = (readLines lines bodies).bind (readLine line) := rfl

end Body

/-! ## String literals -/

/-- The text of a string literal behind its first quote. -/
def unescape : List Char → List Char
  | [] => []
  | '\\' :: 'n' :: rest => '\n' :: unescape rest
  | '\\' :: 't' :: rest => '\t' :: unescape rest
  | '\\' :: 'r' :: rest => '\r' :: unescape rest
  | '\\' :: c :: rest => c :: unescape rest
  | c :: rest => if c = '"' then [] else c :: unescape rest

/-- **The text that a string literal stands for.** -/
def literalText (literal : String) : List Char := unescape literal.toList.tail

/-- An escaped character is read back. -/
theorem unescape_escapeChar (c : Char) (rest : List Char) :
    unescape (escapeChar c ++ rest) = c :: unescape rest := by
  unfold escapeChar
  split_ifs with h₁ h₂ h₃ h₄ h₅
  · rw [h₁]
    simp [unescape]
  · rw [h₂]
    simp [unescape]
  · rw [h₃]
    simp [unescape]
  · rw [h₄]
    simp [unescape]
  · rw [h₅]
    simp [unescape]
  · rw [List.singleton_append, unescape, if_neg h₂]
    -- no other equation of the reader applies, since the character is no backslash
    all_goals
      intros
      exact h₁ ‹_›

/-- What was escaped is read back up to the quote behind it. -/
theorem unescape_flatMap_escapeChar (body : List Char) :
    unescape (body.flatMap escapeChar ++ ['"']) = body := by
  induction body with
  | nil => simp [unescape]
  | cons c body ih => rw [List.flatMap_cons, List.append_assoc, unescape_escapeChar, ih]

/-- **The literal that is generated for a text stands for that text.** -/
theorem literalText_cLiteral (body : List Char) :
    literalText (cLiteral (String.ofList ('"' :: body ++ ['"']))) = body := by
  have hbody : literalBody ('"' :: body ++ ['"']) = body := by
    simp [literalBody, dropOpening, dropClosing]
  unfold literalText cLiteral
  rw [String.toList_ofList, String.toList_ofList, hbody]
  exact unescape_flatMap_escapeChar body

/-! ## What bodies do -/

section Run

variable {Value Input : Type} (m : Interpretation Value Input)

/-- The operator of MGol that an operator of C stands for. -/
def operatorOf (operator : String) : String :=
  if operator = "==" then "=" else if operator = "!=" then "<>" else operator

/-- The value of an operand: a variable begins with a letter. -/
def operandValue (w : World Value Input) (operand : String) : Value :=
  if beginsWith Char.isAlpha operand then w.store operand else m.number operand

/-- What a statement does. -/
def Statement.run (w : World Value Input) : Statement → World Value Input
  | declare _ _ => w
  | read type name => w.read m type name
  | write type operand => w.write type (operandValue m w operand)
  | writeText literal => w.write .literal (m.text (literalText literal))
  | assign target value => w.set target (operandValue m w value)
  | copy target value => w.set target (operandValue m w value)
  | compute temporary left operator right =>
    w.set temporary
      (m.apply (operatorOf operator) (operandValue m w left) (operandValue m w right))
  | verbatim _ => w

/-- **What a body does**, with a number of rounds for each loop. -/
def Body.run (n : Nat) : Body → World Value Input → Outcome Value Input
  | done, w => .ended w
  | statement s next, w => next.run n (s.run m w)
  | block (.ifHolds condition) body next, w =>
    if m.holds (operandValue m w condition) then (body.run n w).andThen (next.run n)
    else next.run n w
  | block (.whileHolds condition) body next, w =>
    (rounds (fun w => m.holds (operandValue m w condition)) (body.run n) n w).andThen (next.run n)
  | block (.verbatim _) _ next, w => next.run n w

variable {m}

/-- **More rounds change nothing for a body that has ended.** -/
theorem Body.run_ended_of_le {n n' : Nat} (hle : n ≤ n') {b : Body} {w v : World Value Input}
    (h : b.run m n w = .ended v) : b.run m n' w = .ended v := by
  induction b generalizing w v with
  | done => exact h
  | statement s next ih => exact ih h
  | block header body next ihbody ihnext =>
    cases header with
    | ifHolds condition =>
      rw [Body.run] at h ⊢
      by_cases ht : m.holds (operandValue m w condition) = true
      · rw [if_pos ht, Outcome.andThen_eq_ended_iff] at h ⊢
        obtain ⟨u, hu, hv⟩ := h
        exact ⟨u, ihbody hu, ihnext hv⟩
      · rw [if_neg ht] at h ⊢
        exact ihnext h
    | whileHolds condition =>
      rw [Body.run, Outcome.andThen_eq_ended_iff] at h ⊢
      obtain ⟨u, hu, hv⟩ := h
      exact ⟨u, rounds_ended_of_le (fun _ _ => ihbody) hle hu, ihnext hv⟩
    | verbatim text => exact ihnext h

end Run

end Mgol.Target
