import Mgol.Proofs.Scanner.Spelling
import Mgol.Target.Literal
import Mgol.Target.Statement

/-! # String literals on a line of C

A line of C is read from left to right: a quote begins a string literal, a backslash takes the next
character along, and the first quote without a backslash ends the literal. So where a literal ends
depends on every character of its text, and on the order of backslashes and quotes in it.

* **`Target.Glimpse`, `Target.glimpse?`** — what is code on a line, and what the texts in it are.
* **`Target.glimpse?_quoteBody`** — a text that was escaped is read back, and nothing more.
* **`Target.glimpse?_writeText`** — the line that writes a text. -/

namespace Mgol

/-- A text in the quotes of a literal constant. -/
def quoted (body : List Char) : String := String.ofList ('"' :: body ++ ['"'])

namespace Target

/-! ## Reading a line -/

/-- **What is seen of a line**: its code, in which every literal is empty, and the texts of the
literals. -/
structure Glimpse where
  code : List Char
  texts : List (List Char)
  deriving DecidableEq

/-- Where a reader stands: in the code, in a literal with the text so far, last character first, or
behind a backslash there. -/
inductive Standing where
  | code
  | literal (found : List Char)
  | escape (found : List Char)

/-- The character that is meant by a backslash and a character. -/
def escaped? : Char → Option Char
  | '\\' => some '\\'
  | '"' => some '"'
  | 'n' => some '\n'
  | 't' => some '\t'
  | 'r' => some '\r'
  | _ => none

/-- The characters that end a line or jump on it, and stand in no literal. -/
def unquotable : List Char := ['\n', '\t', '\r']

/-- Code in front of what is seen. -/
def Glimpse.addCode (code : List Char) (g : Glimpse) : Glimpse := { g with code := code ++ g.code }

/-- A text whose literal ends in front of what is seen. -/
def Glimpse.addText (text : List Char) (g : Glimpse) : Glimpse := ⟨'"' :: g.code, text :: g.texts⟩

/-- **Reads a line.** It is refused if a literal does not end, if it goes on over the end of the
line or a tab, or if a backslash in it stands before any character but the five that have a
meaning. -/
def glimpse? : Standing → List Char → Option Glimpse
  | .code, [] => some ⟨[], []⟩
  | .literal _, [] => none
  | .escape _, [] => none
  | .code, c :: cs => (glimpse? (if c = '"' then .literal [] else .code) cs).map (.addCode [c])
  | .literal found, c :: cs =>
    if c = '"' then (glimpse? .code cs).map (.addText found.reverse)
    else if c = '\\' then glimpse? (.escape found) cs
    else if c ∈ unquotable then none
    else glimpse? (.literal (c :: found)) cs
  | .escape found, c :: cs => (escaped? c).bind fun c => glimpse? (.literal (c :: found)) cs

variable {code : List Char}

/-- Code without a quote is code. -/
theorem glimpse?_code (h : '"' ∉ code) (rest : List Char) :
    glimpse? .code (code ++ rest) = (glimpse? .code rest).map (.addCode code) := by
  induction code with
  | nil => exact Option.map_id'.symm
  | cons c code ih =>
    have hc : c ≠ '"' := fun heq => h (by rw [heq]; exact List.mem_cons_self)
    have hcode : '"' ∉ code := fun hmem => h (List.mem_cons_of_mem c hmem)
    rw [List.cons_append, glimpse?, if_neg hc, ih hcode, Option.map_map]
    rfl

/-- An escaped character is read back, whatever stands around it. -/
theorem glimpse?_escapeChar (found : List Char) (c : Char) (rest : List Char) :
    glimpse? (.literal found) (escapeChar c ++ rest) = glimpse? (.literal (c :: found)) rest := by
  unfold escapeChar
  split_ifs with hbackslash hquote hnewline htab hreturn
  · rw [hbackslash]
    rfl
  · rw [hquote]
    rfl
  · rw [hnewline]
    rfl
  · rw [htab]
    rfl
  · rw [hreturn]
    rfl
  · have hlayout : c ∉ unquotable := by simp [unquotable, hnewline, htab, hreturn]
    rw [List.singleton_append, glimpse?, if_neg hquote, if_neg hbackslash, if_neg hlayout]

/-- Escaped characters are read back one after the other. -/
theorem glimpse?_flatMap_escapeChar (found body rest : List Char) :
    glimpse? (.literal found) (body.flatMap escapeChar ++ rest) =
      glimpse? (.literal (body.reverse ++ found)) rest := by
  induction body generalizing found with
  | nil => rfl
  | cons c body ih =>
    rw [List.flatMap_cons, List.append_assoc, glimpse?_escapeChar, ih, List.reverse_cons,
      List.append_assoc]
    rfl

/-- **A text that was escaped is read back**, and what stands behind its literal is code again. -/
theorem glimpse?_quoteBody (body rest : List Char) :
    glimpse? .code (quoteBody body ++ rest) =
      (glimpse? .code rest).map fun g => (g.addText body).addCode ['"'] := by
  have hliteral : glimpse? (.literal []) (body.flatMap escapeChar ++ '"' :: rest) =
      (glimpse? .code rest).map (.addText body) := by
    rw [glimpse?_flatMap_escapeChar, List.append_nil, glimpse?, if_pos rfl, List.reverse_reverse]
  have hquote : quoteBody body ++ rest = '"' :: (body.flatMap escapeChar ++ '"' :: rest) := by
    simp [quoteBody]
  rw [hquote, glimpse?, if_pos rfl, hliteral, Option.map_map]
  rfl

/-! ## Literals of texts in quotes -/

/-- The text between the quotes of a literal constant, even if it begins or ends with a quote. -/
theorem toList_cLiteral_quoted (body : List Char) :
    (cLiteral (quoted body)).toList = quoteBody body := by
  have hbody : literalBody ('"' :: body ++ ['"']) = body := by
    simp [literalBody, dropOpening, dropClosing]
  rw [cLiteral, quoted, String.toList_ofList, String.toList_ofList, hbody]

/-- An escaped character leaves no line. -/
theorem notMem_escapeChar {a : Char} (ha : a ∈ unquotable) (c : Char) : a ∉ escapeChar c := by
  have hplain : ∀ a ∈ unquotable, a ∉ ['\\', '"', 'n', 't', 'r'] := by simp [unquotable]
  have hescape : ∀ escape : List Char, escape ⊆ ['\\', '"', 'n', 't', 'r'] → a ∉ escape :=
    fun escape hsub hmem => hplain a ha (hsub hmem)
  intro hmem
  unfold escapeChar at hmem
  split_ifs at hmem with hbackslash hquote hnewline htab hreturn
  · exact hescape _ (by decide) hmem
  · exact hescape _ (by decide) hmem
  · exact hescape _ (by decide) hmem
  · exact hescape _ (by decide) hmem
  · exact hescape _ (by decide) hmem
  · rw [List.mem_singleton.mp hmem] at ha
    simp [unquotable, hnewline, htab, hreturn] at ha

/-- **A literal stays on its line.** -/
theorem notMem_quoteBody {a : Char} (ha : a ∈ unquotable) (body : List Char) :
    a ∉ quoteBody body := by
  have hquote : a ≠ '"' := by
    rintro rfl
    exact absurd ha (by decide)
  intro hmem
  simp only [quoteBody, List.cons_append, List.mem_cons, List.mem_append, List.mem_flatMap, hquote,
    List.not_mem_nil, or_false, false_or] at hmem
  obtain ⟨c, -, hc⟩ := hmem
  exact notMem_escapeChar ha c hc

/-- **A literal by itself is all there is**: nothing in its text ends it, and nothing is left
over. -/
theorem glimpse?_cLiteral (body : List Char) :
    glimpse? .code (cLiteral (quoted body)).toList = some ⟨['"', '"'], [body]⟩ := by
  have hquote := glimpse?_quoteBody body []
  rw [List.append_nil] at hquote
  rw [toList_cLiteral_quoted, hquote]
  rfl

/-- **Different texts have different literals.** -/
theorem cLiteral_quoted_injective : Function.Injective fun body => cLiteral (quoted body) := by
  intro body body' heq
  have hsame := glimpse?_cLiteral body
  rw [show cLiteral (quoted body) = cLiteral (quoted body') from heq, glimpse?_cLiteral] at hsame
  simpa using hsame.symm

/-! ## Lines that write texts -/

/-- What is seen of a line that writes a text: a call with two literals, the format and the text. -/
def Glimpse.ofWrite (depth : Nat) (body : List Char) : Glimpse where
  code := List.replicate (depth + 1) '\t' ++ "printf(\"\", \"\");\n".toList
  texts := ["%s".toList, body]

/-- **The line that writes a text** is seen as the call that it is meant to be. -/
theorem glimpse?_writeText (depth : Nat) (body : List Char) :
    glimpse? .code
        (Line.text ⟨depth, .statement (.writeText (cLiteral (quoted body)))⟩).toList =
      some (.ofWrite depth body) := by
  have htext : (Line.text ⟨depth, .statement (.writeText (cLiteral (quoted body)))⟩).toList =
      (List.replicate (depth + 1) '\t' ++ "printf(".toList) ++
        (quoteBody "%s".toList ++ (", ".toList ++ (quoteBody body ++ ");\n".toList))) := by
    simp only [Line.text, LineBody.text, Statement.text, String.toList_append,
      toList_cLiteral_quoted, String.toList_ofList]
    simp [quoteBody, escapeChar]
  have hcode : '"' ∉ List.replicate (depth + 1) '\t' ++ "printf(".toList := by
    simp [List.mem_replicate]
  rw [htext, glimpse?_code hcode, glimpse?_quoteBody, glimpse?_code (by decide),
    glimpse?_quoteBody]
  simp [glimpse?, Glimpse.addCode, Glimpse.addText, Glimpse.ofWrite]

end Target

end Mgol
