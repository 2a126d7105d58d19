import Mgol.Proofs.Target.Tokens
import Mgol.Proofs.Text.Split
import Mgol.Target.Buffer

/-! # Generated programs, read as C

A generated program is read as C from its text alone: what stands in front of its body, and then
line by line the tokens of a declaration, of a statement, of the head of a block or of a brace.
Types and conversions are read by the names that C has for them.

* **`Target.Statement.ofTokens?`, `Target.LineBody.ofChars?`, `Target.Line.ofChars?`** — what stands
  on a line, and how deep.
* **`Target.programLines?`** — the lines of a whole program.
* **`Target.LineBody.Legible`** — lines that are read as what they were written for.
* **`Target.CodeBuffer.programLines?_program`** — a program of legible lines is read back, behind
  the declarations of its temporaries. -/

namespace Mgol.Target

/-! ## Reading tokens -/

/-- The types by their names in C. -/
def typeNames : List (String × DataType) :=
  [("int", .integer), ("double", .real), ("literal", .literal)]

/-- The types by the formats that read and write a value of them. -/
def formats : List (String × DataType) :=
  [("\"%d\"", .integer), ("\"%lf\"", .real), ("\"%s\"", .literal)]

/-- The arithmetic operators of C. -/
def arithmeticOperators : List String := ["+", "-", "*", "/"]

/-- The operators of C that compare. -/
def relationalOperators : List String := ["<", "<=", "!=", ">", ">=", "=="]

/-- A token that is an operand. -/
def CToken.operand? : CToken → Option String
  | word x | number x => some x
  | _ => none

/-- The names of a declaration, with commas between them. -/
def names? : List CToken → Option (List String)
  | [.word x, .semicolon] => some [x]
  | .word x :: .comma :: rest => (names? rest).map (x :: ·)
  | _ => none

/-- A call of a function of the library with two arguments. A text is read into a variable by its
name, since that is the address of a buffer. -/
def Statement.ofCall? (function : String) : CToken → CToken → Option Statement
  | .literal format, .literal text =>
    if function = "printf" ∧ formats.lookup format = some .literal then some (.writeText text)
    else none
  | .literal format, argument =>
    (formats.lookup format).bind fun type => argument.operand?.bind fun x =>
      if function = "printf" then some (.write type x)
      else if function = "scanf" ∧ type = .literal then some (.read type x)
      else none
  | .word target, value =>
    if function = "strcpy" then value.operand?.map (.copy target) else none
  | _, _ => none

/-- A call that reads into the address of a variable, which is no text. -/
def Statement.ofRead? (function format x : String) : Option Statement :=
  (formats.lookup format).bind fun type =>
    if function = "scanf" ∧ type ≠ .literal then some (.read type x) else none

/-- **The statement of a line.** -/
def Statement.ofTokens? : List CToken → Option Statement
  | [.word x, .equals, value, .semicolon] => value.operand?.map (.assign x)
  | [.word x, .equals, left, .operator operator, right, .semicolon] =>
    left.operand?.bind fun l => right.operand?.bind fun r =>
      if operator ∈ arithmeticOperators ++ relationalOperators then some (.compute x l operator r)
      else none
  | [.word function, .openParen, first, .comma, second, .closeParen, .semicolon] =>
    ofCall? function first second
  | [.word function, .openParen, .literal format, .comma, .ampersand, .word x, .closeParen,
      .semicolon] => ofRead? function format x
  | .word type :: names =>
    (typeNames.lookup type).bind fun type => (names? names).map (.declare type)
  | _ => none

/-- **What stands on a line.** The heads of blocks test a variable. -/
def LineBody.ofTokens? : List CToken → Option LineBody
  | [.closeBrace] => some .closing
  | [.word word, .openParen, .word condition, .closeParen, .openBrace] =>
    if word = "if" then some (.opening (.ifHolds condition))
    else if word = "while" then some (.opening (.whileHolds condition))
    else none
  | ts => (Statement.ofTokens? ts).map .statement

/-! ## Reading text -/

/-- **What stands on a line**, read from its characters. -/
def LineBody.ofChars? (cs : List Char) : Option LineBody := (tokens? .gap cs).bind ofTokens?

/-- **A line of a body**: a tab, one more for each block around it, and what stands behind them. -/
def Line.ofChars? (cs : List Char) : Option Line :=
  match cs.takeWhile (· = '\t') with
  | [] => none
  | _ :: tabs => (LineBody.ofChars? (cs.dropWhile (· = '\t'))).map (⟨tabs.length, ·⟩)

/-- The lines of a body up to the brace that ends the program. An empty line is none of them. -/
def bodyLines? : List (List Char) → Option (List Line)
  | [] => none
  | line :: rest =>
    if line = ['\x7d'] ∧ rest = [[]] then some []
    else if line = [] then bodyLines? rest
    else (Line.ofChars? line).bind fun l => (bodyLines? rest).map (l :: ·)

/-- The lines that a program begins with. -/
def openingLines : List (List Char) :=
  ["#include<stdio.h>".toList, "#include<string.h>".toList, "typedef char literal[256];".toList,
   "void main(void) \x7b".toList]

/-- **The lines of the body of a program**, read from its text. -/
def programLines? (text : String) : Option (List Line) :=
  let lines := Text.splitOn '\n' text.toList
  if openingLines <+: lines then bodyLines? (lines.drop openingLines.length) else none

/-! ## Legible lines -/

/-- **A line that is legible**: it is read as what it was written for. -/
def LineBody.Legible (b : LineBody) : Prop := LineBody.ofChars? b.text.toList = some b

/-- An operand that is legible: a name or a number. -/
def LegibleOperand (x : String) : Prop := IsWord x.toList ∨ IsNumber x.toList

variable {rest : List Char} {x target left operator right value : String} {type : DataType}

/-- A character that cannot belong to what stands in front of it. -/
theorem apart_cons {c : Char} (h : c ∈ [' ', ',', ';', '(', ')']) : Apart (c :: rest) := by
  rintro d ⟨⟩
  exact h

/-- **An operand is read back.** -/
theorem tokens?_operand (h : LegibleOperand x) (hrest : Apart rest) :
    ∃ t : CToken, t.operand? = some x ∧
      tokens? .gap (x.toList ++ rest) = (tokens? .gap rest).map (t :: ·) := by
  rcases h with hword | hnumber
  · exact ⟨.word x, rfl, tokens?_word hword hrest⟩
  · exact ⟨.number x, rfl, tokens?_number hnumber hrest⟩

/-- The names of a declaration are read back. -/
theorem names?_intercalate {names : List String} (hne : names ≠ [])
    (h : ∀ x ∈ names, IsWord x.toList) :
    (tokens? .gap ((", ".intercalate names).toList ++ [';'])).bind names? = some names := by
  induction names with
  | nil => exact absurd rfl hne
  | cons x names ih =>
    obtain ⟨hx, hnames⟩ := List.forall_mem_cons.mp h
    cases names with
    | nil =>
      rw [String.intercalate_singleton, tokens?_word hx (apart_cons (by decide))]
      rfl
    | cons y names =>
      obtain ⟨ts, htokens, hts⟩ := Option.bind_eq_some_iff.mp (ih (List.cons_ne_nil _ _) hnames)
      have htext : (", ".intercalate (x :: y :: names)).toList ++ [';'] =
          x.toList ++ ',' :: ' ' :: ((", ".intercalate (y :: names)).toList ++ [';']) := by
        simp [String.intercalate_cons_cons]
      rw [htext, tokens?_word hx (apart_cons (by decide)), tokens?_comma, tokens?_blank, htokens]
      simp [names?, hts]

/-- Tokens that are read as a statement make its line legible. -/
theorem legible_of_tokens {s : Statement} (ts : List CToken)
    (htokens : tokens? .gap s.text.toList = some ts)
    (hts : LineBody.ofTokens? ts = some (.statement s)) : LineBody.Legible (.statement s) := by
  rw [LineBody.Legible, LineBody.ofChars?]
  show (tokens? .gap s.text.toList).bind _ = _
  rw [htokens, Option.bind_some, hts]

/-- A name with names behind it begins a declaration. -/
theorem ofTokens?_declare {ts : List CToken} {names : List String} (hts : names? ts = some names)
    (word : String) :
    LineBody.ofTokens? (.word word :: ts) =
      (typeNames.lookup word).map fun type => .statement (.declare type names) := by
  have hdeclare : ∀ x more, names? (.word x :: more) = some names →
      (Statement.ofTokens? (.word word :: .word x :: more)).map LineBody.statement =
        (typeNames.lookup word).map fun type => .statement (.declare type names) := by
    intro x more h
    rw [Statement.ofTokens?, h]
    · cases typeNames.lookup word <;> rfl
    all_goals simp
  match ts with
  | .word x :: more => exact hdeclare x more hts
  | [] | .number _ :: _ | .literal _ :: _ | .operator _ :: _ | .equals :: _ | .ampersand :: _
  | .comma :: _ | .semicolon :: _ | .openParen :: _ | .closeParen :: _ | .openBrace :: _
  | .closeBrace :: _ => simp [names?] at hts

/-- **A declaration is legible.** -/
theorem legible_declare {names : List String} (htype : type ≠ .untyped) (hne : names ≠ [])
    (h : ∀ x ∈ names, IsWord x.toList) :
    LineBody.Legible (.statement (.declare type names)) := by
  obtain ⟨ts, htokens, hts⟩ := Option.bind_eq_some_iff.mp (names?_intercalate hne h)
  -- every type has a name, which is read as that type
  obtain ⟨word, hname, hword, hlookup⟩ : ∃ word, type.cType? = some word ∧ IsWord word.toList ∧
      typeNames.lookup word = some type := by
    cases type with
    | integer => exact ⟨"int", rfl, by decide, rfl⟩
    | real => exact ⟨"double", rfl, by decide, by decide⟩
    | literal => exact ⟨"literal", rfl, by decide, by decide⟩
    | untyped => exact absurd rfl htype
  have htext : (Statement.declare type names).text.toList =
      word.toList ++ ' ' :: ((", ".intercalate names).toList ++ [';']) := by
    simp [Statement.text, hname]
  refine legible_of_tokens (.word word :: ts) ?_ ?_
  · rw [htext, tokens?_word hword (apart_cons (by decide)), tokens?_blank, htokens]
    rfl
  · rw [ofTokens?_declare hts, hlookup]
    rfl

/-- Every type has a conversion, whose format is read as that type. -/
theorem exists_conversion (h : type ≠ .untyped) :
    ∃ conversion : String, type.conversion? = some conversion ∧
      '"' :: conversion.toList ++ ['"'] = quoteBody conversion.toList ∧
      formats.lookup (String.ofList (quoteBody conversion.toList)) = some type := by
  cases type with
  | integer => exact ⟨"%d", rfl, by decide, by decide⟩
  | real => exact ⟨"%lf", rfl, by decide, by decide⟩
  | literal => exact ⟨"%s", rfl, by decide, by decide⟩
  | untyped => exact absurd rfl h

/-- A call with a format is read up to its second argument. -/
theorem tokens?_format {function conversion : String} (hfunction : IsWord function.toList)
    (hconversion : '"' :: conversion.toList ++ ['"'] = quoteBody conversion.toList) :
    tokens? .gap ((function ++ "(\"" ++ conversion ++ "\", ").toList ++ rest) =
      (tokens? .gap rest).map ([.word function, .openParen,
        .literal (String.ofList (quoteBody conversion.toList)), .comma] ++ ·) := by
  have htext : (function ++ "(\"" ++ conversion ++ "\", ").toList ++ rest =
      function.toList ++ '(' :: (quoteBody conversion.toList ++ ',' :: ' ' :: rest) := by
    rw [← hconversion]
    simp
  rw [htext, tokens?_word hfunction (apart_cons (by decide)), tokens?_openParen,
    tokens?_quoteBody, tokens?_comma, tokens?_blank]
  simp [Function.comp_def]

/-- **A line that reads a variable is legible.** -/
theorem legible_read (htype : type ≠ .untyped) (hx : IsWord x.toList) :
    LineBody.Legible (.statement (.read type x)) := by
  obtain ⟨conversion, hname, hquoted, hformat⟩ := exists_conversion htype
  have hword : tokens? .gap (x.toList ++ [')', ';']) = some [.word x, .closeParen, .semicolon] := by
    rw [tokens?_word hx (apart_cons (by decide))]
    rfl
  by_cases hliteral : type = .literal
  · obtain rfl := hliteral
    have htext : (Statement.read .literal x).text.toList =
        ("scanf" ++ "(\"" ++ conversion ++ "\", ").toList ++ (x.toList ++ [')', ';']) := by
      simp [Statement.text, hname]
    refine legible_of_tokens _
      (by rw [htext, tokens?_format (by decide) hquoted, hword, Option.map_some]) ?_
    simp [LineBody.ofTokens?, Statement.ofTokens?, Statement.ofCall?, hformat, CToken.operand?]
  · -- a number is read into the address of its variable
    have htext : (Statement.read type x).text.toList =
        ("scanf" ++ "(\"" ++ conversion ++ "\", ").toList ++
          (['&'] ++ (x.toList ++ [')', ';'])) := by
      simp [Statement.text, hname, hliteral]
    have hletter : ∀ c ∈ (x.toList ++ [')', ';']).head?, c ∉ operatorChars := by
      intro c hc hoperator
      have hnone : operatorChars.any Char.isAlpha = false := by decide
      cases hchars : x.toList with
      | nil =>
        rw [hchars] at hx
        cases hx
      | cons d cs =>
        rw [hchars] at hx hc
        obtain rfl := Option.some.inj hc
        exact absurd hx.1 (List.any_eq_false.mp hnone d hoperator)
    refine legible_of_tokens _
      (by rw [htext, tokens?_format (by decide) hquoted,
        tokens?_operator (t := .ampersand) (by decide) hletter, hword, Option.map_some,
        Option.map_some]) ?_
    simp [LineBody.ofTokens?, Statement.ofTokens?, Statement.ofRead?, hformat, hliteral]

/-- **A line that writes a value is legible.** -/
theorem legible_write (htype : type ≠ .untyped) (hv : LegibleOperand value) :
    LineBody.Legible (.statement (.write type value)) := by
  obtain ⟨conversion, hname, hquoted, hformat⟩ := exists_conversion htype
  obtain ⟨v, hoperand, htokens⟩ :=
    tokens?_operand hv (show Apart [')', ';'] from apart_cons (by decide))
  have htext : (Statement.write type value).text.toList =
      ("printf" ++ "(\"" ++ conversion ++ "\", ").toList ++ (value.toList ++ [')', ';']) := by
    simp [Statement.text, hname]
  refine legible_of_tokens _
    (by rw [htext, tokens?_format (by decide) hquoted, htokens]; rfl) ?_
  cases v with
  | word y | number y =>
    obtain rfl := Option.some.inj hoperand
    simp [LineBody.ofTokens?, Statement.ofTokens?, Statement.ofCall?, hformat, CToken.operand?]
  | _ => cases hoperand

/-- **A line that writes a text is legible.** -/
theorem legible_writeText (body : List Char) :
    LineBody.Legible (.statement (.writeText (cLiteral (quoted body)))) := by
  obtain ⟨conversion, hname, hquoted, hformat⟩ :=
    exists_conversion (show DataType.literal ≠ .untyped by decide)
  have htext : (Statement.writeText (cLiteral (quoted body))).text.toList =
      ("printf" ++ "(\"" ++ "%s" ++ "\", ").toList ++ (quoteBody body ++ [')', ';']) := by
    simp [Statement.text, toList_cLiteral_quoted]
  have hliteral : String.ofList (quoteBody body) = cLiteral (quoted body) := by
    rw [← toList_cLiteral_quoted, String.ofList_toList]
  obtain rfl := Option.some.inj hname
  refine legible_of_tokens _
    (by rw [htext, tokens?_format (by decide) hquoted, tokens?_quoteBody, hliteral]; rfl) ?_
  have hcall : Statement.ofCall? "printf" (.literal (String.ofList (quoteBody "%s".toList)))
      (.literal (cLiteral (quoted body))) = some (.writeText (cLiteral (quoted body))) := by
    simp only [Statement.ofCall?]
    exact if_pos ⟨trivial, hformat⟩
  exact congrArg (Option.map LineBody.statement) hcall

/-- **A line that copies a text is legible.** -/
theorem legible_copy (ht : IsWord target.toList) (hv : LegibleOperand value) :
    LineBody.Legible (.statement (.copy target value)) := by
  obtain ⟨v, hoperand, htokens⟩ :=
    tokens?_operand hv (show Apart [')', ';'] from apart_cons (by decide))
  have htext : (Statement.copy target value).text.toList =
      "strcpy".toList ++ '(' :: (target.toList ++ ',' :: ' ' :: (value.toList ++ [')', ';'])) := by
    simp [Statement.text]
  refine legible_of_tokens
    [.word "strcpy", .openParen, .word target, .comma, v, .closeParen, .semicolon] ?_ ?_
  · rw [htext, tokens?_word (by decide) (apart_cons (by decide)), tokens?_openParen,
      tokens?_word ht (apart_cons (by decide)), tokens?_comma, tokens?_blank, htokens]
    rfl
  · simp [LineBody.ofTokens?, Statement.ofTokens?, Statement.ofCall?, hoperand]

/-- **A computation is legible.** -/
theorem legible_compute (ht : IsWord target.toList) (hl : LegibleOperand left)
    (hr : LegibleOperand right)
    (hoperator : operator ∈ arithmeticOperators ++ relationalOperators) :
    LineBody.Legible (.statement (.compute target left operator right)) := by
  have hops : ∀ op ∈ arithmeticOperators ++ relationalOperators,
      (op.toList, CToken.operator op) ∈ CToken.operators := by decide
  have hop := hops operator hoperator
  obtain ⟨r, hright, hrest⟩ :=
    tokens?_operand hr (show Apart [';'] from apart_cons (by decide))
  obtain ⟨l, hleft, htokens⟩ := tokens?_operand hl
    (show Apart (' ' :: (operator.toList ++ ' ' :: (right.toList ++ [';']))) from
      apart_cons (by decide))
  have htext : (Statement.compute target left operator right).text.toList =
      target.toList ++ ' ' :: (['='] ++ ' ' :: (left.toList ++ ' ' :: (operator.toList ++
        ' ' :: (right.toList ++ [';'])))) := by
    simp [Statement.text]
  refine legible_of_tokens
    [.word target, .equals, l, .operator operator, r, .semicolon] ?_ ?_
  · rw [htext, tokens?_word ht (apart_cons (by decide)), tokens?_blank,
      tokens?_operator (t := .equals) (by decide) (by simp [operatorChars]), tokens?_blank, htokens,
      tokens?_blank, tokens?_operator hop (by simp [operatorChars]), tokens?_blank, hrest]
    rfl
  · simp [LineBody.ofTokens?, Statement.ofTokens?, hleft, hright, List.mem_append.mp hoperator]

/-- **An assignment is legible.** -/
theorem legible_assign (ht : IsWord target.toList) (hv : LegibleOperand value) :
    LineBody.Legible (.statement (.assign target value)) := by
  obtain ⟨v, hoperand, htokens⟩ :=
    tokens?_operand hv (show Apart [';'] from apart_cons (by decide))
  have htext : (Statement.assign target value).text.toList =
      target.toList ++ ' ' :: (['='] ++ ' ' :: (value.toList ++ [';'])) := by
    simp [Statement.text]
  refine legible_of_tokens [.word target, .equals, v, .semicolon] ?_ ?_
  · rw [htext, tokens?_word ht (apart_cons (by decide)), tokens?_blank,
      tokens?_operator (t := .equals) (by decide) (by simp [operatorChars]), tokens?_blank, htokens]
    rfl
  · simp [LineBody.ofTokens?, Statement.ofTokens?, hoperand]

/-- **The head of a block is legible.** -/
theorem legible_opening (hx : IsWord x.toList) {h : Header}
    (hheader : h = .ifHolds x ∨ h = .whileHolds x) : LineBody.Legible (.opening h) := by
  have hhead : ∀ word : String, IsWord word.toList →
      tokens? .gap (word.toList ++ ' ' :: '(' :: (x.toList ++ [')', ' ', '\x7b'])) =
        some [.word word, .openParen, .word x, .closeParen, .openBrace] := by
    intro word hword
    rw [tokens?_word hword (apart_cons (by decide)), tokens?_blank, tokens?_openParen,
      tokens?_word hx (apart_cons (by decide))]
    rfl
  have htext : ∀ word : String, (word ++ " (" ++ x ++ ")" ++ " \x7b").toList =
      word.toList ++ ' ' :: '(' :: (x.toList ++ [')', ' ', '\x7b']) := by simp
  rcases hheader with rfl | rfl
  · have hif := hhead "if" (by decide)
    rw [← htext] at hif
    exact (congrArg (Option.bind · LineBody.ofTokens?) hif).trans rfl
  · have hwhile := hhead "while" (by decide)
    rw [← htext] at hwhile
    exact (congrArg (Option.bind · LineBody.ofTokens?) hwhile).trans rfl

/-- A brace is legible. -/
theorem legible_closing : LineBody.Legible .closing := by
  rw [LineBody.Legible]
  decide

/-- A temporary is a name. -/
theorem isWord_temporaryName (k : Nat) : IsWord (temporaryName k).toList := by
  have hdigit : ∀ c ∈ Nat.toDigits 10 k, isWordChar c = true := by
    intro c hc
    have hc := Nat.isDigit_of_mem_toDigits (by decide) (by decide) hc
    simp [isWordChar, Char.isAlphanum, hc]
  have hname : (temporaryName k).toList = 'T' :: Nat.toDigits 10 k := by
    rw [temporaryName, String.toList_append, Nat.toString_eq_ofList_toDigits,
      String.toList_ofList (l := Nat.toDigits 10 k)]
    rfl
  rw [hname]
  exact ⟨rfl, hdigit⟩

/-! ## Legible programs -/

/-- The characters of a line, without its end. -/
def Line.row (l : Line) : List Char := List.replicate (l.depth + 1) '\t' ++ l.body.text.toList

/-- A line is its row, and then it ends. -/
theorem Line.toList_text (l : Line) : l.text.toList = l.row ++ ['\n'] := by
  simp [Line.text, Line.row]

/-- What is legible stays on its line, and has no tab. -/
theorem LineBody.Legible.notMem {b : LineBody} (h : b.Legible) {a : Char}
    (ha : a = '\n' ∨ a = '\t') : a ∉ b.text.toList := by
  obtain ⟨ts, hts, -⟩ := Option.bind_eq_some_iff.mp h
  exact notMem_of_tokens? hts ha

/-- **A legible line is read back**, with its depth. -/
theorem Line.ofChars?_row {l : Line} (h : l.body.Legible) : Line.ofChars? l.row = some l := by
  have htabs : ∀ c ∈ List.replicate (l.depth + 1) '\t', decide (c = '\t') = true := fun c hc =>
    decide_eq_true (List.eq_of_mem_replicate hc)
  have hbody : ∀ c ∈ l.body.text.toList.head?, c ≠ '\t' := by
    rintro c hc rfl
    exact h.notMem (.inr rfl) (List.mem_of_head? hc)
  have htake : l.row.takeWhile (· = '\t') = List.replicate (l.depth + 1) '\t' := by
    rw [Line.row, List.takeWhile_append_of_pos htabs]
    cases hchars : l.body.text.toList with
    | nil => exact List.append_nil _
    | cons c cs =>
      rw [hchars] at hbody
      simp [hbody c rfl]
  have hdrop : l.row.dropWhile (· = '\t') = l.body.text.toList := by
    rw [Line.row, List.dropWhile_append_of_pos htabs]
    cases hchars : l.body.text.toList with
    | nil => rfl
    | cons c cs =>
      rw [hchars] at hbody
      simp [hbody c rfl]
  rw [Line.ofChars?, htake, hdrop, List.replicate_succ]
  simp only [List.length_replicate]
  rw [show LineBody.ofChars? l.body.text.toList = some l.body from h]
  rfl

/-- Legible lines are read back, one after the other. -/
theorem bodyLines?_append {ls : List Line} (h : ∀ l ∈ ls, l.body.Legible)
    (rest : List (List Char)) :
    bodyLines? (ls.map Line.row ++ rest) = (bodyLines? rest).map (ls ++ ·) := by
  induction ls with
  | nil => exact Option.map_id'.symm
  | cons l ls ih =>
    obtain ⟨hl, hls⟩ := List.forall_mem_cons.mp h
    have hrow : l.row ≠ ['\x7d'] ∧ l.row ≠ [] := by simp [Line.row, List.replicate_succ]
    rw [List.map_cons, List.cons_append, bodyLines?, if_neg fun heq => hrow.1 heq.1,
      if_neg hrow.2, Line.ofChars?_row hl, Option.bind_some, ih hls, Option.map_map]
    rfl

namespace CodeBuffer

/-- The declarations of temporaries, numbered from `k`. -/
def declarationStatements : Nat → List TemporaryKind → List Statement
  | _, [] => []
  | k, kind :: rest =>
    .declare kind.dataType [temporaryName k] :: declarationStatements (k + 1) rest

/-- The lines of these declarations. -/
def declarationLines (k : Nat) (kinds : List TemporaryKind) : List Line :=
  (declarationStatements k kinds).map fun s => ⟨0, .statement s⟩

/-- **All lines of the body of a program**: the declarations of its temporaries, and its own. -/
def allLines (code : CodeBuffer) : List Line :=
  declarationLines 0 code.temporaries.toList ++ code.lines.toList

/-- Every declaration of a temporary has its name and the type of its kind. -/
theorem mem_declarationStatements {k : Nat} {kinds : List TemporaryKind} {s : Statement} :
    s ∈ declarationStatements k kinds ↔
      ∃ i kind, kinds[i]? = some kind ∧ s = .declare kind.dataType [temporaryName (k + i)] := by
  induction kinds generalizing k with
  | nil => simp [declarationStatements]
  | cons kind kinds ih =>
    rw [declarationStatements, List.mem_cons, ih]
    constructor
    · rintro (rfl | ⟨i, other, hi, rfl⟩)
      · exact ⟨0, kind, rfl, rfl⟩
      · exact ⟨i + 1, other, hi, by rw [Nat.add_assoc, Nat.add_comm 1 i]⟩
    · rintro ⟨i, other, hi, rfl⟩
      cases i with
      | zero =>
        obtain rfl := Option.some.inj hi
        exact .inl rfl
      | succ i => exact .inr ⟨i, other, hi, by rw [Nat.add_assoc, Nat.add_comm 1 i]⟩

/-- The lines of code, wherever they stand. -/
def bodies (code : CodeBuffer) : List LineBody := code.lines.toList.map Line.body

/-- The declarations of the temporaries of code. -/
def declarationBodies (code : CodeBuffer) : List LineBody :=
  (declarationStatements 0 code.temporaries.toList).map .statement

/-- The lines of a program, wherever they stand. -/
theorem map_body_allLines (code : CodeBuffer) :
    code.allLines.map Line.body = code.declarationBodies ++ code.bodies := by
  rw [allLines, List.map_append, declarationLines, List.map_map]
  rfl

/-- Every line in front of the body declares one temporary. -/
theorem mem_declarationBodies {code : CodeBuffer} {line : LineBody} :
    line ∈ code.declarationBodies ↔ ∃ k kind, code.temporaries[k]? = some kind ∧
      line = .statement (.declare kind.dataType [temporaryName k]) := by
  simp only [declarationBodies, List.mem_map, mem_declarationStatements, Array.getElem?_toList,
    Nat.zero_add]
  constructor
  · rintro ⟨_, ⟨k, kind, hkind, rfl⟩, rfl⟩
    exact ⟨k, kind, hkind, rfl⟩
  · rintro ⟨k, kind, hkind, rfl⟩
    exact ⟨_, ⟨k, kind, hkind, rfl⟩, rfl⟩

/-- A declaration of a temporary is written like any other line. -/
theorem declarations_eq (k : Nat) (kinds : List TemporaryKind) :
    declarations k kinds = (declarationLines k kinds).map Line.text := by
  induction kinds generalizing k with
  | nil => rfl
  | cons kind kinds ih =>
    have hline : Line.text ⟨0, .statement (.declare kind.dataType [temporaryName k])⟩ =
        "\t" ++ kind.cType ++ " " ++ temporaryName k ++ ";\n" := by
      cases kind <;> simp [← String.toList_inj, Line.text, LineBody.text, Statement.text,
        TemporaryKind.cType, TemporaryKind.dataType, DataType.cType?]
    rw [declarations, ih, ← hline]
    rfl

/-- The declarations of temporaries are legible. -/
theorem legible_declarationLines {k : Nat} {kinds : List TemporaryKind} :
    ∀ l ∈ declarationLines k kinds, l.body.Legible := by
  refine List.forall_mem_map.mpr fun s hs => ?_
  obtain ⟨i, kind, -, rfl⟩ := mem_declarationStatements.mp hs
  refine legible_declare ?_ (List.cons_ne_nil _ _) fun x hx => ?_
  · cases kind <;> decide
  · rw [List.mem_singleton.mp hx]
    exact isWord_temporaryName (k + i)

/-- The text of lines is that of their rows. -/
theorem toList_linesText (lines : Array Line) :
    (linesText lines).toList = (lines.toList.map Line.row).flatMap (· ++ ['\n']) := by
  have hgo : ∀ (ls : List Line) (text : String),
      (ls.foldl (fun text l => text ++ l.text) text).toList =
        text.toList ++ (ls.map Line.row).flatMap (· ++ ['\n']) := by
    intro ls
    induction ls with
    | nil => simp
    | cons l ls ih => simp [ih, Line.toList_text]
  rw [linesText, ← Array.foldl_toList, hgo]
  rfl

variable {code : CodeBuffer}

/-- **The rows of a program.** -/
def rows (code : CodeBuffer) : List (List Char) :=
  (declarationLines 0 code.temporaries.toList).map Line.row ++
    ((if code.temporaries.isEmpty then [] else [[]]) ++ (code.lines.toList.map Line.row ++
      [['\x7d']]))

/-- The text of a program is that of its rows, behind the opening lines. -/
theorem toList_program (code : CodeBuffer) :
    code.program.toList = (openingLines ++ code.rows).flatMap (· ++ ['\n']) := by
  have hpreamble : preamble.toList = openingLines.flatMap (· ++ ['\n']) := by decide
  have hdeclarations : (String.join (declarations 0 code.temporaries.toList)).toList =
      ((declarationLines 0 code.temporaries.toList).map Line.row).flatMap (· ++ ['\n']) := by
    rw [declarations_eq, String.toList_join, List.flatMap_map, List.flatMap_map]
    exact congrArg (List.flatMap · _) (funext Line.toList_text)
  have hblank : (if code.temporaries.isEmpty then "" else "\n").toList =
      (if code.temporaries.isEmpty then [] else [[]]).flatMap (· ++ ['\n']) := by
    split <;> rfl
  simp only [program, rows, text, String.toList_append, List.flatMap_append, hpreamble,
    hdeclarations, hblank, toList_linesText, List.append_assoc]
  rfl

/-- The rows of legible lines end where they should. -/
theorem notMem_rows (h : ∀ l ∈ code.lines.toList, l.body.Legible) {r : List Char}
    (hr : r ∈ openingLines ++ code.rows) : '\n' ∉ r := by
  have hrow : ∀ ls : List Line, (∀ l ∈ ls, l.body.Legible) → ∀ r ∈ ls.map Line.row, '\n' ∉ r := by
    intro ls hls r hr hmem
    obtain ⟨l, hl, rfl⟩ := List.mem_map.mp hr
    rcases List.mem_append.mp hmem with htab | hbody
    · cases List.eq_of_mem_replicate htab
    · exact (hls l hl).notMem (.inl rfl) hbody
  have hopening : ∀ r ∈ openingLines, '\n' ∉ r := by decide
  -- the opening lines, the temporaries, the blank line, the body and the last brace
  simp only [rows, List.mem_append] at hr
  rcases hr with hr | hr | hr | hr | hr
  · exact hopening r hr
  · exact hrow _ legible_declarationLines r hr
  · split at hr
    · cases hr
    · rw [List.mem_singleton.mp hr]
      exact List.not_mem_nil
  · exact hrow _ h r hr
  · rw [List.mem_singleton.mp hr]
    decide

/-- The rows of legible lines are read back, up to the brace that ends the program. -/
theorem bodyLines?_rows (h : ∀ l ∈ code.lines.toList, l.body.Legible) :
    bodyLines? (code.rows ++ [[]]) = some code.allLines := by
  have hblank : ∀ rest, bodyLines? ((if code.temporaries.isEmpty then [] else [[]]) ++ rest) =
      bodyLines? rest := by
    intro rest
    split
    · rfl
    · rw [List.singleton_append, bodyLines?, if_neg (by simp), if_pos rfl]
  simp only [rows, List.append_assoc]
  rw [bodyLines?_append legible_declarationLines, hblank, bodyLines?_append h,
    List.singleton_append, bodyLines?, if_pos ⟨rfl, rfl⟩, Option.map_some, Option.map_some,
    List.append_nil, allLines]

/-- **A program of legible lines is read back.** -/
theorem programLines?_program (h : ∀ l ∈ code.lines.toList, l.body.Legible) :
    programLines? code.program = some code.allLines := by
  rw [programLines?, toList_program, Text.splitOn_ended fun r hr => notMem_rows h hr]
  simp only [List.append_assoc]
  rw [if_pos (List.prefix_append _ _), List.drop_left, bodyLines?_rows h]

end CodeBuffer

end Mgol.Target
