import Mgol.Proofs.Target.Literals

/-! # Tokens of C

A line of C is cut into tokens from left to right, and each token takes as many characters as can
belong to it. So where a token ends depends on what stands behind it.

* **`Target.CToken`** — a name, a constant, a string literal, an operator or a mark.
* **`Target.Partial`, `Target.tokens?`** — a token while it is read, and the tokens of a text.
* **`Target.tokens?_word`, `Target.tokens?_number`, `Target.tokens?_quoteBody`** — names, numbers
  and escaped texts are read back in front of anything that cannot belong to them.
* **`Target.notMem_of_tokens?`** — what is cut into tokens stands on one line, without tabs. -/

namespace Mgol.Target

/-- **A token of C.** The words of the language are not told apart from other names: a text has them
where only they can stand. -/
inductive CToken where
  | word (text : String)
  | number (text : String)
  | literal (text : String)
  | operator (text : String)
  | equals
  | ampersand
  | comma
  | semicolon
  | openParen
  | closeParen
  | openBrace
  | closeBrace
  deriving DecidableEq, Repr

/-! ## Cutting a text -/

/-- Whether a name may go on with a character. -/
def isWordChar (c : Char) : Bool := c.isAlphanum || c = '_'

/-- The characters of operators. -/
def operatorChars : List Char := ['=', '+', '-', '*', '/', '<', '>', '!', '&']

/-- The token that is a single character. -/
def CToken.ofMark? : Char → Option CToken
  | ',' => some .comma
  | ';' => some .semicolon
  | '(' => some .openParen
  | ')' => some .closeParen
  | '\x7b' => some .openBrace
  | '\x7d' => some .closeBrace
  | _ => none

/-- The operators, and the tokens that they are. -/
def CToken.operators : List (List Char × CToken) :=
  [(['='], .equals), (['&'], .ampersand), (['+'], .operator "+"), (['-'], .operator "-"),
   (['*'], .operator "*"), (['/'], .operator "/"), (['<'], .operator "<"), (['>'], .operator ">"),
   (['<', '='], .operator "<="), (['>', '='], .operator ">="), (['=', '='], .operator "=="),
   (['!', '='], .operator "!=")]

/-- **A token while it is read**, with what was found of it, last character first. -/
inductive Partial where
  | gap
  | word (found : List Char)
  | number (found : List Char)
  | literal (found : List Char)
  | escape (found : List Char)
  | operator (found : List Char)
  | whole (t : CToken)
  deriving DecidableEq

namespace Partial

/-- Whether a number may go on with a character: a sign stands behind the mark of an exponent. -/
def continuesNumber (found : List Char) (c : Char) : Bool :=
  isWordChar c || c = '.' || ((c = '+' || c = '-') && found.head?.any fun d => d = 'e' || d = 'E')

/-- The token with one more character, if that can belong to it. -/
def extend? : Partial → Char → Option Partial
  | word found, c => if isWordChar c then some (word (c :: found)) else none
  | number found, c => if continuesNumber found c then some (number (c :: found)) else none
  | literal found, c =>
    if c = '"' then some (whole (.literal (String.ofList (c :: found).reverse)))
    else if c = '\\' then some (escape (c :: found))
    else if c ∈ unquotable then none
    else some (literal (c :: found))
  | escape found, c => if (escaped? c).isSome then some (literal (c :: found)) else none
  | operator found, c => if c ∈ operatorChars then some (operator (c :: found)) else none
  | gap, _ | whole _, _ => none

/-- The tokens that were read when a token goes on no further. A literal has to be closed, and a run
of operator characters that is no operator is refused, not cut in two. -/
def close? : Partial → Option (List CToken)
  | gap => some []
  | word found => some [.word (String.ofList found.reverse)]
  | number found => some [.number (String.ofList found.reverse)]
  | literal _ | escape _ => none
  | operator found => (CToken.operators.lookup found.reverse).map ([·])
  | whole t => some [t]

/-- What begins with a character. -/
def start? (c : Char) : Option Partial :=
  if c = ' ' then some gap
  else if c.isAlpha || c = '_' then some (word [c])
  else if c.isDigit then some (number [c])
  else if c = '"' then some (literal [c])
  else if c ∈ operatorChars then some (operator [c])
  else (CToken.ofMark? c).map whole

end Partial

/-- **The tokens of a text** behind the beginning of a token, each as long as it can be. -/
def tokens? : Partial → List Char → Option (List CToken)
  | p, [] => p.close?
  | p, c :: cs =>
    match p.extend? c with
    | some p => tokens? p cs
    | none =>
      p.close?.bind fun front =>
        ((Partial.start? c).bind fun p => tokens? p cs).map (front ++ ·)

variable {p p' : Partial} {c : Char} {cs rest : List Char}

/-- A token takes a character that can belong to it. -/
theorem tokens?_of_extend (h : p.extend? c = some p') : tokens? p (c :: cs) = tokens? p' cs := by
  rw [tokens?, h]

/-- Where no token is begun, a character begins one. -/
theorem tokens?_gap_cons (c : Char) (cs : List Char) :
    tokens? .gap (c :: cs) = (Partial.start? c).bind fun p => tokens? p cs := by
  rw [tokens?]
  exact Option.map_id'

/-- A token that begins with a character goes on from there. -/
theorem tokens?_of_start (h : Partial.start? c = some p) :
    tokens? .gap (c :: cs) = tokens? p cs := by
  rw [tokens?_gap_cons, h, Option.bind_some]

/-- **A token that cannot go on** is read, and then what stands behind it. -/
theorem tokens?_of_stop (h : ∀ c ∈ cs.head?, p.extend? c = none) :
    tokens? p cs = p.close?.bind fun front => (tokens? .gap cs).map (front ++ ·) := by
  cases cs with
  | nil =>
    rw [tokens?]
    cases p.close? with
    | none => rfl
    | some front => exact congrArg some (List.append_nil front).symm
  | cons c cs => rw [tokens?, h c rfl, tokens?_gap_cons]

/-- A token that is whole is read. -/
theorem tokens?_whole (t : CToken) (rest : List Char) :
    tokens? (.whole t) rest = (tokens? .gap rest).map (t :: ·) :=
  tokens?_of_stop fun _ _ => rfl

/-- **What is cut into tokens has no line end and no tab.** -/
theorem notMem_of_tokens? {ts : List CToken} (h : tokens? p cs = some ts) {a : Char}
    (ha : a = '\n' ∨ a = '\t') : a ∉ cs := by
  -- neither goes on with a token nor begins one
  have hextend : ∀ p : Partial, p.extend? a = none := by
    intro p
    rcases ha with rfl | rfl <;> cases p <;> simp [Partial.extend?, Partial.continuesNumber,
      isWordChar, unquotable, escaped?, operatorChars]
  have hstart : Partial.start? a = none := by rcases ha with rfl | rfl <;> decide
  induction cs generalizing p ts with
  | nil => exact List.not_mem_nil
  | cons c cs ih =>
    rw [List.mem_cons, not_or]
    rw [tokens?] at h
    cases hc : p.extend? c with
    | some p' =>
      rw [hc] at h
      refine ⟨?_, ih h⟩
      rintro rfl
      rw [hextend] at hc
      cases hc
    | none =>
      rw [hc] at h
      obtain ⟨front, -, hrest⟩ := Option.bind_eq_some_iff.mp h
      obtain ⟨ts', hts', -⟩ := Option.map_eq_some_iff.mp hrest
      obtain ⟨p', hp', hcs⟩ := Option.bind_eq_some_iff.mp hts'
      refine ⟨?_, ih hcs⟩
      rintro rfl
      rw [hstart] at hp'
      cases hp'

/-! ## Blanks and marks -/

/-- A blank is no token. -/
@[simp] theorem tokens?_blank (rest : List Char) : tokens? .gap (' ' :: rest) = tokens? .gap rest :=
  tokens?_of_start rfl

/-- A mark is a token. -/
theorem tokens?_mark {t : CToken} (h : Partial.start? c = some (.whole t)) (rest : List Char) :
    tokens? .gap (c :: rest) = (tokens? .gap rest).map (t :: ·) := by
  rw [tokens?_of_start h, tokens?_whole]

@[simp] theorem tokens?_comma (rest : List Char) :
    tokens? .gap (',' :: rest) = (tokens? .gap rest).map (.comma :: ·) := tokens?_mark rfl rest

@[simp] theorem tokens?_semicolon (rest : List Char) :
    tokens? .gap (';' :: rest) = (tokens? .gap rest).map (.semicolon :: ·) := tokens?_mark rfl rest

@[simp] theorem tokens?_openParen (rest : List Char) :
    tokens? .gap ('(' :: rest) = (tokens? .gap rest).map (.openParen :: ·) := tokens?_mark rfl rest

@[simp] theorem tokens?_closeParen (rest : List Char) :
    tokens? .gap (')' :: rest) = (tokens? .gap rest).map (.closeParen :: ·) := tokens?_mark rfl rest

@[simp] theorem tokens?_openBrace (rest : List Char) :
    tokens? .gap ('\x7b' :: rest) = (tokens? .gap rest).map (.openBrace :: ·) :=
  tokens?_mark rfl rest

@[simp] theorem tokens?_closeBrace (rest : List Char) :
    tokens? .gap ('\x7d' :: rest) = (tokens? .gap rest).map (.closeBrace :: ·) :=
  tokens?_mark rfl rest

/-! ## Tokens of several characters -/

/-- What a token is behind more characters, if all of them can belong to it. -/
def Partial.take? (p : Partial) (cs : List Char) : Option Partial := cs.foldlM Partial.extend? p

/-- A token takes one more character, and then the others. -/
theorem take?_cons (h : p.extend? c = some p') (cs : List Char) :
    p.take? (c :: cs) = p'.take? cs := by
  rw [Partial.take?, List.foldlM_cons, h]
  rfl

/-- A token takes characters in two parts. -/
theorem take?_append (cs cs' : List Char) :
    p.take? (cs ++ cs') = (p.take? cs).bind fun p => p.take? cs' := List.foldlM_append

/-- **A token is read back** in front of anything that cannot belong to it. -/
theorem tokens?_token {t : CToken} (hstart : Partial.start? c = some p)
    (htake : p.take? cs = some p') (hclose : p'.close? = some [t])
    (hrest : ∀ c ∈ rest.head?, p'.extend? c = none) :
    tokens? .gap (c :: cs ++ rest) = (tokens? .gap rest).map (t :: ·) := by
  rw [List.cons_append, tokens?_of_start hstart]
  clear hstart
  -- the token takes one character after the other, and stops in front of the rest
  induction cs generalizing p with
  | nil =>
    obtain rfl := Option.some.inj htake
    rw [List.nil_append, tokens?_of_stop hrest, hclose]
    rfl
  | cons c cs ih =>
    rw [Partial.take?, List.foldlM_cons] at htake
    obtain ⟨q, hextend, htake⟩ := Option.bind_eq_some_iff.mp htake
    rw [List.cons_append, tokens?_of_extend hextend, ih htake]

/-! ## Names, numbers and operators -/

/-- A text that is a name: a letter, and then letters, digits and underscores. -/
def IsWord : List Char → Prop
  | [] => False
  | c :: cs => c.isAlpha = true ∧ ∀ d ∈ cs, isWordChar d = true

instance : DecidablePred IsWord
  | [] => inferInstanceAs (Decidable False)
  | c :: cs => decidable_of_iff (c.isAlpha = true ∧ cs.all isWordChar = true)
      (and_congr_right fun _ => List.all_eq_true)

/-- Characters that go on a number. -/
def GoesOn : List Char → List Char → Prop
  | _, [] => True
  | found, c :: cs => Partial.continuesNumber found c = true ∧ GoesOn (c :: found) cs

/-- A text that is a number: a digit, and then what goes on it. -/
def IsNumber : List Char → Prop
  | [] => False
  | c :: cs => c.isDigit = true ∧ GoesOn [c] cs

/-- What cannot belong to a name, a number or an operator that stands in front of it. -/
def Apart (rest : List Char) : Prop := ∀ c ∈ rest.head?, c ∈ [' ', ',', ';', '(', ')']

/-- What goes on a number goes on it in two parts. -/
theorem goesOn_append {found cs cs' : List Char} :
    GoesOn found (cs ++ cs') ↔ GoesOn found cs ∧ GoesOn (cs.reverse ++ found) cs' := by
  induction cs generalizing found with
  | nil => simp [GoesOn]
  | cons c cs ih => simp [GoesOn, ih, and_assoc]

/-- Letters and digits go on every number. -/
theorem goesOn_of_isWordChar {found : List Char} (h : ∀ c ∈ cs, isWordChar c = true) :
    GoesOn found cs := by
  induction cs generalizing found with
  | nil => trivial
  | cons c cs ih =>
    obtain ⟨hc, hcs⟩ := List.forall_mem_cons.mp h
    exact ⟨by simp [Partial.continuesNumber, hc], ih hcs⟩

/-- A name takes letters, digits and underscores. -/
theorem take?_word (h : ∀ c ∈ cs, isWordChar c = true) (found : List Char) :
    (Partial.word found).take? cs = some (.word (cs.reverse ++ found)) := by
  induction cs generalizing found with
  | nil => rfl
  | cons c cs ih =>
    obtain ⟨hc, hcs⟩ := List.forall_mem_cons.mp h
    have hextend : (Partial.word found).extend? c = some (.word (c :: found)) := if_pos hc
    rw [take?_cons hextend, ih hcs, List.reverse_cons, List.append_assoc, List.singleton_append]

/-- A number takes what goes on it. -/
theorem take?_number {found : List Char} (h : GoesOn found cs) :
    (Partial.number found).take? cs = some (.number (cs.reverse ++ found)) := by
  induction cs generalizing found with
  | nil => rfl
  | cons c cs ih =>
    have hextend : (Partial.number found).extend? c = some (.number (c :: found)) := if_pos h.1
    rw [take?_cons hextend, ih h.2, List.reverse_cons, List.append_assoc, List.singleton_append]

/-- **A name is read back.** -/
theorem tokens?_word {x : String} (h : IsWord x.toList) (hrest : Apart rest) :
    tokens? .gap (x.toList ++ rest) = (tokens? .gap rest).map (.word x :: ·) := by
  rw [← String.ofList_toList (s := x)] at h ⊢
  generalize x.toList = w at h ⊢
  rw [String.toList_ofList] at h ⊢
  cases w with
  | nil => cases h
  | cons c cs =>
    have hblank : c ≠ ' ' := by
      rintro rfl
      exact absurd h.1 (by decide)
    refine tokens?_token (p := .word [c]) ?_ (take?_word h.2 [c]) (by simp [Partial.close?]) ?_
    · simp [Partial.start?, hblank, h.1]
    · have hother : [' ', ',', ';', '(', ')'].any isWordChar = false := by decide
      exact fun d hd => if_neg (List.any_eq_false.mp hother d (hrest d hd))

/-- **A number is read back.** -/
theorem tokens?_number {x : String} (h : IsNumber x.toList) (hrest : Apart rest) :
    tokens? .gap (x.toList ++ rest) = (tokens? .gap rest).map (.number x :: ·) := by
  rw [← String.ofList_toList (s := x)] at h ⊢
  generalize x.toList = w at h ⊢
  rw [String.toList_ofList] at h ⊢
  cases w with
  | nil => cases h
  | cons c cs =>
    have hblank : c ≠ ' ' := by
      rintro rfl
      exact absurd h.1 (by decide)
    have hunderscore : c ≠ '_' := by
      rintro rfl
      exact absurd h.1 (by decide)
    refine tokens?_token (p := .number [c]) ?_ (take?_number h.2) (by simp [Partial.close?]) ?_
    · simp [Partial.start?, hblank, hunderscore, isAlpha_of_isDigit h.1, h.1]
    · have hother : ∀ found, ∀ c ∈ [' ', ',', ';', '(', ')'],
          Partial.continuesNumber found c = false := by
        simp [Partial.continuesNumber, isWordChar]
      exact fun d hd => if_neg (Bool.eq_false_iff.mp (hother _ d (hrest d hd)))

/-- **An operator is read back.** -/
theorem tokens?_operator {t : CToken} {op : List Char} (h : (op, t) ∈ CToken.operators)
    (hrest : ∀ c ∈ rest.head?, c ∉ operatorChars) :
    tokens? .gap (op ++ rest) = (tokens? .gap rest).map (t :: ·) := by
  -- there are few operators, so each can be looked up
  have htable : ∀ entry ∈ CToken.operators,
      (Partial.operator entry.1.reverse).close? = some [entry.2] ∧
      ((entry.1.head?.bind Partial.start?).bind fun p => p.take? entry.1.tail) =
        some (.operator entry.1.reverse) := by decide
  obtain ⟨hclose, hread⟩ := htable _ h
  cases op with
  | nil => cases hread
  | cons c cs =>
    obtain ⟨p, hstart, htake⟩ := Option.bind_eq_some_iff.mp hread
    exact tokens?_token hstart htake hclose fun d hd => if_neg (hrest d hd)

/-! ## String literals -/

/-- A literal takes an escaped character. -/
theorem take?_escapeChar (found : List Char) (c : Char) :
    (Partial.literal found).take? (escapeChar c) =
      some (.literal ((escapeChar c).reverse ++ found)) := by
  unfold escapeChar
  split_ifs with hbackslash hquote hnewline htab hreturn
  · rfl
  · rfl
  · rfl
  · rfl
  · rfl
  · have hlayout : c ∉ unquotable := by simp [unquotable, hnewline, htab, hreturn]
    have hextend : (Partial.literal found).extend? c = some (.literal (c :: found)) := by
      rw [Partial.extend?, if_neg hquote, if_neg hbackslash, if_neg hlayout]
    rw [take?_cons hextend]
    rfl

/-- A literal takes escaped characters, one after the other. -/
theorem take?_flatMap_escapeChar (found body : List Char) :
    (Partial.literal found).take? (body.flatMap escapeChar) =
      some (.literal ((body.flatMap escapeChar).reverse ++ found)) := by
  induction body generalizing found with
  | nil => rfl
  | cons c body ih =>
    rw [List.flatMap_cons, take?_append, take?_escapeChar, Option.bind_some, ih,
      List.reverse_append, List.append_assoc]

/-- **A text that was escaped is one token.** -/
theorem tokens?_quoteBody (body rest : List Char) :
    tokens? .gap (quoteBody body ++ rest) =
      (tokens? .gap rest).map (.literal (String.ofList (quoteBody body)) :: ·) := by
  have htake : (Partial.literal ['"']).take? (body.flatMap escapeChar ++ ['"']) =
      some (.whole (.literal (String.ofList (quoteBody body)))) := by
    rw [take?_append, take?_flatMap_escapeChar, Option.bind_some]
    simp [Partial.take?, Partial.extend?, quoteBody]
  have hquote : quoteBody body = '"' :: (body.flatMap escapeChar ++ ['"']) := by simp [quoteBody]
  rw [hquote] at htake ⊢
  exact tokens?_token rfl htake rfl fun _ _ => rfl

end Mgol.Target
