import Mgol.Grammar.Tables
import Mgol.Proofs.Scanner.Scan

/-! # The words ahead of a scanner

What a parser will see of a source: the words of its tokens, and the terminals that they are.

* **`Scanner.Ahead`** — the words that a scanner will hand out before the end of the input.
* **`Scanner.Ahead.nextVisible`** — the search for a visible token finds the first of them.
* **`wordsOf`, `terminalsOf`, `Scanner.ahead_of_scanAll`** — they are the words of all tokens. -/

namespace Mgol

/-- The tokens that the parser looks up as the end of the input. -/
theorem Token.terminalName_eq_endMarker_iff {t : Token} :
    t.terminalName = endMarker ↔ t.kind = .endOfFile := by
  unfold terminalName
  generalize t.kind = kind
  cases kind with
  | keyword word => cases word <;> decide
  | _ => decide

/-- The terminal that a word is parsed as. -/
def terminalOf (word : TokenClass × String) : GrammarSymbol := (word.1.terminal?).getD ""

/-- **The words of tokens** that are no comments and no errors, before the end of the input. -/
def wordsOf (tokens : List (Spanned Token)) : List (TokenClass × String) :=
  ((tokens.filter fun t => !t.value.kind.isIgnorable).map fun t => t.value.word).takeWhile
    (·.1 ≠ .endOfFile)

/-- **The terminals of tokens** that are no comments and no errors, before the end of the input. -/
def terminalsOf (tokens : List (Spanned Token)) : List GrammarSymbol :=
  ((tokens.filter fun t => !t.value.kind.isIgnorable).map fun t => t.value.terminalName).takeWhile
    (· ≠ endMarker)

/-- The terminals of tokens are those of their words. -/
theorem terminalsOf_eq (tokens : List (Spanned Token)) :
    terminalsOf tokens = (wordsOf tokens).map terminalOf := by
  unfold terminalsOf wordsOf
  generalize tokens.filter (fun t => !t.value.kind.isIgnorable) = visible
  induction visible with
  | nil => rfl
  | cons t visible ih =>
    rw [List.map_cons, List.map_cons]
    by_cases hend : t.value.word.1 = .endOfFile
    · have hname : t.value.terminalName = endMarker :=
        Token.terminalName_eq_endMarker_iff.mpr hend
      rw [List.takeWhile_cons_of_neg (by simpa using hname),
        List.takeWhile_cons_of_neg (by simpa using hend)]
      rfl
    · have hname : t.value.terminalName ≠ endMarker :=
        mt Token.terminalName_eq_endMarker_iff.mp hend
      rw [List.takeWhile_cons_of_pos (by simpa using hname),
        List.takeWhile_cons_of_pos (by simpa using hend), List.map_cons, ih]
      rfl

namespace Scanner

/-- **The words ahead of a scanner**, before the end of the input. -/
inductive Ahead : Scanner → List (TokenClass × String) → Prop
  | ended {s s' : Scanner} {t : Spanned Token} (scanned : s.scan = (.ok t, s'))
      (last : t.value.kind = .endOfFile) : Ahead s []
  | hidden {s s' : Scanner} {t : Spanned Token} {words : List (TokenClass × String)}
      (scanned : s.scan = (.ok t, s')) (ignorable : t.value.kind.isIgnorable = true)
      (rest : Ahead s' words) : Ahead s words
  | visible {s s' : Scanner} {t : Spanned Token} {words : List (TokenClass × String)}
      (scanned : s.scan = (.ok t, s')) (shown : t.value.kind.isIgnorable = false)
      (more : t.value.kind ≠ .endOfFile) (rest : Ahead s' words) :
      Ahead s (t.value.word :: words)

namespace Ahead

/-- Scanners that agree have the same words ahead. -/
theorem of_agrees {s s' : Scanner} {words : List (TokenClass × String)} (h : s.Ahead words)
    (ha : s.Agrees s') : s'.Ahead words := by
  induction h generalizing s' with
  | ended scanned last =>
    obtain ⟨t', next', hscan, hword, _⟩ := ha.scan scanned
    exact .ended hscan ((Prod.mk.inj hword).1.trans last)
  | hidden scanned ignorable _ ih =>
    obtain ⟨t', next', hscan, hword, hagrees⟩ := ha.scan scanned
    have hkind := (Prod.mk.inj hword).1
    exact .hidden hscan (by rw [hkind]; exact ignorable) (ih hagrees)
  | visible scanned shown more _ ih =>
    obtain ⟨t', next', hscan, hword, hagrees⟩ := ha.scan scanned
    have hkind := (Prod.mk.inj hword).1
    rw [← hword]
    exact .visible hscan (by rw [hkind]; exact shown) (by rw [hkind]; exact more) (ih hagrees)

/-- The end marker is not among the terminals ahead. -/
theorem endMarker_notMem {s : Scanner} {words : List (TokenClass × String)} (h : s.Ahead words) :
    endMarker ∉ words.map terminalOf := by
  induction h with
  | ended => simp
  | hidden _ _ _ ih => exact ih
  | visible _ _ more _ ih =>
    rw [List.map_cons, List.mem_cons]
    rintro (heq | hmem)
    · exact more (Token.terminalName_eq_endMarker_iff.mp heq.symm)
    · exact ih hmem

/-- **The search for a visible token finds the first word ahead**, or the end of the input. -/
theorem nextVisible {s : Scanner} {words : List (TokenClass × String)} (h : s.Ahead words) :
    ∃ t s', s.nextVisible = (.ok t, s') ∧
      (t.value.kind = .endOfFile ∧ words = [] ∨
        t.value.kind ≠ .endOfFile ∧ ∃ rest, words = t.value.word :: rest ∧ s'.Ahead rest) := by
  induction h with
  | @ended s s' t scanned last =>
    refine ⟨t, s', ?_, .inl ⟨last, rfl⟩⟩
    rw [nextVisible_of_scan scanned, last]
    rfl
  | hidden scanned ignorable _ ih =>
    obtain ⟨t, s', hnext, hcases⟩ := ih
    refine ⟨t, s', ?_, hcases⟩
    rw [nextVisible_of_scan scanned, ignorable]
    exact hnext
  | @visible s s' t words scanned shown more rest _ =>
    refine ⟨t, s', ?_, .inr ⟨more, words, rfl, rest⟩⟩
    rw [nextVisible_of_scan scanned, shown]
    rfl

/-- What is found is the first word ahead, or the end of the input. -/
theorem of_nextVisible {s s' : Scanner} {t : Spanned Token} {words : List (TokenClass × String)}
    (h : s.nextVisible = (.ok t, s'))
    (hwords : t.value.kind = .endOfFile ∧ words = [] ∨
      t.value.kind ≠ .endOfFile ∧ ∃ rest, words = t.value.word :: rest ∧ s'.Ahead rest) :
    s.Ahead words := by
  unfold Scanner.nextVisible at h
  generalize s.allowance = n at h
  induction n generalizing s with
  | zero => cases h
  | succ n ih =>
    rw [nextVisibleFrom] at h
    -- what is ignorable is passed over, and the first other token is the one that was found
    rcases hscan : s.scan with ⟨⟨e⟩ | ⟨u⟩, next⟩
    · rw [hscan] at h
      cases h
    · rw [hscan] at h
      simp only at h
      by_cases hhidden : u.value.kind.isIgnorable = true
      · rw [if_pos hhidden] at h
        exact .hidden hscan hhidden (ih h)
      · rw [if_neg hhidden] at h
        obtain ⟨hu, rfl⟩ := Prod.mk.inj h
        obtain rfl := Except.ok.inj hu
        rcases hwords with ⟨hend, rfl⟩ | ⟨hmore, rest, rfl, hrest⟩
        · exact .ended hscan hend
        · exact .visible hscan (by simpa using hhidden) hmore hrest

end Ahead

/-- The words behind a first token that is the end of the input. -/
theorem wordsOf_cons_of_ended {t : Spanned Token} (tokens : List (Spanned Token))
    (h : t.value.kind = .endOfFile) : wordsOf (t :: tokens) = [] := by
  simp [wordsOf, h, TokenClass.isIgnorable, Token.word]

/-- The words of a first token that is passed over. -/
theorem wordsOf_cons_of_hidden {t : Spanned Token} (tokens : List (Spanned Token))
    (h : t.value.kind.isIgnorable = true) : wordsOf (t :: tokens) = wordsOf tokens := by
  simp [wordsOf, h]

/-- The words of a first token that is seen. -/
theorem wordsOf_cons_of_visible {t : Spanned Token} (tokens : List (Spanned Token))
    (h : t.value.kind.isIgnorable = false) (hmore : t.value.kind ≠ .endOfFile) :
    wordsOf (t :: tokens) = t.value.word :: wordsOf tokens := by
  simp [wordsOf, h, hmore, Token.word]

/-- The tokens that are still to be scanned have the words ahead. -/
theorem ahead_of_scanAllFrom {n : Nat} {found tokens : Array (Spanned Token)} {s s' : Scanner}
    (h : scanAllFrom n found s = (.ok tokens, s')) :
    ∃ more, tokens.toList = found.toList ++ more ∧ s.Ahead (wordsOf more) := by
  induction n generalizing found s with
  | zero => cases h
  | succ n ih =>
    rw [scanAllFrom] at h
    rcases hscan : s.scan with ⟨⟨e⟩ | ⟨t⟩, next⟩
    · rw [hscan] at h
      cases h
    · rw [hscan] at h
      simp only at h
      by_cases hend : t.value.isEndOfFile = true
      · rw [if_pos hend] at h
        obtain ⟨rfl, rfl⟩ : found.push t = tokens ∧ next = s' := by simpa using h
        have hkind : t.value.kind = .endOfFile := by
          rw [show t.value = .endOfFile by simpa [Token.isEndOfFile] using hend]
          rfl
        refine ⟨[t], by simp, ?_⟩
        rw [wordsOf_cons_of_ended _ hkind]
        exact .ended hscan hkind
      · rw [if_neg hend] at h
        obtain ⟨more, htokens, hahead⟩ := ih h
        refine ⟨t :: more, by simpa using htokens, ?_⟩
        -- behind a token of the end of the file nothing counts, whatever its lexeme
        by_cases hkind : t.value.kind = .endOfFile
        · rw [wordsOf_cons_of_ended _ hkind]
          exact .ended hscan hkind
        · cases hshown : t.value.kind.isIgnorable with
          | true =>
            rw [wordsOf_cons_of_hidden _ hshown]
            exact .hidden hscan hshown hahead
          | false =>
            rw [wordsOf_cons_of_visible _ hshown hkind]
            exact .visible hscan hshown hkind hahead

/-- **The words ahead are those of all tokens.** -/
theorem ahead_of_scanAll {s : Scanner} {tokens : Array (Spanned Token)}
    (h : s.scanAll.1 = .ok tokens) : s.Ahead (wordsOf tokens.toList) := by
  rcases hscan : s.scanAll with ⟨result, s'⟩
  rw [hscan] at h
  simp only at h
  subst h
  obtain ⟨more, htokens, hahead⟩ := ahead_of_scanAllFrom hscan
  rw [show tokens.toList = more by simpa using htokens]
  exact hahead

end Scanner

end Mgol
