import Mgol.Proofs.Scanner.Ahead

/-! # The places of the words ahead

Where the words begin that a parser will see of a source. As with the words themselves, the types in
the registry do not matter for it.

* **`visibleOf`** — the tokens that a parser sees before the end of the input.
* **`Scanner.Spread`** — the words ahead of a scanner with their places.
* **`Scanner.Spread.found`** — a visible token that is found is the first of them.
* **`Scanner.spread_of_scanAll`** — they are those of all visible tokens. -/

namespace Mgol

/-- **The tokens that are no comments and no errors**, before the end of the input. -/
def visibleOf (tokens : List (Spanned Token)) : List (Spanned Token) :=
  (tokens.filter fun t => !t.value.kind.isIgnorable).takeWhile (·.value.kind ≠ .endOfFile)

/-- The words of tokens are those of the visible ones. -/
theorem wordsOf_eq_map_visibleOf (tokens : List (Spanned Token)) :
    wordsOf tokens = (visibleOf tokens).map fun t => t.value.word := by
  rw [wordsOf, visibleOf, List.takeWhile_map]
  rfl

/-- A word with the place where it begins. -/
abbrev PlacedWord := (TokenClass × String) × Position

/-- The word of a token with its place. -/
def Token.placed (t : Spanned Token) : PlacedWord := (t.value.word, t.span.start)

namespace Scanner

/-- **The words ahead of a scanner with their places**, before the end of the input. -/
inductive Spread : Scanner → List PlacedWord → Prop
  | ended {s s' : Scanner} {t : Spanned Token} (scanned : s.scan = (.ok t, s'))
      (last : t.value.kind = .endOfFile) : Spread s []
  | hidden {s s' : Scanner} {t : Spanned Token} {words : List PlacedWord}
      (scanned : s.scan = (.ok t, s')) (ignorable : t.value.kind.isIgnorable = true)
      (rest : Spread s' words) : Spread s words
  | visible {s s' : Scanner} {t : Spanned Token} {words : List PlacedWord}
      (scanned : s.scan = (.ok t, s')) (shown : t.value.kind.isIgnorable = false)
      (more : t.value.kind ≠ .endOfFile) (rest : Spread s' words) :
      Spread s (Token.placed t :: words)

/-- Scanners that agree hand out tokens at the same place. -/
theorem Agrees.placed {s s' next : Scanner} {t : Spanned Token} (h : s.Agrees s')
    (hscan : s.scan = (.ok t, next)) :
    ∃ t' next', s'.scan = (.ok t', next') ∧ Token.placed t' = Token.placed t ∧
      next.Agrees next' := by
  obtain ⟨t', next', hscan', hword, hagrees⟩ := h.scan hscan
  refine ⟨t', next', hscan', ?_, hagrees⟩
  have hstart : t'.span.start = t.span.start := by
    rw [(scanned_of_scan hscan').start_eq, (scanned_of_scan hscan).start_eq, h.glance_eq]
  rw [Token.placed, Token.placed, hword, hstart]

namespace Spread

/-- Scanners that agree have the same words ahead at the same places. -/
theorem of_agrees {s s' : Scanner} {words : List PlacedWord} (h : s.Spread words)
    (ha : s.Agrees s') : s'.Spread words := by
  induction h generalizing s' with
  | ended scanned last =>
    obtain ⟨t', next', hscan, hplaced, _⟩ := ha.placed scanned
    have hkind := (Prod.mk.inj (Prod.mk.inj hplaced).1).1
    exact .ended hscan (hkind.trans last)
  | hidden scanned ignorable _ ih =>
    obtain ⟨t', next', hscan, hplaced, hagrees⟩ := ha.placed scanned
    have hkind := (Prod.mk.inj (Prod.mk.inj hplaced).1).1
    exact .hidden hscan (by rw [hkind]; exact ignorable) (ih hagrees)
  | visible scanned shown more _ ih =>
    obtain ⟨t', next', hscan, hplaced, hagrees⟩ := ha.placed scanned
    have hkind := (Prod.mk.inj (Prod.mk.inj hplaced).1).1
    rw [← hplaced]
    exact .visible hscan (by rw [hkind]; exact shown) (by rw [hkind]; exact more) (ih hagrees)

/-- **A visible token that is found is the first of the words ahead**, or the end of the input. -/
theorem found {s s' : Scanner} {words : List PlacedWord} {t : Spanned Token} (h : s.Spread words)
    (hfound : s.nextVisible = (.ok t, s')) :
    t.value.kind = .endOfFile ∧ words = [] ∨
      t.value.kind ≠ .endOfFile ∧ ∃ rest, words = Token.placed t :: rest ∧ s'.Spread rest := by
  induction h with
  | ended scanned last =>
    rw [nextVisible_of_scan scanned, last] at hfound
    cases hfound
    exact .inl ⟨last, rfl⟩
  | hidden scanned ignorable _ ih =>
    rw [nextVisible_of_scan scanned, ignorable] at hfound
    exact ih hfound
  | visible scanned shown more rest _ =>
    rw [nextVisible_of_scan scanned, shown] at hfound
    cases hfound
    exact .inr ⟨more, _, rfl, rest⟩

end Spread

/-- The visible tokens behind the end of the input. -/
theorem visibleOf_cons_of_ended {t : Spanned Token} (tokens : List (Spanned Token))
    (h : t.value.kind = .endOfFile) : visibleOf (t :: tokens) = [] := by
  simp [visibleOf, h, TokenClass.isIgnorable]

/-- The visible tokens behind one that is passed over. -/
theorem visibleOf_cons_of_hidden {t : Spanned Token} (tokens : List (Spanned Token))
    (h : t.value.kind.isIgnorable = true) : visibleOf (t :: tokens) = visibleOf tokens := by
  simp [visibleOf, h]

/-- A token that is seen, in front of others. -/
theorem visibleOf_cons_of_visible {t : Spanned Token} (tokens : List (Spanned Token))
    (h : t.value.kind.isIgnorable = false) (hmore : t.value.kind ≠ .endOfFile) :
    visibleOf (t :: tokens) = t :: visibleOf tokens := by
  simp [visibleOf, h, hmore]

/-- The tokens that are still to be scanned are ahead at their places. -/
theorem spread_of_scanAllFrom {n : Nat} {found tokens : Array (Spanned Token)} {s s' : Scanner}
    (h : scanAllFrom n found s = (.ok tokens, s')) :
    ∃ more, tokens.toList = found.toList ++ more ∧
      s.Spread ((visibleOf more).map Token.placed) := by
  induction n generalizing found s with
  | zero => cases h
  | succ n ih =>
    rw [scanAllFrom] at h
    rcases hscan : s.scan with ⟨⟨e⟩ | ⟨t⟩, next⟩
    · rw [hscan] at h
      cases h
    · rw [hscan] at h
      simp only at h
      by_cases hend : t.value.isEndOfFile = true
      · rw [if_pos hend] at h
        obtain ⟨rfl, rfl⟩ : found.push t = tokens ∧ next = s' := by simpa using h
        have hkind : t.value.kind = .endOfFile := by
          rw [show t.value = .endOfFile by simpa [Token.isEndOfFile] using hend]
          rfl
        refine ⟨[t], by simp, ?_⟩
        rw [visibleOf_cons_of_ended _ hkind]
        exact .ended hscan hkind
      · rw [if_neg hend] at h
        obtain ⟨more, htokens, hspread⟩ := ih h
        refine ⟨t :: more, by simpa using htokens, ?_⟩
        by_cases hkind : t.value.kind = .endOfFile
        · rw [visibleOf_cons_of_ended _ hkind]
          exact .ended hscan hkind
        · cases hshown : t.value.kind.isIgnorable with
          | true =>
            rw [visibleOf_cons_of_hidden _ hshown]
            exact .hidden hscan hshown hspread
          | false =>
            rw [visibleOf_cons_of_visible _ hshown hkind]
            exact .visible hscan hshown hkind hspread

/-- **The words ahead with their places are those of all visible tokens.** -/
theorem spread_of_scanAll {s : Scanner} {tokens : Array (Spanned Token)}
    (h : s.scanAll.1 = .ok tokens) : s.Spread ((visibleOf tokens.toList).map Token.placed) := by
  rcases hscan : s.scanAll with ⟨result, s'⟩
  rw [hscan] at h
  simp only at h
  subst h
  obtain ⟨more, htokens, hspread⟩ := spread_of_scanAllFrom hscan
  rw [show tokens.toList = more by simpa using htokens]
  exact hspread

end Scanner

end Mgol
