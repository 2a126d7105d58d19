import Mgol.Proofs.Scanner.Sight

/-! # Scans

What one scan and the search for a visible token do to a scanner, and what they depend on.

* **`Registry.Sound`, `Registry.SameWords`** — registries with every entry in its place, and
  registries that differ in types only.
* **`Scanner.Scanned`, `Scanner.scanned_of_scan`** — what a scan that hands out a token does.
* **`Scanner.Agrees`, `Scanner.Agrees.scan`** — scanners that agree hand out the same words.
* **`Scanner.Finds`, `Scanner.finds_of_nextVisible`** — what the search for a visible token does. -/

namespace Mgol

/-! ## Registries -/

/-- What a token is apart from its type. -/
def Token.word (t : Token) : TokenClass × String := (t.kind, t.lexeme)

namespace Registry

/-- **A sound registry**: every entry stands under its own lexeme. -/
def Sound (r : Registry) : Prop := ∀ lexeme t, r.get? lexeme = some t → t.lexeme = lexeme

/-- **Two registries with the same words**; they may differ in types. -/
def SameWords (r r' : Registry) : Prop :=
  ∀ lexeme, (r.get? lexeme).map Token.word = (r'.get? lexeme).map Token.word

/-- **A name of the program**: the registry has it as an identifier. -/
def Knows (r : Registry) (lexeme : String) : Prop :=
  ∃ entry, r.get? lexeme = some entry ∧ entry.kind = .identifier

/-- Every registry has its own words. -/
theorem SameWords.refl (r : Registry) : r.SameWords r := fun _ => rfl

/-- The entries after a token was entered. -/
theorem get?_insert (r : Registry) (t : Token) (lexeme : String) :
    (r.insert t).2.get? lexeme =
      if t.lexeme = lexeme then some (r.insert t).1 else r.get? lexeme := by
  unfold insert
  cases hold : r.get? t.lexeme with
  | none => exact get?_put r t lexeme
  | some old =>
    by_cases heq : t.lexeme = lexeme
    · rw [if_pos heq, ← heq]
      exact hold
    · rw [if_neg heq]

/-- Entering a token gives the entry of its lexeme. -/
theorem insert_fst (r : Registry) (t : Token) : (r.insert t).1 = (r.get? t.lexeme).getD t := by
  unfold insert
  cases r.get? t.lexeme <;> rfl

/-- The entry that is given for a token has its lexeme. -/
theorem Sound.lexeme_insert {r : Registry} (h : r.Sound) (t : Token) :
    (r.insert t).1.lexeme = t.lexeme := by
  rw [insert_fst]
  cases hold : r.get? t.lexeme with
  | none => rfl
  | some old => exact h _ _ hold

/-- Tokens are entered in their place. -/
theorem Sound.insert {r : Registry} (h : r.Sound) (t : Token) : (r.insert t).2.Sound := by
  intro lexeme u hu
  rw [get?_insert] at hu
  by_cases heq : t.lexeme = lexeme
  · rw [if_pos heq] at hu
    rw [← Option.some.inj hu, h.lexeme_insert, heq]
  · rw [if_neg heq] at hu
    exact h _ _ hu

/-- What holds of the empty registry and is kept by every reserved word holds of all of them. -/
theorem reserved_induction {P : Registry → Prop} (hempty : P empty)
    (hinsert : ∀ r word, P r → P (r.insert (.ofKeyword word)).2) : P reserved := by
  have hstep : ∀ (words : List Keyword) (r : Registry), P r →
      P (words.foldl (fun r word => (r.insert (.ofKeyword word)).2) r) := by
    intro words
    induction words with
    | nil => exact fun r h => h
    | cons word words ih => exact fun r h => ih _ (hinsert r word h)
  exact hstep _ _ hempty

/-- Nothing stands in the empty registry. -/
theorem get?_empty (lexeme : String) : empty.get? lexeme = none := by
  simp [get?, empty]

/-- The reserved words stand in their place. -/
theorem sound_reserved : Registry.reserved.Sound := by
  refine reserved_induction ?_ fun r word h => h.insert _
  intro lexeme t ht
  rw [get?_empty] at ht
  cases ht

/-- Registries with the same words give the same word for a token. -/
theorem SameWords.insert {r r' : Registry} (h : r.SameWords r') (t : Token) :
    (r.insert t).1.word = (r'.insert t).1.word ∧ (r.insert t).2.SameWords (r'.insert t).2 := by
  have hword : (r.insert t).1.word = (r'.insert t).1.word := by
    rw [Registry.insert_fst, Registry.insert_fst]
    have := h t.lexeme
    cases hr : r.get? t.lexeme <;> cases hr' : r'.get? t.lexeme <;> simp_all
  refine ⟨hword, fun lexeme => ?_⟩
  rw [get?_insert, get?_insert]
  by_cases heq : t.lexeme = lexeme
  · rw [if_pos heq, if_pos heq, Option.map_some, Option.map_some, hword]
  · rw [if_neg heq, if_neg heq]
    exact h lexeme

/-- What setting a type does: the name is no reserved word, and its entry alone changes, in its
type alone. -/
theorem setType_eq_ok {r r' : Registry} {lexeme : String} {type : DataType}
    (h : r.setType lexeme type = .ok r') :
    ∃ t, r.get? lexeme = some t ∧ (∀ word, t.kind ≠ .keyword word) ∧
      ∀ other, r'.get? other =
        if lexeme = other then some { t with type := type } else r.get? other := by
  unfold setType at h
  cases hget : r.get? lexeme with
  | none =>
    rw [hget] at h
    cases h
  | some t =>
    rw [hget] at h
    simp only at h
    split at h
    · cases h
    · next hkind =>
      refine ⟨t, rfl, hkind, fun other => ?_⟩
      obtain rfl := Except.ok.inj h
      simp [get?, Std.TreeMap.getElem?_insert, Std.LawfulEqCmp.compare_eq_iff_eq]

/-- Setting a type changes no word. -/
theorem sameWords_setType {r r' : Registry} {lexeme : String} {type : DataType}
    (h : r.setType lexeme type = .ok r') : r.SameWords r' := by
  obtain ⟨t, ht, _, hget⟩ := setType_eq_ok h
  intro other
  rw [hget]
  by_cases heq : lexeme = other
  · rw [if_pos heq, ← heq, ht]
    rfl
  · rw [if_neg heq]

/-- Words are all that matters for the names of a program. -/
theorem Knows.of_sameWords {r r' : Registry} {lexeme : String} (h : r.Knows lexeme)
    (hw : r.SameWords r') : r'.Knows lexeme := by
  obtain ⟨entry, hget, hkind⟩ := h
  have hsame := hw lexeme
  rw [hget, Option.map_some] at hsame
  obtain ⟨entry', hget', hword⟩ := Option.map_eq_some_iff.mp hsame.symm
  exact ⟨entry', hget', (Prod.mk.inj hword).1.trans hkind⟩

/-- Words are all that matters for the soundness of a registry. -/
theorem Sound.of_sameWords {r r' : Registry} (h : r.Sound) (hw : r.SameWords r') : r'.Sound := by
  intro lexeme t ht
  have hsame := hw lexeme
  rw [ht, Option.map_some] at hsame
  obtain ⟨u, hu, hword⟩ := Option.map_eq_some_iff.mp hsame
  rw [← (Prod.mk.inj hword).2]
  exact h _ _ hu

end Registry

/-! ## One scan -/

/-- **What is handed out for a sight**: the token, and the registry after it. -/
inductive Sight.Handed (r : Registry) : Sight → Token → Registry → Prop
  | ended : Handed r .ended .endOfFile r
  | fault {f : LexemeFault} {bytes : List UInt8} :
      Handed r (.fault f bytes) (.ofError (Text.decodeLossy bytes)) r
  | name {w : Token} (identifier : w.kind = .identifier) :
      Handed r (.word w) (r.insert w).1 (r.insert w).2
  | word {w : Token} (other : w.kind ≠ .identifier) : Handed r (.word w) w r

namespace Scanner

/-- **What a scan does that hands out a token.** -/
structure Scanned (s : Scanner) (t : Spanned Token) (s' : Scanner) : Prop where
  within : s.metrics.tokens < Limits.tokenCount
  counted : s'.metrics.tokens = s.metrics.tokens + 1
  lexicon_eq : s'.lexicon = s.lexicon
  input_eq : s'.input = ⟨s.glance.rest, s.input.failure⟩
  position_eq : s'.position = s.glance.stop
  start_eq : t.span.start = s.glance.start
  handed : s.glance.sight.Handed s.registry t.value s'.registry
  reported : ∃ found : Array Diagnostic, (∀ d ∈ found, d.kind = .lexical) ∧
    s'.diagnostics = s.diagnostics ++ found

/-- Noting the end of the file changes nothing but notes. -/
theorem noteEnd_eq (s : Scanner) (t : Token) :
    (s.noteEnd t).metrics = s.metrics ∧ (s.noteEnd t).lexicon = s.lexicon ∧
      (s.noteEnd t).input = s.input ∧ (s.noteEnd t).position = s.position ∧
      (s.noteEnd t).registry = s.registry ∧ (s.noteEnd t).diagnostics = s.diagnostics := by
  unfold noteEnd
  split
  · exact ⟨rfl, rfl, rfl, rfl, rfl, rfl⟩
  · exact ⟨rfl, rfl, rfl, rfl, rfl, rfl⟩

/-- An identifier is handed out by its entry. -/
theorem acceptToken_of_identifier {s : Scanner} {t : Token} (h : t.kind = .identifier)
    (start : Position) :
    s.acceptToken t start =
      (.ok ⟨(s.registry.insert t).1, ⟨start, s.position⟩⟩,
       (s.withRegistry (s.registry.insert t).2).note
        (.tokenAccepted (s.registry.insert t).1 start)) := by
  simp only [acceptToken, enter, if_pos h]
  rfl

/-- Anything else is handed out as it is. -/
theorem acceptToken_of_other {s : Scanner} {t : Token} (h : t.kind ≠ .identifier)
    (start : Position) :
    s.acceptToken t start =
      (.ok ⟨t, ⟨start, s.position⟩⟩, s.note (.tokenAccepted t start)) := by
  simp only [acceptToken, enter, if_neg h]

/-- **What a scanner passes over**, separators and all. -/
theorem glance_progress (s : Scanner) :
    s.position.offset ≤ s.glance.start.offset ∧
      s.glance.stop.offset + s.glance.rest.length = s.position.offset + s.input.bytes.length ∧
      match s.glance.sight with
      | .broken message => s.input.failure = some message
      | .ended => s.glance.stop = s.glance.start ∧ s.glance.rest = []
      | _ => s.glance.start.offset < s.glance.stop.offset := by
  have hskip := le_offset_skipSeparators s.position s.input.bytes
  have hlength := offset_skipSeparators s.position s.input.bytes
  unfold glance
  rcases hpair : skipSeparators s.position s.input.bytes with ⟨p, rest⟩
  rw [hpair] at hskip hlength
  obtain ⟨hstart, hrest, hsight⟩ := s.lexicon.glance_progress s.input.failure p rest
  simp only at hskip hlength ⊢
  rw [hstart]
  exact ⟨hskip, by omega, hsight⟩

/-- What stands next is a failure, or it is handed out. -/
theorem scanToken_cases (s : Scanner) :
    (∃ message p s', s.glance.sight = .broken message ∧
        s.scanToken = (.error (.sourceRead message p), s')) ∨
      ∃ t s', s.scanToken = (.ok t, s') ∧ s'.metrics = s.metrics ∧ s'.lexicon = s.lexicon ∧
        s'.input = ⟨s.glance.rest, s.input.failure⟩ ∧ s'.position = s.glance.stop ∧
        t.span.start = s.glance.start ∧
        s.glance.sight.Handed s.registry t.value s'.registry ∧
        ∃ found : Array Diagnostic, (∀ d ∈ found, d.kind = .lexical) ∧
          s'.diagnostics = s.diagnostics ++ found := by
  rw [scanToken_eq]
  obtain ⟨_, _, hprogress⟩ := s.glance_progress
  cases hsight : s.glance.sight with
  | broken message => exact .inl ⟨message, _, _, rfl, rfl⟩
  | ended =>
    rw [hsight] at hprogress
    exact .inr ⟨_, _, rfl, rfl, rfl, rfl, rfl, hprogress.1, .ended, #[], by simp, by simp [moveTo]⟩
  | fault f bytes =>
    exact .inr ⟨_, _, rfl, rfl, rfl, rfl, rfl, rfl, .fault, #[_], by simp, rfl⟩
  | word w =>
    by_cases hkind : w.kind = .identifier
    · exact .inr ⟨_, _, acceptToken_of_identifier hkind _, rfl, rfl, rfl, rfl, rfl, .name hkind,
        #[], by simp, by simp [note, withRegistry, moveTo]⟩
    · exact .inr ⟨_, _, acceptToken_of_other hkind _, rfl, rfl, rfl, rfl, rfl, .word hkind,
        #[], by simp, by simp [note, moveTo]⟩

/-- **A scan hands out what stands next**, unless that cannot be read or the limit is reached. -/
theorem scan_cases (s : Scanner) :
    (Limits.tokenCount ≤ s.metrics.tokens ∧
        ∃ s', s.scan = (.error (.tokenLimit Limits.tokenCount), s')) ∨
      (∃ message p s', s.glance.sight = .broken message ∧
        s.scan = (.error (.sourceRead message p), s')) ∨
      ∃ t s', s.scan = (.ok t, s') ∧ s.Scanned t s' := by
  unfold scan
  by_cases hlimit : Limits.tokenCount ≤ s.metrics.tokens
  · rw [if_pos hlimit]
    exact .inl ⟨hlimit, _, rfl⟩
  · rw [if_neg hlimit]
    rcases s.scanToken_cases with ⟨message, p, s', hsight, heq⟩ | ⟨t, s', heq, hmetrics, hlexicon,
      hinput, hposition, hstart, hhanded, hfound⟩
    · rw [heq]
      exact .inr (.inl ⟨message, _, _, hsight, rfl⟩)
    · rw [heq]
      refine .inr (.inr ⟨t, _, rfl, ?_⟩)
      obtain ⟨h₁, h₂, h₃, h₄, h₅, h₆⟩ := noteEnd_eq
        { s' with metrics := s'.metrics.record s'.options.detailedMetrics t.value } t.value
      exact
        { within := Nat.not_le.mp hlimit
          counted := by rw [h₁, ← hmetrics]; rfl
          lexicon_eq := h₂.trans hlexicon
          input_eq := h₃.trans hinput
          position_eq := h₄.trans hposition
          start_eq := hstart
          handed := by rw [h₅]; exact hhanded
          reported := by rw [h₆]; exact hfound }

/-- What a scan did that handed out a token. -/
theorem scanned_of_scan {s s' : Scanner} {t : Spanned Token} (h : s.scan = (.ok t, s')) :
    s.Scanned t s' := by
  rcases s.scan_cases with ⟨_, _, heq⟩ | ⟨_, _, _, _, heq⟩ | ⟨t', s'', heq, hscanned⟩
  · cases heq.symm.trans h
  · cases heq.symm.trans h
  · cases heq.symm.trans h
    exact hscanned

/-- What stops a scan: the limit, or a source that breaks off. -/
theorem error_of_scan {s s' : Scanner} {e : LexicalError} (h : s.scan = (.error e, s')) :
    e = .tokenLimit Limits.tokenCount ∨
      ∃ message p, e = .sourceRead message p ∧ s.input.failure = some message := by
  rcases s.scan_cases with ⟨_, _, heq⟩ | ⟨message, p, _, hsight, heq⟩ | ⟨_, _, heq, _⟩
  · cases heq.symm.trans h
    exact .inl rfl
  · cases heq.symm.trans h
    have hprogress := s.glance_progress.2.2
    rw [hsight] at hprogress
    exact .inr ⟨message, p, rfl, hprogress⟩
  · cases heq.symm.trans h

/-- A scan hands out a token below the limit, if the source can be read. -/
theorem exists_scan {s : Scanner} (hlimit : s.metrics.tokens < Limits.tokenCount)
    (hsight : ∀ message, s.glance.sight ≠ .broken message) : ∃ t s', s.scan = (.ok t, s') := by
  rcases s.scan_cases with ⟨hle, _⟩ | ⟨message, _, _, hbroken, _⟩ | ⟨t, s', heq, _⟩
  · omega
  · exact absurd hbroken (hsight message)
  · exact ⟨t, s', heq⟩

/-! ## Scanners that agree -/

/-- **Scanners that agree on what is to come.** Types, notes and diagnostics do not matter. -/
structure Agrees (s s' : Scanner) : Prop where
  lexicon_eq : s'.lexicon = s.lexicon
  input_eq : s'.input = s.input
  position_eq : s'.position = s.position
  tokens_eq : s'.metrics.tokens = s.metrics.tokens
  sameWords : s.registry.SameWords s'.registry

namespace Agrees

/-- Agreement goes both ways. -/
theorem symm {s s' : Scanner} (h : s.Agrees s') : s'.Agrees s where
  lexicon_eq := h.lexicon_eq.symm
  input_eq := h.input_eq.symm
  position_eq := h.position_eq.symm
  tokens_eq := h.tokens_eq.symm
  sameWords := fun lexeme => (h.sameWords lexeme).symm

/-- Scanners that agree see the same. -/
theorem glance_eq {s s' : Scanner} (h : s.Agrees s') : s'.glance = s.glance := by
  unfold glance
  rw [h.lexicon_eq, h.input_eq, h.position_eq]

/-- **Scanners that agree hand out the same words**, and agree afterwards. -/
theorem scan {s s' next : Scanner} {t : Spanned Token} (h : s.Agrees s')
    (hscan : s.scan = (.ok t, next)) :
    ∃ t' next', s'.scan = (.ok t', next') ∧ t'.value.word = t.value.word ∧ next.Agrees next' := by
  have hs := scanned_of_scan hscan
  -- both see the same, so the other one is not broken either
  have hreads : ∀ message, s'.glance.sight ≠ .broken message := by
    intro message hbroken
    rw [h.glance_eq] at hbroken
    cases hbroken ▸ hs.handed
  obtain ⟨t', next', hscan'⟩ := exists_scan (by rw [h.tokens_eq]; exact hs.within) hreads
  have hs' := scanned_of_scan hscan'
  -- only a name depends on the registry, and the registries have the same words
  have hwords : t'.value.word = t.value.word ∧ next.registry.SameWords next'.registry := by
    have hhanded := hs.handed
    have hhanded' := hs'.handed
    rw [h.glance_eq] at hhanded'
    generalize s.glance.sight = sight, t.value = value, t'.value = value', next.registry = entries,
      next'.registry = entries' at hhanded hhanded' ⊢
    cases hhanded with
    | ended =>
      cases hhanded'
      exact ⟨rfl, h.sameWords⟩
    | fault =>
      cases hhanded'
      exact ⟨rfl, h.sameWords⟩
    | name hkind =>
      cases hhanded' with
      | name => exact ⟨(h.sameWords.insert _).1.symm, (h.sameWords.insert _).2⟩
      | word hother => exact absurd hkind hother
    | word hother =>
      cases hhanded' with
      | name hkind => exact absurd hkind hother
      | word => exact ⟨rfl, h.sameWords⟩
  refine ⟨t', next', hscan', hwords.1, ?_⟩
  exact
    { lexicon_eq := by rw [hs'.lexicon_eq, hs.lexicon_eq, h.lexicon_eq]
      input_eq := by rw [hs'.input_eq, hs.input_eq, h.glance_eq, h.input_eq]
      position_eq := by rw [hs'.position_eq, hs.position_eq, h.glance_eq]
      tokens_eq := by rw [hs'.counted, hs.counted, h.tokens_eq]
      sameWords := hwords.2 }

end Agrees

/-! ## The next visible token -/

/-- **What the search for a visible token does**: it passes over comments and errors. -/
inductive Finds : Scanner → Spanned Token → Scanner → Prop
  | here {s s' : Scanner} {t : Spanned Token} (scanned : s.Scanned t s')
      (visible : t.value.kind.isIgnorable = false) : Finds s t s'
  | later {s s' s'' : Scanner} {t u : Spanned Token} (scanned : s.Scanned u s')
      (hidden : u.value.kind.isIgnorable = true) (found : Finds s' t s'') : Finds s t s''

/-- A search among finitely many tokens finds a visible one or is stopped. -/
theorem nextVisibleFrom_cases (n : Nat) (s : Scanner) :
    (∃ t s', s.Finds t s' ∧ nextVisibleFrom n s = (.ok t, s')) ∨
      ∃ e s', nextVisibleFrom n s = (.error e, s') ∧ (e = .tokenLimit Limits.tokenCount ∨
        ∃ message p, e = .sourceRead message p ∧ s.input.failure = some message) := by
  induction n generalizing s with
  | zero => exact .inr ⟨_, _, rfl, .inl rfl⟩
  | succ n ih =>
    rw [nextVisibleFrom]
    rcases hscan : s.scan with ⟨⟨e⟩ | ⟨t⟩, s'⟩
    · exact .inr ⟨e, s', rfl, error_of_scan hscan⟩
    · have hs := scanned_of_scan hscan
      by_cases hhidden : t.value.kind.isIgnorable = true
      · simp only [hhidden, if_true]
        have hfailure : s'.input.failure = s.input.failure := by rw [hs.input_eq]
        rcases ih s' with ⟨u, s'', hfound, heq⟩ | ⟨e, s'', heq, he⟩
        · exact .inl ⟨u, s'', .later hs hhidden hfound, heq⟩
        · exact .inr ⟨e, s'', heq, hfailure ▸ he⟩
      · refine .inl ⟨t, s', .here hs (by simpa using hhidden), ?_⟩
        simp only [hhidden]
        rfl

/-- What a search did that found a visible token. -/
theorem finds_of_nextVisible {s s' : Scanner} {t : Spanned Token}
    (h : s.nextVisible = (.ok t, s')) : s.Finds t s' := by
  rcases s.nextVisibleFrom_cases s.allowance with ⟨u, s'', hfound, heq⟩ | ⟨_, _, heq, _⟩
  · cases heq.symm.trans h
    exact hfound
  · cases heq.symm.trans h

/-- What stops a search: the limit, or a source that breaks off. -/
theorem error_of_nextVisible {s s' : Scanner} {e : LexicalError}
    (h : s.nextVisible = (.error e, s')) :
    e = .tokenLimit Limits.tokenCount ∨
      ∃ message p, e = .sourceRead message p ∧ s.input.failure = some message := by
  rcases s.nextVisibleFrom_cases s.allowance with ⟨_, _, _, heq⟩ | ⟨_, _, heq, he⟩
  · cases heq.symm.trans h
  · cases heq.symm.trans h
    exact he

/-- A scan that hands out a token uses up one of those allowed. -/
theorem allowance_of_scan {s s' : Scanner} {t : Spanned Token} (h : s.scan = (.ok t, s')) :
    s.allowance = s'.allowance + 1 := by
  have hs := scanned_of_scan h
  have := hs.within
  have := hs.counted
  unfold allowance
  omega

/-- A search begins with a scan. -/
theorem nextVisible_of_scan {s s' : Scanner} {t : Spanned Token} (h : s.scan = (.ok t, s')) :
    s.nextVisible = if t.value.kind.isIgnorable then s'.nextVisible else (.ok t, s') := by
  rw [nextVisible, allowance_of_scan h, nextVisibleFrom, h]
  rfl

end Scanner

end Mgol
