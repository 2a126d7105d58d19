import Mgol.Proofs.Scanner.Spelling
import Mathlib.Algebra.GroupWithZero.Nat
import Mathlib.Data.List.Induction

/-! # What a scanner has handed out

The counters of a scanner, read off the tokens that it has handed out so far.

* **`LexicalMetrics.recordAll`** — counts one token after the other, and what each counter then
  holds.
* **`Scanner.HandsOut`** — the tokens that lead from one scanner to another, while its session may
  be lent to somebody else in between.
* **`Scanner.HandsOut.metrics_eq`, `Scanner.HandsOut.size_diagnostics`** — the counters of a scanner
  count these tokens, and every error among them has a diagnostic. -/

namespace Mgol

/-! ## Counting tokens -/

namespace LexicalMetrics

/-- Counting a class adds one to the sum of all counts. -/
theorem sum_countClass (kind : TokenClass) (counts : List (TokenClass × Nat)) :
    ((countClass kind counts).map Prod.snd).sum = (counts.map Prod.snd).sum + 1 := by
  induction counts with
  | nil => rfl
  | cons entry counts ih =>
    obtain ⟨k, n⟩ := entry
    rw [countClass]
    split
    · simp only [List.map_cons, List.sum_cons]
      omega
    · rw [List.map_cons, List.sum_cons, ih, List.map_cons, List.sum_cons, Nat.add_assoc]

/-- **Counts one token after the other.** -/
def recordAll (m : LexicalMetrics) (detailed : Bool) (tokens : List Token) : LexicalMetrics :=
  tokens.foldl (fun m t => m.record detailed t) m

/-- The last token is counted last. -/
theorem recordAll_concat (m : LexicalMetrics) (detailed : Bool) (tokens : List Token) (t : Token) :
    m.recordAll detailed (tokens ++ [t]) = (m.recordAll detailed tokens).record detailed t := by
  rw [recordAll, List.foldl_append]
  rfl

/-- What the counters hold: how many tokens, comments and errors there were. -/
theorem counts_recordAll (m : LexicalMetrics) (detailed : Bool) (tokens : List Token) :
    (m.recordAll detailed tokens).tokens = m.tokens + tokens.length ∧
      (m.recordAll detailed tokens).comments =
        m.comments + tokens.countP (·.kind = .comment) ∧
      (m.recordAll detailed tokens).errors = m.errors + tokens.countP (·.kind = .error) := by
  induction tokens using List.reverseRecOn with
  | nil => exact ⟨rfl, rfl, rfl⟩
  | append_singleton tokens t ih =>
    obtain ⟨htokens, hcomments, herrors⟩ := ih
    rw [recordAll_concat, record]
    simp only [List.length_append, List.length_singleton, List.countP_append,
      List.countP_singleton, decide_eq_true_eq]
    refine ⟨by omega, ?_, ?_⟩
    · split <;> omega
    · split <;> omega

/-- The counts by class add up to all tokens. -/
theorem sum_recordAll (m : LexicalMetrics) (tokens : List Token) :
    ((m.recordAll true tokens).byClass.map Prod.snd).sum =
      (m.byClass.map Prod.snd).sum + tokens.length := by
  induction tokens using List.reverseRecOn with
  | nil => rfl
  | append_singleton tokens t ih =>
    rw [recordAll_concat, record, if_pos rfl, sum_countClass, ih, List.length_append,
      List.length_singleton, Nat.add_assoc]

end LexicalMetrics

/-- Every token is a comment, an error, or one that the grammar can see. -/
theorem length_eq_countP_kinds (tokens : List Token) :
    tokens.length = tokens.countP (fun t => !t.kind.isIgnorable) +
      tokens.countP (·.kind = .comment) + tokens.countP (·.kind = .error) := by
  induction tokens with
  | nil => rfl
  | cons t tokens ih =>
    simp only [List.length_cons, List.countP_cons, ih]
    cases t.kind <;> simp [TokenClass.isIgnorable] <;> omega

/-! ## Scans -/

namespace Scanner

/-- Noting the end of the file changes no option. -/
theorem options_noteEnd (s : Scanner) (t : Token) : (s.noteEnd t).options = s.options := by
  unfold noteEnd
  split <;> rfl

/-- A word of MGol is never handed out as an error. -/
theorem Fluent.kind_ne_error {s : Scanner} (hs : s.Fluent) {w : Token}
    (h : s.glance.sight = .word w) : w.kind ≠ .error ∧ (s.registry.insert w).1.kind ≠ .error := by
  have hword : w.kind ≠ .error := by
    unfold glance at h
    simp only [hs.lexicon_eq] at h
    obtain ⟨q, lexeme, _, haccept⟩ := Lexicon.run_of_glance h
    have hclasses : ∀ e ∈ Lexicon.mgolClasses, e.2 ≠ .error := by decide
    exact hclasses _ (Lexicon.class_of_accept haccept).1
  refine ⟨hword, ?_⟩
  rw [Registry.insert_fst]
  cases hold : s.registry.get? w.lexeme with
  | none => exact hword
  | some entry =>
    intro herror
    rcases hs.plain _ _ hold with hname | ⟨word, hkeyword, _⟩
    · cases hname.symm.trans herror
    · cases hkeyword.symm.trans herror

/-- What is told of a sight is reported if it is an error, and not counted yet. -/
theorem Fluent.told {s s' : Scanner} (hs : s.Fluent) {t : Spanned Token}
    (h : s.scanToken = (.ok t, s')) :
    s'.options = s.options ∧ s'.metrics = s.metrics ∧
      s'.diagnostics.size = s.diagnostics.size + if t.value.kind = .error then 1 else 0 := by
  rw [scanToken_eq] at h
  cases hsight : s.glance.sight with
  | broken message =>
    rw [hsight] at h
    cases h
  | ended =>
    rw [hsight] at h
    obtain ⟨ht, rfl⟩ := Prod.mk.inj h
    obtain rfl := Except.ok.inj ht
    exact ⟨rfl, rfl, rfl⟩
  | fault f bytes =>
    rw [hsight] at h
    obtain ⟨ht, rfl⟩ := Prod.mk.inj h
    obtain rfl := Except.ok.inj ht
    exact ⟨rfl, rfl, Array.size_push _⟩
  | word w =>
    obtain ⟨hword, hentry⟩ := hs.kind_ne_error hsight
    rw [hsight, tell] at h
    -- a name is handed out by its entry, and anything else as it is
    by_cases hkind : w.kind = .identifier
    · rw [acceptToken_of_identifier hkind] at h
      obtain ⟨ht, rfl⟩ := Prod.mk.inj h
      obtain rfl := Except.ok.inj ht
      refine ⟨rfl, rfl, ?_⟩
      change _ = s.diagnostics.size + if (s.registry.insert w).1.kind = .error then 1 else 0
      rw [if_neg hentry]
      rfl
    · rw [acceptToken_of_other hkind] at h
      obtain ⟨ht, rfl⟩ := Prod.mk.inj h
      obtain rfl := Except.ok.inj ht
      refine ⟨rfl, rfl, ?_⟩
      change _ = s.diagnostics.size + if w.kind = .error then 1 else 0
      rw [if_neg hword]
      rfl

/-- **A scan counts what it hands out**, and reports it if it is an error. -/
theorem Fluent.counted {s s' : Scanner} (hs : s.Fluent) {t : Spanned Token}
    (h : s.scan = (.ok t, s')) :
    s'.options = s.options ∧ s'.metrics = s.metrics.record s.options.detailedMetrics t.value ∧
      s'.diagnostics.size = s.diagnostics.size + if t.value.kind = .error then 1 else 0 := by
  unfold scan at h
  split at h
  · cases h
  · rcases htold : s.scanToken with ⟨⟨e⟩ | ⟨u⟩, next⟩
    · rw [htold] at h
      cases h
    · rw [htold] at h
      obtain ⟨hu, rfl⟩ := Prod.mk.inj h
      obtain rfl := Except.ok.inj hu
      obtain ⟨hoptions, hmetrics, hsize⟩ := hs.told htold
      -- the end of the file is only noted
      obtain ⟨hcounters, _, _, _, _, hdiagnostics⟩ := noteEnd_eq
        { next with metrics := next.metrics.record next.options.detailedMetrics u.value } u.value
      refine ⟨?_, ?_, ?_⟩
      · rw [options_noteEnd, hoptions]
      · rw [hcounters, hmetrics, hoptions]
      · rw [hdiagnostics, hsize]

/-! ## Histories -/

/-- **The tokens handed out on the way from one scanner to another.** Between two scans the session
may be lent to somebody who changes notes and types. -/
inductive HandsOut (begin : Scanner) : List Token → Scanner → Prop
  | start : HandsOut begin [] begin
  | scan {tokens : List Token} {s s' : Scanner} {t : Spanned Token}
      (before : HandsOut begin tokens s) (scanned : s.scan = (.ok t, s')) :
      HandsOut begin (tokens ++ [t.value]) s'
  | lend {tokens : List Token} {s : Scanner} {session : Session} (before : HandsOut begin tokens s)
      (sameWords : s.registry.SameWords session.registry) :
      HandsOut begin tokens { s with session }

namespace HandsOut

variable {begin s s' : Scanner} {tokens : List Token}

/-- A scanner with other notes has handed out the same. -/
theorem withJournal (h : begin.HandsOut tokens s) (journal : Journal) :
    begin.HandsOut tokens { s with session := { s.session with journal } } :=
  .lend h (.refl _)

/-- A scanner of MGol stays one. -/
theorem fluent (h : begin.HandsOut tokens s) (hbegin : begin.Fluent) : s.Fluent := by
  induction h with
  | start => exact hbegin
  | scan _ scanned ih => exact ((scanned_of_scan scanned).fluent ih).1
  | lend _ sameWords ih =>
    exact ⟨ih.lexicon_eq, ih.sound.of_sameWords sameWords, ih.plain.of_sameWords sameWords⟩

/-- **The counters count what was handed out.** -/
theorem metrics_eq (h : begin.HandsOut tokens s) (hbegin : begin.Fluent) :
    s.options = begin.options ∧
      s.metrics = begin.metrics.recordAll begin.options.detailedMetrics tokens := by
  induction h with
  | start => exact ⟨rfl, rfl⟩
  | scan before scanned ih =>
    obtain ⟨hoptions, hmetrics⟩ := ih
    obtain ⟨hkept, hcounted, _⟩ := (before.fluent hbegin).counted scanned
    refine ⟨hkept.trans hoptions, ?_⟩
    rw [hcounted, hoptions, hmetrics, LexicalMetrics.recordAll_concat]
  | lend _ _ ih => exact ih

/-- **Every error that was handed out has its diagnostic.** -/
theorem size_diagnostics (h : begin.HandsOut tokens s) (hbegin : begin.Fluent) :
    s.diagnostics.size = begin.diagnostics.size + tokens.countP (·.kind = .error) := by
  induction h with
  | start => rfl
  | scan before scanned ih =>
    obtain ⟨_, _, hsize⟩ := (before.fluent hbegin).counted scanned
    rw [hsize, ih, List.countP_append, List.countP_singleton, Nat.add_assoc]
    simp only [decide_eq_true_eq]
  | lend _ _ ih => exact ih

/-- **A search for a visible token hands out one that the grammar can see**, behind some that it
cannot. -/
theorem nextVisible {t : Spanned Token} (h : begin.HandsOut tokens s)
    (found : s.nextVisible = (.ok t, s')) :
    ∃ more, begin.HandsOut (tokens ++ more) s' ∧
      more.countP (fun u => !u.kind.isIgnorable) = 1 := by
  unfold Scanner.nextVisible at found
  generalize s.allowance = n at found
  induction n generalizing s tokens with
  | zero => cases found
  | succ n ih =>
    rw [nextVisibleFrom] at found
    rcases hscan : s.scan with ⟨⟨e⟩ | ⟨u⟩, next⟩
    · rw [hscan] at found
      cases found
    · rw [hscan] at found
      simp only at found
      by_cases hhidden : u.value.kind.isIgnorable = true
      · rw [if_pos hhidden] at found
        obtain ⟨more, hmore, hcount⟩ := ih (h.scan hscan) found
        refine ⟨u.value :: more, by simpa using hmore, ?_⟩
        rw [List.countP_cons_of_neg (by simp [hhidden]), hcount]
      · rw [if_neg hhidden] at found
        obtain ⟨_, rfl⟩ := Prod.mk.inj found
        refine ⟨[u.value], h.scan hscan, ?_⟩
        rw [List.countP_singleton, if_pos (by simp [hhidden])]

end HandsOut

end Scanner

end Mgol
