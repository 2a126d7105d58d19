import Mgol.Proofs.Parser.Moves
import Mgol.Proofs.Scanner.Spelling
import Mathlib.Data.List.TakeWhile

/-! # What a recovery does

A recovery looks at the tokens ahead one after the other. It goes on with the first one that some
state of the stack can go on with, and cuts the stacks as little as that allows; it gives up where
it would have to drop the end of the file, or one token too many.

* **`Scanner.Offers`, `ParseState.Awaits`** — the tokens ahead, up to the end of the file.
* **`ParseState.MustDrop`, `ParseState.ResumesAt`** — the tokens that have to be dropped, and the
  token to go on with.
* **`ParseState.Resumed`** — what a recovery leaves that goes on.
* **`ParseState.recover_exactly`** — when a recovery goes on, and when it gives up. -/

namespace Mgol

/-- The tokens that the grammar can see. -/
def shownOf (tokens : List (Spanned Token)) : List (Spanned Token) :=
  tokens.filter fun t => !t.value.kind.isIgnorable

namespace Scanner

/-! ## Notes do not matter -/

variable {s s' : Scanner} {t : Spanned Token}

/-- What is told of a sight depends on notes in its notes only. -/
theorem tell_withJournal (s : Scanner) (j : Journal) (start : Position) (sight : Sight) :
    ∃ j', (s.withJournal j).tell start sight =
      ((s.tell start sight).1, (s.tell start sight).2.withJournal j') := by
  cases sight with
  | broken message => exact ⟨_, rfl⟩
  | ended => exact ⟨j, rfl⟩
  | fault f bytes => exact ⟨_, rfl⟩
  | word w =>
    simp only [tell]
    by_cases hkind : w.kind = .identifier
    · rw [acceptToken_of_identifier hkind, acceptToken_of_identifier hkind]
      exact ⟨_, rfl⟩
    · rw [acceptToken_of_other hkind, acceptToken_of_other hkind]
      exact ⟨_, rfl⟩

/-- Noting the end of the file depends on notes in its notes only. -/
theorem noteEnd_withJournal (s : Scanner) (t : Token) (j : Journal) :
    ∃ j', (s.withJournal j).noteEnd t = (s.noteEnd t).withJournal j' := by
  have hended : (s.withJournal j).reachedEnd = s.reachedEnd := rfl
  unfold noteEnd
  rw [hended]
  split
  · exact ⟨_, rfl⟩
  · exact ⟨j, rfl⟩

/-- **A scan gives the same token** whatever was noted before. -/
theorem scan_withJournal (s : Scanner) (j : Journal) :
    ∃ j', (s.withJournal j).scan = (s.scan.1, s.scan.2.withJournal j') := by
  unfold scan
  by_cases hlimit : Limits.tokenCount ≤ s.metrics.tokens
  · rw [if_pos hlimit,
      if_pos (show Limits.tokenCount ≤ (s.withJournal j).metrics.tokens from hlimit)]
    exact ⟨_, rfl⟩
  · rw [if_neg hlimit,
      if_neg (show ¬Limits.tokenCount ≤ (s.withJournal j).metrics.tokens from hlimit),
      scanToken_eq, scanToken_eq]
    obtain ⟨j', htell⟩ := tell_withJournal (s.moveTo s.glance.stop s.glance.rest) j
      s.glance.start s.glance.sight
    have hmoved : ((s.withJournal j).moveTo (s.withJournal j).glance.stop
        (s.withJournal j).glance.rest).tell (s.withJournal j).glance.start
        (s.withJournal j).glance.sight =
        ((s.moveTo s.glance.stop s.glance.rest).withJournal j).tell s.glance.start
          s.glance.sight := rfl
    rw [hmoved, htell]
    rcases (s.moveTo s.glance.stop s.glance.rest).tell s.glance.start s.glance.sight with
      ⟨⟨e⟩ | ⟨t⟩, next⟩
    · exact ⟨j', rfl⟩
    · obtain ⟨j'', hend⟩ := noteEnd_withJournal
        { next with metrics := next.metrics.record next.options.detailedMetrics t.value } t.value j'
      exact ⟨j'', congrArg (Prod.mk (Except.ok t)) hend⟩

/-- **The search for a visible token finds the same one** whatever was noted before. -/
theorem nextVisible_withJournal (s : Scanner) (j : Journal) :
    ∃ j', (s.withJournal j).nextVisible = (s.nextVisible.1, s.nextVisible.2.withJournal j') := by
  have hallowance : (s.withJournal j).allowance = s.allowance := rfl
  unfold nextVisible
  rw [hallowance]
  generalize s.allowance = n
  induction n generalizing s j with
  | zero => exact ⟨_, rfl⟩
  | succ n ih =>
    obtain ⟨j', hscan⟩ := s.scan_withJournal j
    rw [nextVisibleFrom, nextVisibleFrom, hscan]
    rcases s.scan with ⟨⟨e⟩ | ⟨t⟩, next⟩
    · exact ⟨j', rfl⟩
    · simp only
      split
      · exact ih next j' rfl
      · exact ⟨j', rfl⟩

/-! ## The tokens ahead -/

/-- **The tokens that a scanner offers to the grammar**, up to the end of the file. -/
inductive Offers : Scanner → List (Spanned Token) → Prop
  | last {s s' : Scanner} {t : Spanned Token} (found : s.nextVisible = (.ok t, s'))
      (ended : t.value.isEndOfFile = true) : Offers s [t]
  | more {s s' : Scanner} {t : Spanned Token} {tokens : List (Spanned Token)}
      (found : s.nextVisible = (.ok t, s')) (going : t.value.isEndOfFile = false)
      (rest : Offers s' tokens) : Offers s (t :: tokens)

/-- Notes do not change what a scanner offers. -/
theorem Offers.withJournal {tokens : List (Spanned Token)} (h : s.Offers tokens) (j : Journal) :
    (s.withJournal j).Offers tokens := by
  induction h generalizing j with
  | @last s s' t found ended =>
    obtain ⟨j', heq⟩ := s.nextVisible_withJournal j
    rw [found] at heq
    exact .last heq ended
  | @more s s' t tokens found going _ ih =>
    obtain ⟨j', heq⟩ := s.nextVisible_withJournal j
    rw [found] at heq
    exact .more heq going (ih j')

/-- A token that is passed over is not offered. -/
theorem Offers.of_hidden {tokens : List (Spanned Token)} (h : s'.Offers tokens)
    (hscan : s.scan = (.ok t, s')) (hidden : t.value.kind.isIgnorable = true) :
    s.Offers tokens := by
  have hnext : s.nextVisible = s'.nextVisible := by
    rw [nextVisible_of_scan hscan, if_pos hidden]
  cases h with
  | last found ended => exact .last (hnext.trans found) ended
  | more found going rest => exact .more (hnext.trans found) going rest

/-- **A source that scans without an error** offers its visible tokens. -/
theorem offers_of_scanAll {tokens : Array (Spanned Token)} (h : s.scanAll.1 = .ok tokens) :
    s.Offers (shownOf tokens.toList) := by
  -- the tokens behind those that were found already
  have hfrom : ∀ (n : Nat) (s : Scanner) (found : Array (Spanned Token)),
      (scanAllFrom n found s).1 = .ok tokens →
        ∃ more, tokens.toList = found.toList ++ more ∧ s.Offers (shownOf more) := by
    intro n
    induction n with
    | zero => exact fun s found h => by cases h
    | succ n ih =>
      intro s found h
      rw [scanAllFrom] at h
      rcases hscan : s.scan with ⟨⟨e⟩ | ⟨t⟩, next⟩
      · rw [hscan] at h
        cases h
      · rw [hscan] at h
        simp only at h
        by_cases hend : t.value.isEndOfFile = true
        · rw [if_pos hend] at h
          obtain rfl := Except.ok.inj h
          have hvisible : t.value.kind.isIgnorable = false := by
            rw [show t.value = .endOfFile by simpa [Token.isEndOfFile] using hend]
            rfl
          refine ⟨[t], by simp, ?_⟩
          have hfound : s.nextVisible = (.ok t, next) := by
            rw [nextVisible_of_scan hscan, hvisible]
            rfl
          simpa [shownOf, hvisible] using Offers.last hfound hend
        · rw [if_neg hend] at h
          obtain ⟨more, htokens, hoffers⟩ := ih next (found.push t) h
          refine ⟨t :: more, by simpa using htokens, ?_⟩
          by_cases hhidden : t.value.kind.isIgnorable = true
          · simpa [shownOf, hhidden] using hoffers.of_hidden hscan hhidden
          · have hfound : s.nextVisible = (.ok t, next) := by
              rw [nextVisible_of_scan hscan, if_neg hhidden]
            simpa [shownOf, hhidden] using
              Offers.more hfound (Bool.eq_false_iff.mpr hend) hoffers
  obtain ⟨more, htokens, hoffers⟩ := hfrom s.allowance s #[] h
  rw [show tokens.toList = more by simpa using htokens]
  exact hoffers

end Scanner

namespace ParseState

variable {tables : DecisionTables} {p q p' : ParseState} {t u : Spanned Token}
  {tokens dropped later : List (Spanned Token)}

/-- **The tokens that a parser awaits**, up to the end of the file: its lookahead, and what the
scanner offers. -/
inductive Awaits (p : ParseState) : List (Spanned Token) → Prop
  | last (ended : p.lookahead.value.isEndOfFile = true) : Awaits p [p.lookahead]
  | more {tokens : List (Spanned Token)} (going : p.lookahead.value.isEndOfFile = false)
      (rest : p.scanner.Offers tokens) : Awaits p (p.lookahead :: tokens)

/-- The lookahead comes first. -/
theorem Awaits.lookahead_eq (h : p.Awaits (t :: tokens)) : p.lookahead = t := by
  cases h <;> rfl

/-- Only the last token awaited is the end of the file. -/
theorem Awaits.going (h : p.Awaits (t :: u :: tokens)) :
    p.lookahead.value.isEndOfFile = false := by
  cases h
  assumption

/-- Notes do not change what is awaited. -/
theorem Awaits.of_note (h : p.Awaits tokens) {j : Journal}
    (hlookahead : q.lookahead = p.lookahead) (hscanner : q.scanner = p.scanner.withJournal j) :
    q.Awaits tokens := by
  cases h with
  | last ended => exact hlookahead ▸ .last (hlookahead.symm ▸ ended)
  | more going rest =>
    exact hlookahead ▸ .more (hlookahead.symm ▸ going) (hscanner ▸ rest.withJournal j)

/-- **What dropping the lookahead leaves**: everything but the scanner, and one more token is
counted. -/
structure Skips (p q : ParseState) : Prop where
  states_eq : q.states = p.states
  executor_eq : q.executor = p.executor
  told_eq : q.trigger = p.trigger ∧ q.diagnostics = p.diagnostics ∧ q.history = p.history
  metrics_eq : q.metrics = { p.metrics with discarded := p.metrics.discarded + 1 }

/-- **The next token is looked at** after the lookahead was dropped. -/
theorem Awaits.fetch (h : p.Awaits (t :: tokens))
    (hmore : p.lookahead.value.isEndOfFile = false) :
    ∃ v q, p.dropLookahead.fetch = (.ok v, q) ∧ q.Awaits tokens ∧ p.Skips q := by
  cases h with
  | last ended => exact absurd (ended.symm.trans hmore) (by decide)
  | more _ rest =>
    rcases fetch_dropLookahead hmore with ⟨v, q, hfetch, hdrops⟩ | ⟨e, q, _, j, e', s, hstuck, _⟩
    · refine ⟨v, q, hfetch, ?_⟩
      cases hdrops with
      | @drop j v s _ found =>
        refine ⟨?_, rfl, rfl, ⟨rfl, rfl, rfl⟩, rfl⟩
        cases rest.withJournal j with
        | last found' ended =>
          obtain ⟨hv, rfl⟩ := Prod.mk.inj (found.symm.trans found')
          obtain rfl := Except.ok.inj hv
          exact .last ended
        | more found' going offers =>
          obtain ⟨hv, rfl⟩ := Prod.mk.inj (found.symm.trans found')
          obtain rfl := Except.ok.inj hv
          exact .more going offers
    · cases rest.withJournal j with
      | last found => cases hstuck.symm.trans found
      | more found => cases hstuck.symm.trans found

/-! ## Where a recovery goes on -/

/-- Some state of the stack can go on with a token. -/
def CanResume (tables : DecisionTables) (p : ParseState) (t : Spanned Token) : Prop :=
  ∃ state ∈ p.states.items, tables.hasAction state t.value.terminalName = true

/-- Dropping the lookahead leaves the states that can go on. -/
theorem Skips.canResume_iff (h : p.Skips q) : q.CanResume tables t ↔ p.CanResume tables t := by
  unfold CanResume
  rw [h.states_eq]

/-- **Tokens that a recovery has to drop**: the first ones awaited, if no state can go on with any
of them; a lookahead that is discarded anyway counts as one. -/
structure MustDrop (tables : DecisionTables) (p : ParseState) (discard : Bool)
    (tokens dropped : List (Spanned Token)) : Prop where
  first : dropped <+: tokens
  hopeless : ∀ t ∈ dropped.drop discard.toNat, ¬p.CanResume tables t

/-- **The token to go on with** is the first one examined that some state can go on with, if not
too many have to be dropped before. -/
structure ResumesAt (tables : DecisionTables) (p : ParseState) (discard : Bool)
    (tokens dropped : List (Spanned Token)) (u : Spanned Token) (later : List (Spanned Token)) :
    Prop where
  split : tokens = dropped ++ u :: later
  mustDrop : p.MustDrop tables discard tokens dropped
  examined : discard = true → dropped ≠ []
  canResume : p.CanResume tables u
  within : dropped.length ≤ Limits.recoveryScans

/-- **What a recovery leaves** that goes on with `u` after some tokens were dropped: the longest
lower part of the stack whose top can go on, one value fewer than states, and the counts. -/
structure Resumed (tables : DecisionTables) (p : ParseState) (dropped : List (Spanned Token))
    (u : Spanned Token) (later : List (Spanned Token)) (p' : ParseState) : Prop where
  awaits : p'.Awaits (u :: later)
  states_first : p'.states.toList <+: p.states.toList
  viable : ∃ state, p'.states.top? = some state ∧
    tables.hasAction state u.value.terminalName = true
  longest : ∀ lower state, lower <+: p.states.toList → lower.getLast? = some state →
    tables.hasAction state u.value.terminalName = true → lower <+: p'.states.toList
  values_first : p'.executor.values.toList <+: p.executor.values.toList
  values_length : p'.states.toList.length = p'.executor.values.toList.length + 1
  metrics_eq : p'.metrics =
    { p.metrics with
      recoveries := p.metrics.recoveries + 1
      discarded := p.metrics.discarded + dropped.length }
  capacity_eq : p'.states.capacity = p.states.capacity ∧
    p'.executor.values.capacity = p.executor.values.capacity
  work_eq : p'.executor.actions = p.executor.actions ∧ p'.executor.work = p.executor.work
  told_eq : p'.trigger = p.trigger ∧ p'.diagnostics = p.diagnostics ∧ p'.history = p.history

/-- No state is left where none can go on. -/
theorem viableStates_eq_nil_iff {a : GrammarSymbol} {states : List Nat} :
    viableStates tables a states = [] ↔ ∀ state ∈ states, tables.hasAction state a = false := by
  simp [viableStates, List.dropWhile_eq_nil_iff]

/-- The states above those left can not go on, the topmost of those left can. -/
theorem viableStates_eq_cons {a : GrammarSymbol} {states below : List Nat} {state : Nat}
    (h : viableStates tables a states = state :: below) :
    tables.hasAction state a = true ∧ ∃ above, states = above ++ state :: below ∧
      ∀ s ∈ above, tables.hasAction s a = false := by
  unfold viableStates at h
  refine ⟨?_, states.takeWhile fun s => !tables.hasAction s a, ?_, ?_⟩
  · have hhead := List.head?_dropWhile_not (fun s => !tables.hasAction s a) states
    rw [h] at hhead
    simpa using hhead
  · rw [← h, List.takeWhile_append_dropWhile]
  · intro s hs
    simpa using List.mem_takeWhile_imp hs

/-- Below states that can not go on, no lower part of a stack whose top can go on is longer. -/
theorem prefix_of_viable {a : GrammarSymbol} {above below lower : List Nat} {state top : Nat}
    (habove : ∀ s ∈ above, tables.hasAction s a = false)
    (hlower : lower <+: (above ++ state :: below).reverse) (htop : lower.getLast? = some top)
    (haction : tables.hasAction top a = true) : lower <+: (state :: below).reverse := by
  rw [List.reverse_append] at hlower
  rcases List.prefix_or_prefix_of_prefix hlower (List.prefix_append _ _) with h | ⟨extra, rfl⟩
  · exact h
  -- a longer part would have its top among the states above
  · rcases List.eq_nil_or_concat extra with rfl | ⟨front, last, rfl⟩
    · simp
    · have hextra := (List.prefix_append_right_inj _).mp hlower
      rw [List.concat_eq_append] at htop hextra
      rw [← List.append_assoc, List.getLast?_concat] at htop
      obtain rfl := Option.some.inj htop
      have hmem : last ∈ above :=
        List.mem_reverse.mp (hextra.subset (List.mem_append_right front (by simp)))
      rw [habove last hmem] at haction
      cases haction

/-- The lookahead is no place to go on if no state can go on with it. -/
theorem resynchronize?_eq_none (h : ¬p.CanResume tables p.lookahead) (n : Nat) :
    p.resynchronize? tables n = none := by
  have hviable : viableStates tables p.lookahead.value.terminalName p.states.items = [] :=
    viableStates_eq_nil_iff.mpr fun state hstate =>
      Bool.eq_false_iff.mpr fun haction => h ⟨state, hstate, haction⟩
  rw [resynchronize?, hviable]

/-- **The stacks are cut** to the longest lower part whose top can go on with the lookahead. -/
theorem resynchronize?_eq_some (h : p.CanResume tables p.lookahead)
    (hvalues : p.states.items.length = p.executor.values.items.length + 1)
    (hawaits : p.Awaits (p.lookahead :: later)) (n : Nat) :
    ∃ p', p.resynchronize? tables n = some p' ∧ p.Resumed tables [] p.lookahead later p' := by
  rw [resynchronize?]
  cases hviable : viableStates tables p.lookahead.value.terminalName p.states.items with
  | nil =>
    obtain ⟨state, hmem, haction⟩ := h
    exact absurd haction (Bool.eq_false_iff.mp (viableStates_eq_nil_iff.mp hviable state hmem))
  | cons state below =>
    obtain ⟨hstate, above, hitems, habove⟩ := viableStates_eq_cons hviable
    have hlength : above.length + below.length = p.executor.values.items.length := by
      rw [hitems, List.length_append, List.length_cons] at hvalues
      omega
    have hcut : p.executor.values.items.length - below.length = above.length := by omega
    refine ⟨_, rfl, ?_⟩
    exact
      { awaits := hawaits.of_note rfl rfl
        states_first :=
          ⟨above.reverse, by simp [Stack.toList, note, Stack.withItems, hitems]⟩
        viable := ⟨state, rfl, hstate⟩
        longest := fun lower top hlower htop haction => by
          rw [Stack.toList, hitems] at hlower
          exact prefix_of_viable habove hlower htop haction
        values_first :=
          ⟨(p.executor.values.items.take above.length).reverse, by
            simp [Stack.toList, note, Executor.truncate, hcut, ← List.reverse_append]⟩
        values_length := by
          simp only [Stack.toList, note, Executor.truncate, Stack.withItems, Stack.items_truncate,
            List.length_reverse, List.length_cons, List.length_drop]
          omega
        metrics_eq := rfl
        capacity_eq := ⟨rfl, rfl⟩
        work_eq := ⟨rfl, rfl⟩
        told_eq := ⟨rfl, rfl, rfl⟩ }

/-- What a recovery leaves that drops the lookahead first. -/
theorem Resumed.head (h : q.Resumed tables dropped u later p') (hskips : p.Skips q) :
    p.Resumed tables (t :: dropped) u later p' where
  awaits := h.awaits
  states_first := hskips.states_eq ▸ h.states_first
  viable := h.viable
  longest := hskips.states_eq ▸ h.longest
  values_first := hskips.executor_eq ▸ h.values_first
  values_length := h.values_length
  metrics_eq := by
    rw [h.metrics_eq, hskips.metrics_eq, List.length_cons, Nat.add_assoc, Nat.add_comm 1]
  capacity_eq := by
    rw [← hskips.states_eq, ← hskips.executor_eq]
    exact h.capacity_eq
  work_eq := by
    rw [← hskips.executor_eq]
    exact h.work_eq
  told_eq := by
    obtain ⟨htrigger, hdiagnostics, hhistory⟩ := hskips.told_eq
    rw [← htrigger, ← hdiagnostics, ← hhistory]
    exact h.told_eq

/-! ## The search -/

/-- A search that may drop enough tokens goes on with the first one that a state can go on with. -/
theorem search_resumes {n : Nat} (hawaits : p.Awaits (dropped ++ u :: later))
    (hvalues : p.states.items.length = p.executor.values.items.length + 1)
    (hopeless : ∀ t ∈ dropped, ¬p.CanResume tables t) (hu : p.CanResume tables u)
    (hwithin : dropped.length ≤ n) :
    ∃ p', search tables n p = .resumed p' ∧ p.Resumed tables dropped u later p' := by
  induction dropped generalizing p n with
  | nil =>
    obtain rfl := hawaits.lookahead_eq
    cases n with
    | zero =>
      obtain ⟨p', hsync, hresumed⟩ :=
        resynchronize?_eq_some hu hvalues hawaits Limits.recoveryScans
      exact ⟨p', by rw [search, hsync], hresumed⟩
    | succ n =>
      obtain ⟨p', hsync, hresumed⟩ :=
        resynchronize?_eq_some hu hvalues hawaits (Limits.recoveryScans - (n + 1))
      exact ⟨p', by rw [search, hsync], hresumed⟩
  | cons t dropped ih =>
    obtain ⟨ht, hrest⟩ := List.forall_mem_cons.mp hopeless
    obtain ⟨n, rfl⟩ : ∃ m, n = m + 1 := ⟨n - 1, by simp only [List.length_cons] at hwithin; omega⟩
    obtain rfl := hawaits.lookahead_eq
    -- more tokens follow, so the lookahead is not the end of the file
    have hmore : p.lookahead.value.isEndOfFile = false := by
      cases dropped <;> exact hawaits.going
    obtain ⟨v, q, hfetch, hq, hskips⟩ := hawaits.fetch hmore
    obtain ⟨p', hsearch, hresumed⟩ := ih hq
      (by rw [hskips.states_eq, hskips.executor_eq]; exact hvalues)
      (fun t ht => mt hskips.canResume_iff.mp (hrest t ht)) (hskips.canResume_iff.mpr hu)
      (Nat.le_of_succ_le_succ hwithin)
    refine ⟨p', ?_, hresumed.head hskips⟩
    rw [search, resynchronize?_eq_none ht]
    simp only [hmore, hfetch]
    exact hsearch

/-- A search gives up that would have to drop the end of the file, or one token too many. The
stacks are then as they were. -/
theorem search_exhausted {n : Nat} (hawaits : p.Awaits tokens) (hfirst : dropped <+: tokens)
    (hopeless : ∀ t ∈ dropped, ¬p.CanResume tables t)
    (hlimit : (∃ t ∈ dropped, t.value.isEndOfFile = true) ∨ n < dropped.length) :
    ∃ p', search tables n p = .exhausted p' ∧ p'.states = p.states ∧
      p'.executor = p.executor := by
  induction dropped generalizing p n tokens with
  | nil => simp at hlimit
  | cons t dropped ih =>
    obtain ⟨ht, hrest⟩ := List.forall_mem_cons.mp hopeless
    obtain ⟨more, rfl⟩ := hfirst
    obtain rfl := hawaits.lookahead_eq
    cases n with
    | zero => exact ⟨p, by rw [search, resynchronize?_eq_none ht], rfl, rfl⟩
    | succ n =>
      rw [search, resynchronize?_eq_none ht]
      by_cases hend : p.lookahead.value.isEndOfFile = true
      · simp only [if_pos hend]
        exact ⟨p, rfl, rfl, rfl⟩
      · simp only [if_neg hend]
        obtain ⟨v, q, hfetch, hq, hskips⟩ := hawaits.fetch (Bool.eq_false_iff.mpr hend)
        have hlimit : (∃ t ∈ dropped, t.value.isEndOfFile = true) ∨ n < dropped.length :=
          hlimit.imp (fun h => by simpa [hend] using h)
            Nat.lt_of_succ_lt_succ
        obtain ⟨p', hsearch, hstates, hexecutor⟩ := ih hq (List.prefix_append _ _)
          (fun t ht => mt hskips.canResume_iff.mp (hrest t ht)) hlimit
        rw [hfetch]
        exact ⟨p', hsearch, hstates.trans hskips.states_eq, hexecutor.trans hskips.executor_eq⟩

/-- The tokens awaited have an end. -/
theorem Awaits.exists_last (h : p.Awaits tokens) : ∃ t ∈ tokens, t.value.isEndOfFile = true := by
  have hoffers : ∀ {s : Scanner} {tokens : List (Spanned Token)}, s.Offers tokens →
      ∃ t ∈ tokens, t.value.isEndOfFile = true := by
    intro s tokens h
    induction h with
    | last _ ended => exact ⟨_, List.mem_singleton_self _, ended⟩
    | more _ _ _ ih =>
      obtain ⟨t, hmem, ht⟩ := ih
      exact ⟨t, List.mem_cons_of_mem _ hmem, ht⟩
  cases h with
  | last ended => exact ⟨_, List.mem_singleton_self _, ended⟩
  | more _ rest =>
    obtain ⟨t, hmem, ht⟩ := hoffers rest
    exact ⟨t, List.mem_cons_of_mem _ hmem, ht⟩

/-! ## Recoveries -/

/-- A recovery goes on with the first token that it examines and that a state can go on with. -/
theorem recover_resumes {discard : Bool} (hawaits : p.Awaits tokens)
    (hvalues : p.states.items.length = p.executor.values.items.length + 1)
    (h : p.ResumesAt tables discard tokens dropped u later) :
    ∃ p', p.recover tables discard = .resumed p' ∧ p.Resumed tables dropped u later p' := by
  obtain ⟨rfl, ⟨-, hopeless⟩, hexamined, hu, hwithin⟩ := h
  cases discard with
  | false => exact search_resumes hawaits hvalues hopeless hu hwithin
  | true =>
    obtain ⟨t, dropped, rfl⟩ := List.exists_cons_of_ne_nil (hexamined rfl)
    have hmore : p.lookahead.value.isEndOfFile = false := by
      cases dropped <;> exact hawaits.going
    obtain ⟨v, q, hfetch, hq, hskips⟩ := hawaits.fetch hmore
    obtain ⟨p', hsearch, hresumed⟩ := search_resumes (n := Limits.recoveryScans - 1) hq
      (by rw [hskips.states_eq, hskips.executor_eq]; exact hvalues)
      (fun t ht => mt hskips.canResume_iff.mp (hopeless t ht)) (hskips.canResume_iff.mpr hu)
      (by rw [List.length_cons] at hwithin; omega)
    refine ⟨p', ?_, hresumed.head hskips⟩
    simp only [recover, hmore, hfetch, if_true]
    exact hsearch

/-- A recovery gives up that would have to drop the end of the file, or one token too many. -/
theorem recover_exhausted {discard : Bool} (hawaits : p.Awaits tokens)
    (h : p.MustDrop tables discard tokens dropped)
    (hlimit : (∃ t ∈ dropped, t.value.isEndOfFile = true) ∨
      Limits.recoveryScans < dropped.length) :
    ∃ p', p.recover tables discard = .exhausted p' ∧ p'.states = p.states ∧
      p'.executor = p.executor := by
  obtain ⟨hfirst, hopeless⟩ := h
  cases discard with
  | false => exact search_exhausted hawaits hfirst hopeless hlimit
  | true =>
    cases dropped with
    | nil => simp at hlimit
    | cons t dropped =>
      obtain ⟨more, rfl⟩ := hfirst
      obtain rfl := hawaits.lookahead_eq
      simp only [recover, if_true]
      by_cases hend : p.lookahead.value.isEndOfFile = true
      · rw [if_pos hend]
        exact ⟨p, rfl, rfl, rfl⟩
      · rw [if_neg hend]
        obtain ⟨v, q, hfetch, hq, hskips⟩ := hawaits.fetch (Bool.eq_false_iff.mpr hend)
        have hlimit : (∃ t ∈ dropped, t.value.isEndOfFile = true) ∨
            Limits.recoveryScans - 1 < dropped.length := by
          refine hlimit.imp (fun h => by simpa [hend] using h) fun hlt => ?_
          rw [List.length_cons] at hlt
          unfold Limits.recoveryScans at hlt ⊢
          omega
        obtain ⟨p', hsearch, hstates, hexecutor⟩ := search_exhausted hq (List.prefix_append _ _)
          (fun t ht => mt hskips.canResume_iff.mp (hopeless t ht)) hlimit
        rw [hfetch]
        exact ⟨p', hsearch, hstates.trans hskips.states_eq, hexecutor.trans hskips.executor_eq⟩

/-- **There is a token to go on with, or the end of the file or one token too many has to be
dropped.** -/
theorem resumesAt_or_mustDrop (tables : DecisionTables) (discard : Bool)
    (hawaits : p.Awaits tokens) :
    (∃ dropped u later, p.ResumesAt tables discard tokens dropped u later) ∨
      ∃ dropped, p.MustDrop tables discard tokens dropped ∧
        ((∃ t ∈ dropped, t.value.isEndOfFile = true) ∨ Limits.recoveryScans < dropped.length) := by
  classical
  -- the tokens examined up to the first one that a state can go on with
  let examined := tokens.drop discard.toNat
  let hopeless := examined.takeWhile fun t => ¬p.CanResume tables t
  have hsplit : tokens = tokens.take discard.toNat ++ (hopeless ++
      examined.dropWhile fun t => ¬p.CanResume tables t) := by
    rw [List.takeWhile_append_dropWhile, List.take_append_drop]
  have hdrop : (tokens.take discard.toNat ++ hopeless).drop discard.toNat ⊆ hopeless := by
    rw [List.drop_append, List.drop_take]
    simp [List.drop_subset]
  have hmust : p.MustDrop tables discard tokens (tokens.take discard.toNat ++ hopeless) :=
    { first := ⟨_, by rw [List.append_assoc]; exact hsplit.symm⟩
      hopeless := fun t ht => by simpa using List.mem_takeWhile_imp (hdrop ht) }
  cases hrest : examined.dropWhile fun t => ¬p.CanResume tables t with
  | nil =>
    -- every token has to be dropped, and the last one is the end of the file
    rw [hrest, List.append_nil] at hsplit
    obtain ⟨t, hmem, ht⟩ := hawaits.exists_last
    exact .inr ⟨_, hmust, .inl ⟨t, hsplit ▸ hmem, ht⟩⟩
  | cons u later =>
    by_cases hwithin : (tokens.take discard.toNat ++ hopeless).length ≤ Limits.recoveryScans
    · refine .inl ⟨_, u, later, ?_, hmust, ?_, ?_, hwithin⟩
      · rw [hrest] at hsplit
        rw [List.append_assoc]
        exact hsplit
      · rintro rfl
        cases tokens with
        | nil => cases hawaits
        | cons t tokens => simp
      · have hhead := List.head?_dropWhile_not (fun t => ¬p.CanResume tables t) examined
        rw [hrest] at hhead
        simpa using hhead
    · exact .inr ⟨_, hmust, .inr (Nat.not_le.mp hwithin)⟩

/-- **What a recovery does, exactly.** With a state on the stack and one value fewer than states, on
tokens that scan without an error, it goes on with the first token examined that some state can go
on with, and leaves the stacks cut as little as that allows; it gives up exactly if it would have to
drop the end of the file or one token too many, and then the stacks are as they were. -/
theorem recover_exactly (tables : DecisionTables) (discard : Bool) (hawaits : p.Awaits tokens)
    (hvalues : p.states.items.length = p.executor.values.items.length + 1) :
    (∀ dropped u later, p.ResumesAt tables discard tokens dropped u later →
      ∃ p', p.recover tables discard = .resumed p' ∧ p.Resumed tables dropped u later p') ∧
    (∀ p', p.recover tables discard = .resumed p' →
      ∃ dropped later, p.ResumesAt tables discard tokens dropped p'.lookahead later) ∧
    ((∃ p', p.recover tables discard = .exhausted p') ↔
      ∃ dropped, p.MustDrop tables discard tokens dropped ∧
        ((∃ t ∈ dropped, t.value.isEndOfFile = true) ∨ Limits.recoveryScans < dropped.length)) ∧
    (∀ p', p.recover tables discard = .exhausted p' →
      p'.states = p.states ∧ p'.executor = p.executor) ∧
    ∀ e p', p.recover tables discard ≠ .failed e p' := by
  refine ⟨fun dropped u later h => recover_resumes hawaits hvalues h, ?_⟩
  rcases resumesAt_or_mustDrop tables discard hawaits with ⟨dropped, u, later, h⟩ |
    ⟨dropped, hmust, hlimit⟩
  · obtain ⟨p', heq, hresumed⟩ := recover_resumes hawaits hvalues h
    rw [heq]
    refine ⟨?_, ⟨?_, ?_⟩, ?_, ?_⟩
    · rintro _ ⟨⟩
      rw [hresumed.awaits.lookahead_eq]
      exact ⟨dropped, later, h⟩
    · rintro ⟨_, ⟨⟩⟩
    · rintro ⟨dropped', hmust, hlimit⟩
      obtain ⟨_, heq', _⟩ := recover_exhausted hawaits hmust hlimit
      cases heq.symm.trans heq'
    · rintro _ ⟨⟩
    · rintro _ _ ⟨⟩
  · obtain ⟨p', heq, hsame⟩ := recover_exhausted hawaits hmust hlimit
    rw [heq]
    refine ⟨?_, ⟨fun _ => ⟨dropped, hmust, hlimit⟩, fun _ => ⟨p', rfl⟩⟩, ?_, ?_⟩
    · rintro _ ⟨⟩
    · rintro _ ⟨⟩
      exact hsame
    · rintro _ _ ⟨⟩

end ParseState

/-- Tables that begin with a name and can do nothing else. -/
def openingTables : DecisionTables where
  rules := ⟨⟨1, "S", ["A"]⟩, [⟨2, "A", ["id"]⟩]⟩
  actions := ⟨["id", "$"], #[#[some (.shift 1), none], #[none, none]]⟩
  gotos := ⟨["A"], #[#[none], #[none]]⟩

/-- A parser behind a name, with a semicolon and another name ahead. -/
def stalledState : ParseState where
  scanner := .ofInput ⟨[98], none⟩
  states := (Stack.ofCapacity 10).withItems [1, 0]
  executor :=
    { Executor.bare 10 with
      values := (Stack.ofCapacity 10).withItems [⟨⟨.identifier, "a", .untyped⟩, .empty .start⟩] }
  lookahead := ⟨⟨.semicolon, ";", .untyped⟩, .empty .start⟩

/-- The semicolon is dropped, and the parser goes on with the second name. -/
theorem recover_exactly_stalled :
    stalledState.states.items.length = stalledState.executor.values.items.length + 1 ∧
      ∃ u later p', stalledState.recover openingTables false = .resumed p' ∧
        u.value.lexeme = "b" ∧
        stalledState.Resumed openingTables [stalledState.lookahead] u later p' ∧
        p'.metrics = { recoveries := 1, discarded := 1 } := by
  refine ⟨rfl, ?_⟩
  have hscan : stalledState.scanner.scanAll.1 = .ok
      #[⟨⟨.identifier, "b", .untyped⟩, ⟨⟨0, 1, 1⟩, ⟨1, 1, 2⟩⟩⟩,
        ⟨.endOfFile, .empty ⟨1, 1, 2⟩⟩] := by
    rfl
  have hawaits : stalledState.Awaits (stalledState.lookahead ::
      [⟨⟨.identifier, "b", .untyped⟩, ⟨⟨0, 1, 1⟩, ⟨1, 1, 2⟩⟩⟩, ⟨.endOfFile, .empty ⟨1, 1, 2⟩⟩]) :=
    .more (by decide) (Scanner.offers_of_scanAll hscan)
  obtain ⟨hresumes, -⟩ := ParseState.recover_exactly openingTables false hawaits rfl
  obtain ⟨p', heq, hresumed⟩ := hresumes [stalledState.lookahead] _ _
    { split := rfl
      mustDrop := ⟨List.prefix_append [_] _, by
        intro t ht
        obtain rfl : t = stalledState.lookahead := by simpa using ht
        unfold ParseState.CanResume
        decide⟩
      examined := by decide
      canResume := ⟨0, by decide, by decide⟩
      within := by decide }
  exact ⟨_, _, p', heq, rfl, hresumed, hresumed.metrics_eq⟩

end Mgol
