import Mgol.Proofs.Parser.Alignment
import Mgol.Proofs.Scanner.Places
import Mgol.Proofs.Scanner.Spelling
import Mgol.Proofs.Semantics.Tally

/-! # What recoveries leave of the input

A parse keeps some of the words it has read: those that its symbols derive. A shift keeps one more,
a recovery cuts off the last ones and drops others unread, and nothing else changes them. So what an
accepted parse has kept is a sentence, in the order of the source.

* **`ParseState.Yields`** — a parse with the words that its symbols derive.
* **`ParseState.Yields.step`** — every move keeps a subsequence of what was read.
* **`accepted_keeps_sentence`** — an accepted parse has kept a sentence. -/

namespace Mgol

/-- A token at the end of the input that is well spelled is the end of the file. -/
theorem Token.Spelled.kind_ne_of_more {t : Token} (h : t.Spelled)
    (more : t.isEndOfFile = false) : t.kind ≠ .endOfFile := by
  intro hkind
  unfold Token.Spelled at h
  rw [hkind] at h
  have hend : t.isEndOfFile = true := decide_eq_true h
  cases hend.symm.trans more

namespace ParseState

variable {g : RuleSet} {t : DecisionTables}

/-- **A parse has read some words** since a scanner stood at its beginning: whatever is still ahead
was ahead of that scanner behind them. -/
def HasRead (begin : Scanner) (p : ParseState) (read : List (TokenClass × String)) : Prop :=
  ∀ rest, p.Upcoming rest → begin.Ahead (read ++ rest)

/-- When the parser goes on to the next lookahead, it has read the one before. -/
theorem HasRead.next {begin : Scanner} {p p' : ParseState} {read : List (TokenClass × String)}
    (h : HasRead begin p read) (more : p.lookahead.value.kind ≠ .endOfFile) {j : Journal}
    (found : (p.scanner.withJournal j).nextVisible = (.ok p'.lookahead, p'.scanner)) :
    HasRead begin p' (read ++ [p.lookahead.value.word]) := by
  intro rest hrest
  rw [List.append_assoc]
  refine h _ (.inr ⟨more, rest, rfl, ?_⟩)
  exact (Scanner.Ahead.of_nextVisible found hrest).of_agrees (agrees_withJournal _ j).symm

/-- What was read depends on what scanners agree on. -/
theorem HasRead.of_agrees {begin : Scanner} {p p' : ParseState}
    {read : List (TokenClass × String)} (h : HasRead begin p read)
    (hlookahead : p'.lookahead = p.lookahead) (hagrees : p.scanner.Agrees p'.scanner) :
    HasRead begin p' read :=
  fun rest hrest => h rest (hrest.of_agrees hlookahead.symm hagrees.symm)

/-- **A parse with the words that it has kept**: its symbols derive them, and they are some of those
that it has read, in their order. Without a syntax error they are all of them. -/
structure Yields (g : RuleSet) (begin : Scanner) (symbols : List GrammarSymbol) (p : ParseState) :
    Prop where
  follows : Follows g p symbols
  actions_eq : p.executor.actions = mgolActions
  fluent : p.scanner.Fluent
  spelled : p.lookahead.value.Spelled
  kept : ∃ read kept : List (TokenClass × String), HasRead begin p read ∧ kept.Sublist read ∧
    g.Forest symbols.reverse (kept.map terminalOf) ∧ (p.Alarmed ∨ p.trigger = none ∧ kept = read)

namespace Yields

variable {begin : Scanner} {symbols : List GrammarSymbol} {p p' : ParseState}

/-- A shift reads the lookahead and keeps it. -/
theorem shifted (hb : g.Built t) (hend : ∀ r ∈ g.rules, endMarker ∉ r.right)
    (h : p.Yields g begin symbols) {q target : Nat} {below : List Nat}
    (items : p.states.items = q :: below) (cell : t.action q p.terminal = some (.shift target))
    {states : Stack Nat} (pushed : p.states.push target = .ok states) {j : Journal}
    {u : Spanned Token} {s : Scanner}
    (found : (p.scanner.withJournal j).nextVisible = (.ok u, s)) {values : Stack (Spanned Token)}
    (kept : p.executor.values.push p.lookahead = .ok values) (metrics : SyntaxMetrics) :
    Yields g begin (p.terminal :: symbols)
      { p with
        scanner := s, states, lookahead := u, trigger := none, metrics
        executor := { p.executor with values } } := by
  obtain ⟨hfluent, hspelled, _⟩ := (Scanner.finds_of_nextVisible found).fluent
    (h.fluent.of_agrees (agrees_withJournal p.scanner j))
  obtain ⟨read, words, hread, hsublist, hforest, hclean⟩ := h.kept
  -- the end of the input is never shifted
  have hmore : p.lookahead.value.kind ≠ .endOfFile := fun hkind =>
    hb.shift_ne_endMarker hend cell (Token.terminalName_eq_endMarker_iff.mpr hkind)
  refine ⟨h.follows.shifted hb items cell pushed kept rfl rfl, h.actions_eq, hfluent, hspelled,
    read ++ [p.lookahead.value.word], words ++ [p.lookahead.value.word], hread.next hmore found,
    hsublist.append (List.Sublist.refl _), ?_, ?_⟩
  · rw [List.reverse_cons, List.map_append]
    exact hforest.append (.terminal (hb.edge_of_shift cell).2 .nil)
  · rcases hclean with halarmed | ⟨_, rfl⟩
    · exact .inl halarmed
    · exact .inr ⟨rfl, rfl⟩

/-- A reduction puts what its right side derives under its left side. -/
theorem reduced (hb : g.Built t) (h : p.Yields g begin symbols) {q n : Nat} {below : List Nat}
    (items : p.states.items = q :: below) (cell : t.action q p.terminal = some (.reduce n))
    {r : Rule} (rule : t.rule n = .ok r) {states : Stack Nat}
    (reduced : reducedStates p.states t r = .ok states) {j : Journal} {executor : Executor}
    {session : Session}
    (run : p.executor.reduce r p.lookahead.span.start ⟨p.scanner.registry, j⟩ =
      (.ok (), executor, session)) (metrics : SyntaxMetrics) :
    ∃ seen, Yields g begin (r.left :: seen)
      { p with scanner := { p.scanner with session }, states, executor, metrics } := by
  obtain ⟨seen, v, c, hperformed⟩ := h.follows.performed hb items cell rule reduced run
  -- an action changes no word of the registry, so the scanner has the same words ahead
  obtain ⟨_, c', hwords, _, hregistry⟩ := Executor.routine_reduce ActionContext.routine_sameWords
    h.actions_eq r p.lookahead.span.start ⟨p.scanner.registry, j⟩
  rw [run] at hregistry
  have hagrees : p.scanner.Agrees { p.scanner with session } := by
    refine ⟨rfl, rfl, rfl, rfl, ?_⟩
    have hsame : p.scanner.registry.SameWords c'.session.registry := hwords
    rwa [← hregistry] at hsame
  obtain ⟨read, words, hread, hsublist, hforest, hclean⟩ := h.kept
  refine ⟨seen, hperformed.follows _ rfl rfl, hperformed.actions_eq.trans h.actions_eq,
    h.fluent.of_agrees hagrees, h.spelled, read, words, hread.of_agrees rfl hagrees, hsublist, ?_,
    hclean⟩
  rw [hperformed.symbols_eq, List.reverse_append, List.reverse_reverse] at hforest
  obtain ⟨front, back, hsplit, hfront, hback⟩ := hforest.split
  have hroot : g.Forest [r.left] back := by
    simpa using RuleSet.Forest.rule hperformed.rule_mem hback .nil
  rw [List.reverse_cons, hsplit]
  exact hfront.append hroot

/-- An alarm reads nothing, and is a syntax error. -/
theorem alarmed (h : p.Yields g begin symbols) (q : Nat) (slot : Option Nat) :
    (p.alarmed t q slot).Yields g begin symbols ∧ (p.alarmed t q slot).Alarmed := by
  obtain ⟨read, words, hread, hsublist, hforest, hclean⟩ := h.kept
  obtain ⟨j, metrics, history, diagnostics, hcases, heq⟩ := p.alarmed_eq t q slot
  have halarmed : (p.alarmed t q slot).Alarmed := by
    unfold Alarmed
    rw [heq]
    -- a repeated alarm was preceded by one that was reported
    rcases hcases with ⟨hrepeated, rfl⟩ | ⟨d, hkind, rfl⟩
    · rcases hclean with halarmed | ⟨huntriggered, _⟩
      · exact halarmed
      · have htrigger : p.trigger = some p.lookahead.span.start.offset :=
          of_decide_eq_true hrepeated
        cases huntriggered.symm.trans htrigger
    · exact ⟨d, Array.mem_push_self, hkind⟩
  refine ⟨?_, halarmed⟩
  have hagrees : p.scanner.Agrees (p.alarmed t q slot).scanner := by
    rw [heq]
    exact agrees_withJournal p.scanner j
  have hlookahead : (p.alarmed t q slot).lookahead = p.lookahead := by rw [heq]
  exact
    { follows := h.follows.alarmed q slot
      actions_eq := by rw [heq]; exact h.actions_eq
      fluent := h.fluent.of_agrees hagrees
      spelled := by rw [hlookahead]; exact h.spelled
      kept := ⟨read, words, hread.of_agrees hlookahead hagrees, hsublist, hforest, .inl halarmed⟩ }

/-- A lookahead that is dropped was read and is not kept. -/
theorem dropped (h : p.Yields g begin symbols) (halarmed : p.Alarmed)
    (hd : Relation.ReflTransGen Drops p p') : p'.Yields g begin symbols ∧ p'.Alarmed := by
  induction hd with
  | refl => exact ⟨h, halarmed⟩
  | @tail p₁ p₂ _ hdrop ih =>
    obtain ⟨h₁, halarmed₁⟩ := ih
    cases hdrop with
    | @drop j u s more found =>
      obtain ⟨hfluent, hspelled, _⟩ := (Scanner.finds_of_nextVisible found).fluent
        (h₁.fluent.of_agrees (agrees_withJournal p₁.scanner j))
      obtain ⟨read, words, hread, hsublist, hforest, _⟩ := h₁.kept
      refine ⟨⟨⟨h₁.follows.path, h₁.follows.values_length, h₁.follows.within⟩, h₁.actions_eq, hfluent,
        hspelled, read ++ [p₁.lookahead.value.word], words, ?_, ?_, hforest, .inl halarmed₁⟩,
        halarmed₁⟩
      · exact hread.next (h₁.spelled.kind_ne_of_more more) found
      · exact hsublist.trans (List.sublist_append_left _ _)

/-- **Where a recovery goes on, the words of the symbols that were cut off are not kept.** -/
theorem resynchronized (h : p.Yields g begin symbols) (halarmed : p.Alarmed) {n : Nat}
    (hsync : p.resynchronize? t n = some p') : ∃ k, p'.Yields g begin (symbols.drop k) := by
  obtain ⟨k, _, _, _, _, hfollows⟩ := h.follows.resynchronized hsync
  obtain ⟨j, states, values, metrics, rfl⟩ := resynchronize?_eq hsync
  obtain ⟨read, words, hread, hsublist, hforest, _⟩ := h.kept
  have hagrees := agrees_withJournal p.scanner j
  rw [← List.take_append_drop k symbols, List.reverse_append] at hforest
  obtain ⟨front, back, hsplit, hfront, _⟩ := hforest.split
  -- the words that stay are as many as the terminals that stay
  have hfront' : (words.take front.length).map terminalOf = front := by
    rw [List.map_take, hsplit, List.take_left]
  refine ⟨k, hfollows, h.actions_eq, h.fluent.of_agrees hagrees, h.spelled, read,
    words.take front.length, hread.of_agrees rfl hagrees,
    (List.take_sublist _ _).trans hsublist, ?_, .inl halarmed⟩
  rw [hfront']
  exact hfront

/-- **Every move keeps a subsequence of what was read.** -/
theorem step (hb : g.Built t) (hend : ∀ r ∈ g.rules, endMarker ∉ r.right)
    (h : p.Yields g begin symbols) {o : SyntaxOptions} (hstep : p.step t o = .next p') :
    ∃ symbols', p'.Yields g begin symbols' := by
  have heffect := step_effect t o p
  rw [hstep] at heffect
  cases heffect with
  | shift items cell pushed found kept =>
    exact ⟨_, h.shifted hb hend items cell pushed found kept _⟩
  | reduce items cell rule reduced run =>
    obtain ⟨seen, hreduced⟩ := h.reduced hb items cell rule reduced run _
    exact ⟨_, hreduced⟩
  | @resumed q below slot _ items cell recovered =>
    have hrecover := (recover_effect t (p.alarmed t q slot) p.repeated).1
    rw [recovered] at hrecover
    cases hrecover with
    | resumed dropped synchronized =>
      obtain ⟨halarm, halarmed⟩ := h.alarmed (t := t) q slot
      obtain ⟨hdropped, halarmed'⟩ := halarm.dropped halarmed dropped
      obtain ⟨k, hsynchronized⟩ := hdropped.resynchronized halarmed' synchronized
      exact ⟨_, hsynchronized⟩

/-- **An accepted parse has read all words and kept a sentence.** -/
theorem accepted (hb : g.Built t) (h : p.Yields g begin symbols) {o : SyntaxOptions}
    (hstep : p.step t o = .accepted p') :
    ∃ read kept : List (TokenClass × String), begin.Ahead read ∧ kept.Sublist read ∧
      g.Sentence (kept.map terminalOf) ∧ (p.Alarmed ∨ kept = read) := by
  have heffect := step_effect t o p
  rw [hstep] at heffect
  cases heffect with
  | accept items cell =>
    have hpath := h.follows.path
    rw [items] at hpath
    obtain ⟨hend, rfl⟩ := hb.accept_path hpath cell
    obtain ⟨read, kept, hread, hsublist, hforest, hclean⟩ := h.kept
    have hahead := hread [] (.inl ⟨Token.terminalName_eq_endMarker_iff.mp hend, rfl⟩)
    rw [List.append_nil] at hahead
    rw [List.reverse_reverse] at hforest
    exact ⟨read, kept, hahead, hsublist, RuleSet.sentence_iff_forest.mpr hforest,
      hclean.imp id And.right⟩

end Yields

/-- A parse that begins has read nothing. -/
theorem yields_of_start {begin s : Scanner} (hbegin : begin.Fluent) {u : Spanned Token}
    (found : begin.nextVisible = (.ok u, s)) {states : Stack Nat} (hitems : states.items = [0])
    (hroom : 0 < states.capacity) {capacity : Nat} :
    Yields g begin [] { scanner := s, states, executor := .mgol capacity, lookahead := u } := by
  obtain ⟨hfluent, hspelled, _⟩ := (Scanner.finds_of_nextVisible found).fluent hbegin
  refine ⟨⟨?_, rfl, ?_⟩, rfl, hfluent, hspelled, [], [], ?_, .slnil, .nil, .inr ⟨rfl, rfl⟩⟩
  · rw [hitems]
    exact .start
  · rw [hitems]
    exact hroom
  · intro rest hrest
    exact Scanner.Ahead.of_nextVisible found hrest

end ParseState

/-- **Recovery never invents or reorders input.** If a parse of a source of MGol with constructed
tables is accepted within any number of moves, after whatever errors and recoveries, then its source
has an end, and some of the tokens that a parser sees of it form, in their order, a sentence of the
grammar. Without a syntax error these are all of them. -/
theorem accepted_keeps_sentence {rules : List Rule} {origin : String} {g : RuleSet}
    (hg : RuleSet.ofRules rules origin = .ok g) (hend : ∀ r ∈ g.rules, endMarker ∉ r.right)
    {policy : ErrorPolicy} {built : SlrTables} (hbuilt : g.slrTables policy = .ok built)
    (input : Input) (journal : Journal) (options : ScanOptions) (o : SyntaxOptions) {moves : Nat}
    {outcome : ParseOutcome}
    (hparse : (parseWithin moves (.mgol o.effectiveCapacity)
      (.ofInput input .mgol ⟨.reserved, journal⟩ options)
      ⟨g, built.actions, built.gotos⟩ o).1 = .ok outcome) (haccepted : outcome.accepted = true) :
    ∃ tokens, (Scanner.ofInput input .mgol ⟨.reserved, journal⟩ options).scanAll.1 = .ok tokens ∧
      ∃ kept : List (Spanned Token), kept.Sublist (visibleOf tokens.toList) ∧
        g.Sentence (kept.map fun t => t.value.terminalName) ∧
        (outcome.hasSyntaxErrors = false → kept = visibleOf tokens.toList) := by
  have hb : g.Built ⟨g, built.actions, built.gotos⟩ :=
    ⟨RuleSet.numbered_of_ofRules hg, rfl, policy, hbuilt⟩
  have hfluent : (Scanner.ofInput input .mgol ⟨.reserved, journal⟩ options).Fluent :=
    ⟨rfl, Registry.sound_reserved, Registry.plain_reserved⟩
  generalize Scanner.ofInput input .mgol ⟨.reserved, journal⟩ options = begin at hparse hfluent ⊢
  unfold parseWithin at hparse
  rcases startState_cases begin (.mgol o.effectiveCapacity) o with
    ⟨u, s, states, hfound, _, hitems, hcapacity, hstart⟩ | ⟨e, s, _, hstart⟩
  · rw [hstart] at hparse
    simp only at hparse
    have hyields : ParseState.Yields g begin []
        { scanner := s, states, executor := .mgol o.effectiveCapacity, lookahead := u } :=
      ParseState.yields_of_start hfluent hfound hitems (hcapacity ▸ o.effectiveCapacity_pos)
    obtain ⟨p, ⟨symbols, hp⟩, hended⟩ := ParseState.run_induction _ o
      (fun p => ∃ symbols, p.Yields g begin symbols)
      (fun _ _ ⟨_, hp⟩ hstep => hp.step hb hend hstep) moves ⟨[], hyields⟩
    generalize ParseState.run _ o moves _ = ended at hparse hended
    cases hended with
    | unfinished => cases hparse
    | failed last => cases hparse
    | abandoned last =>
      obtain rfl := Except.ok.inj hparse
      cases haccepted
    | accepted last =>
      obtain ⟨read, kept, hahead, hsublist, hsentence, hclean⟩ := hp.accepted hb last
      obtain rfl := ParseState.eq_of_accepted last
      obtain rfl := Except.ok.inj hparse
      obtain ⟨tokens, hscan, hwords⟩ := hfluent.scanAll hahead
      -- the words that were kept are those of some of the visible tokens
      rw [wordsOf_eq_map_visibleOf] at hwords
      rw [← hwords] at hsublist
      obtain ⟨keptTokens, htokens, rfl⟩ := List.sublist_map_iff.mp hsublist
      refine ⟨tokens, hscan, keptTokens, htokens, ?_, fun herrors => ?_⟩
      · rw [List.map_map] at hsentence
        exact hsentence
      · rcases hclean with halarmed | hall
        · cases (ParseOutcome.hasSyntaxErrors_of_alarmed halarmed true).symm.trans herrors
        · refine htokens.eq_of_length ?_
          have hlength := congrArg List.length (hall.trans hwords.symm)
          rwa [List.length_map, List.length_map] at hlength
  · rw [hstart] at hparse
    cases hparse

/-- A list of names with a comma too many is accepted after a recovery, and some of its tokens are a
list of names. -/
theorem accepted_keeps_sentence_names :
    ∃ g built tokens, RuleSet.ofRules nameRules "names" = .ok g ∧
      g.slrTables .uniform = .ok built ∧
      ((parse (.ofInput ⟨Text.encode "a,,b", none⟩) ⟨g, built.actions, built.gotos⟩
        {}).1.toOption.map fun o => (o.accepted, o.hasSyntaxErrors)) = some (true, true) ∧
      tokenize (Text.encode "a,,b") = .ok tokens ∧
      ∃ kept : List (Spanned Token), kept.Sublist (visibleOf tokens.toList) ∧
        g.Sentence (kept.map fun t => t.value.terminalName) := by
  let g : RuleSet := ⟨⟨1, "S", ["L"]⟩, [⟨2, "L", ["L", "vir", "id"]⟩, ⟨3, "L", ["id"]⟩]⟩
  have hg : RuleSet.ofRules nameRules "names" = .ok g := by rfl
  have hparsed : ((g.slrTables .uniform).toOption.bind fun built =>
      (parse (.ofInput ⟨Text.encode "a,,b", none⟩) ⟨g, built.actions, built.gotos⟩
        {}).1.toOption.map fun o => (o.accepted, o.hasSyntaxErrors)) = some (true, true) := by
    decide +kernel
  cases hbuilt : g.slrTables .uniform with
  | error e =>
    rw [hbuilt] at hparsed
    cases hparsed
  | ok built =>
    rw [hbuilt] at hparsed
    change ((parse (.ofInput ⟨Text.encode "a,,b", none⟩) ⟨g, built.actions, built.gotos⟩
      {}).1.toOption.map fun o => (o.accepted, o.hasSyntaxErrors)) = some (true, true) at hparsed
    cases hparse : (parse (.ofInput ⟨Text.encode "a,,b", none⟩) ⟨g, built.actions, built.gotos⟩
        {}).1 with
    | error e =>
      rw [hparse] at hparsed
      cases hparsed
    | ok outcome =>
      have haccepted : outcome.accepted = true := by
        rw [hparse] at hparsed
        exact (Prod.mk.inj (Option.some.inj hparsed)).1
      obtain ⟨tokens, hscan, kept, hkept, hsentence, _⟩ :=
        accepted_keeps_sentence hg (by decide) hbuilt ⟨Text.encode "a,,b", none⟩ {} {} {} hparse
          haccepted
      exact ⟨g, built, tokens, hg, hbuilt, hparse ▸ hparsed, hscan, kept, hkept, hsentence⟩

end Mgol
