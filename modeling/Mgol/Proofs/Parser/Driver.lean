import Mgol.Proofs.Grammar.Slr

/-! # The driver of the tables

The loop that tables drive, on a word of terminals and with a stack without bound. Tables that were
constructed without a conflict make it accept exactly the sentences of their grammar.

* **`Driver`, `Driver.step`, `DecisionTables.Accepts`** — the driver.
* **`RuleSet.Path`, `RuleSet.Path.back`** — stacks that follow the edges of the collection, and what
  an item on top says about them.
* **`RuleSet.Built`** — tables constructed for a grammar.
* **`RuleSet.Built.accepts_iff_derives`** — the language of the driver. -/

namespace Mgol

/-- **A configuration of the driver**: the states with the top first, and the terminals to come. -/
structure Driver where
  states : List Nat
  input : List GrammarSymbol
  deriving DecidableEq, Repr

namespace Driver

/-- **One move**: a shift or a reduction. There is none where the cell is an error or missing. -/
def step (t : DecisionTables) (d : Driver) : Option Driver :=
  match d.states, d.input with
  | q :: _, a :: rest =>
    match t.action q a with
    | some (.shift target) => some ⟨target :: d.states, rest⟩
    | some (.reduce n) =>
      match t.rules.get? n with
      | none => none
      | some r =>
        match d.states.drop r.arity with
        | [] => none
        | top :: below => (t.goto top r.left).map fun target => ⟨target :: top :: below, d.input⟩
    | _ => none
  | _, _ => none

/-- Whether the driver accepts where it stands. -/
def accepting (t : DecisionTables) (d : Driver) : Bool :=
  match d.states, d.input with
  | q :: _, a :: _ => t.action q a = some .accept
  | _, _ => false

/-- Any number of moves. -/
def Moves (t : DecisionTables) : Driver → Driver → Prop :=
  Relation.ReflTransGen fun d e => d.step t = some e

/-- The driver at the beginning of a word. -/
def start (word : List GrammarSymbol) : Driver := ⟨[0], word ++ [endMarker]⟩

/-- A cell with a shift moves the driver. -/
theorem step_shift {t : DecisionTables} {q target : Nat} {below : List Nat} {a : GrammarSymbol}
    {rest : List GrammarSymbol} (h : t.action q a = some (.shift target)) :
    step t ⟨q :: below, a :: rest⟩ = some ⟨target :: q :: below, rest⟩ := by
  simp [step, h]

/-- A cell with a reduction moves the driver, if there is a state to go to. -/
theorem step_reduce {t : DecisionTables} {q n top target : Nat} {states below : List Nat}
    {a : GrammarSymbol} {rest : List GrammarSymbol} {r : Rule} (hq : states.head? = some q)
    (h : t.action q a = some (.reduce n)) (hr : t.rules.get? n = some r)
    (hdrop : states.drop r.arity = top :: below) (hgoto : t.goto top r.left = some target) :
    step t ⟨states, a :: rest⟩ = some ⟨target :: top :: below, a :: rest⟩ := by
  obtain ⟨tail, rfl⟩ : ∃ tail, states = q :: tail := by
    cases states with
    | nil => simp at hq
    | cons p tail => exact ⟨tail, by rw [Option.some.inj hq]⟩
  simp [step, h, hr, hdrop, hgoto]

/-- Where the parser cannot go on, neither can the driver. -/
theorem stops_of_hasAction {t : DecisionTables} {q : Nat} {below : List Nat} {a : GrammarSymbol}
    {rest : List GrammarSymbol} (h : t.hasAction q a = false) :
    step t ⟨q :: below, a :: rest⟩ = none ∧ accepting t ⟨q :: below, a :: rest⟩ = false := by
  have hviable : ∀ x, t.action q a = some x → x.isViable = false := by
    intro x hx
    have hx' : t.actions.action q a = some x := hx
    simpa [DecisionTables.hasAction, ActionTable.hasAction, hx'] using h
  cases hcell : t.action q a with
  | none => simp [step, accepting, hcell]
  | some x =>
    have := hviable x hcell
    cases x with
    | error slot => simp [step, accepting, hcell]
    | shift | reduce | accept => cases this

/-- A driver that accepts does not move. -/
theorem step_of_accepting {t : DecisionTables} {d : Driver} (h : d.accepting t = true) :
    d.step t = none := by
  obtain ⟨states, input⟩ := d
  unfold accepting at h
  split at h
  · next q below a rest hs hi =>
    simp only at hs hi
    subst hs hi
    have hcell : t.action q a = some .accept := by simpa using h
    simp [step, hcell]
  · cases h

/-- What a move can be. -/
theorem step_cases {t : DecisionTables} {d e : Driver} (h : d.step t = some e) :
    ∃ q below a rest, d = ⟨q :: below, a :: rest⟩ ∧
      ((∃ target, t.action q a = some (.shift target) ∧ e = ⟨target :: q :: below, rest⟩) ∨
        ∃ n r top under target, t.action q a = some (.reduce n) ∧ t.rules.get? n = some r ∧
          (q :: below).drop r.arity = top :: under ∧ t.goto top r.left = some target ∧
          e = ⟨target :: top :: under, a :: rest⟩) := by
  obtain ⟨states, input⟩ := d
  unfold step at h
  split at h
  · next q below a rest hs hi =>
    simp only at hs hi
    subst hs hi
    refine ⟨q, below, a, rest, rfl, ?_⟩
    split at h
    · next target haction => exact .inl ⟨target, haction, (Option.some.inj h).symm⟩
    · next n haction =>
      split at h
      · exact absurd h (by simp)
      · next r hr =>
        split at h
        · exact absurd h (by simp)
        · next top under hdrop =>
          obtain ⟨target, hgoto, he⟩ := Option.map_eq_some_iff.mp h
          exact .inr ⟨n, r, top, under, target, haction, hr, hdrop, hgoto, he.symm⟩
    · exact absurd h (by simp)
  · exact absurd h (by simp)

end Driver

/-- **The words that tables accept**: the driver comes to an accepting cell by shifts and
reductions alone. -/
def DecisionTables.Accepts (t : DecisionTables) (word : List GrammarSymbol) : Prop :=
  ∃ d, Driver.Moves t (.start word) d ∧ d.accepting t = true

/-! ## Paths through the collection -/

namespace RuleSet

variable {g : RuleSet}

/-- **A stack of states that follows edges** from the first state on, with the symbols of the
edges; both have the top first. -/
inductive Path (g : RuleSet) : List Nat → List GrammarSymbol → Prop
  | start : Path g [0] []
  | step {q q' : Nat} {below : List Nat} {a : GrammarSymbol} {symbols : List GrammarSymbol}
      (path : Path g (q :: below) symbols) (edge : (a, q') ∈ g.edgesAt q) :
      Path g (q' :: q :: below) (a :: symbols)

namespace Path

/-- A path has one state more than symbols. -/
theorem length_eq {states : List Nat} {symbols : List GrammarSymbol} (h : g.Path states symbols) :
    states.length = symbols.length + 1 := by
  induction h with
  | start => rfl
  | step _ _ ih => simpa using ih

/-- A path without its upper part is a path. -/
theorem drop {states : List Nat} {symbols : List GrammarSymbol} (h : g.Path states symbols)
    {n : Nat} (hn : n < states.length) : g.Path (states.drop n) (symbols.drop n) := by
  induction h generalizing n with
  | start =>
    obtain rfl : n = 0 := by simpa using hn
    exact .start
  | step path edge ih =>
    cases n with
    | zero => exact .step path edge
    | succ n => exact ih (by simpa using hn)

/-- No edge leads back to the first state. -/
theorem symbols_eq_nil (hg : g.Numbered) {below : List Nat} {symbols : List GrammarSymbol}
    (h : g.Path (0 :: below) symbols) : symbols = [] := by
  cases h with
  | start => rfl
  | step path edge =>
    obtain ⟨i, hi, hnext⟩ := exists_item_of_edge hg edge
    obtain ⟨hmem, hdot⟩ := (mem_itemsAt_of_edge hg edge).mpr ⟨i, hi, hnext, rfl⟩
    have := dot_eq_zero_of_mem_itemsAt_zero hg hmem
    omega

/-- **What an item on top says about a path**: the symbols before its dot are the last ones, and
below them stands a state that begins its rule. -/
theorem back (hg : g.Numbered) {q : Nat} {below : List Nat} {symbols : List GrammarSymbol}
    {i : Item} (h : g.Path (q :: below) symbols) (hi : i ∈ g.itemsAt q) :
    ∃ top under seen, (q :: below).drop i.dot = top :: under ∧
      symbols = (i.rule.right.take i.dot).reverse ++ seen ∧ g.Path (top :: under) seen ∧
      .ofRule i.rule ∈ g.itemsAt top := by
  obtain ⟨r, dot⟩ := i
  -- the dot moves back one edge at a time
  induction dot generalizing q below symbols with
  | zero => exact ⟨q, below, symbols, rfl, rfl, h, hi⟩
  | succ dot ih =>
    cases h with
    | start =>
      have := dot_eq_zero_of_mem_itemsAt_zero hg hi
      simp at this
    | @step p _ below a symbols path edge =>
      obtain ⟨⟨r', dot'⟩, hj, hnext, hadv⟩ :=
        (mem_itemsAt_of_edge hg edge).mp ⟨hi, Nat.succ_pos dot⟩
      obtain ⟨rfl, rfl⟩ : r' = r ∧ dot' = dot := by simpa [Item.advance] using hadv
      obtain ⟨top, under, seen, hdrop, hsymbols, hpath, hitem⟩ := ih path hj
      refine ⟨top, under, seen, by simpa using hdrop, ?_, hpath, hitem⟩
      have hget : r'.right[dot']? = some a := hnext
      rw [List.take_add_one, hget]
      simpa using hsymbols

end Path

/-! ## Constructed tables -/

/-- **Tables constructed for a grammar** without a conflict, under some policy for errors. -/
structure Built (g : RuleSet) (t : DecisionTables) : Prop where
  numbered : g.Numbered
  rules_eq : t.rules = g
  constructed : ∃ policy, g.slrTables policy = .ok ⟨t.actions, t.gotos⟩

namespace Built

variable {t : DecisionTables}

/-- The viable moves are the admitted ones. -/
theorem action_iff (h : g.Built t) {q : Nat} {a : GrammarSymbol} {x : Action}
    (hx : x.isViable = true) : t.action q a = some x ↔ g.Admits q a x := by
  obtain ⟨_, hslr⟩ := h.constructed
  exact get?_actions_slrTables h.numbered hslr hx

/-- The targets are the edges over nonterminals. -/
theorem goto_iff (h : g.Built t) {q j : Nat} {a : GrammarSymbol} :
    t.goto q a = some j ↔ (a, j) ∈ g.edgesAt q ∧ g.isNonterminal a = true := by
  obtain ⟨_, hslr⟩ := h.constructed
  exact get?_gotos_slrTables h.numbered hslr

/-- The left side of the start rule is expected nowhere. -/
theorem not_expected (h : g.Built t) {q : Nat} {i : Item} (hi : i ∈ g.itemsAt q) :
    i.next? ≠ some g.start.left := by
  obtain ⟨_, hslr⟩ := h.constructed
  exact start_not_expected h.numbered hslr hi

/-- A shift follows an edge over a terminal. -/
theorem edge_of_shift (h : g.Built t) {q target : Nat} {a : GrammarSymbol}
    (ha : t.action q a = some (.shift target)) :
    (a, target) ∈ g.edgesAt q ∧ g.isNonterminal a = false := by
  cases (h.action_iff rfl).mp ha with
  | shift edge terminal => exact ⟨edge, terminal⟩

/-- The end marker is never shifted, if no rule mentions it. -/
theorem shift_ne_endMarker (h : g.Built t) (hend : ∀ r ∈ g.rules, endMarker ∉ r.right)
    {q target : Nat} {a : GrammarSymbol} (ha : t.action q a = some (.shift target)) :
    a ≠ endMarker := by
  rintro rfl
  obtain ⟨i, hi, hnext⟩ := exists_item_of_edge h.numbered (h.edge_of_shift ha).1
  have hmem : endMarker ∈ i.rule.right := List.mem_of_getElem? hnext
  exact hend _ (of_itemsAt h.numbered hi).rule_mem hmem

/-- A viable cell lets the parser go on. -/
theorem hasAction_of_action {q : Nat} {a : GrammarSymbol} {x : Action}
    (ha : t.action q a = some x) (hx : x.isViable = true) : t.hasAction q a = true := by
  have : t.actions.action q a = some x := ha
  simp only [DecisionTables.hasAction, ActionTable.hasAction, this, hx]

/-- **A reduction on top of a path**: the right side of its rule lies on top, and below it there is
a state to go to. -/
theorem reduce_path (h : g.Built t) {q : Nat} {below : List Nat} {symbols : List GrammarSymbol}
    (hp : g.Path (q :: below) symbols) {a : GrammarSymbol} {n : Nat}
    (ha : t.action q a = some (.reduce n)) :
    ∃ r ∈ g.rules, t.rules.get? n = some r ∧ ∃ top under seen target,
      (q :: below).drop r.arity = top :: under ∧ symbols = r.right.reverse ++ seen ∧
      g.Path (top :: under) seen ∧ t.goto top r.left = some target ∧
      (r.left, target) ∈ g.edgesAt top := by
  cases (h.action_iff rfl).mp ha with
  | @reduce r _ complete other _ =>
    have hr : r ∈ g.rules := (of_itemsAt h.numbered complete).rule_mem
    obtain ⟨top, under, seen, hdrop, hsymbols, hpath, hitem⟩ := hp.back h.numbered complete
    refine ⟨r, hr, by rw [h.rules_eq, h.numbered.get?_number hr], top, under, seen, ?_⟩
    -- the item that begins the rule is no start, so it was expected
    obtain ⟨j, hj, hnext⟩ : ∃ j ∈ g.itemsAt top, j.next? = some r.left := by
      rcases expected_of_dot_eq_zero h.numbered hitem rfl with ⟨_, heq⟩ | hexp
      · exact absurd (congrArg Item.rule heq) other
      · exact hexp
    obtain ⟨target, hedge⟩ := exists_edge_of_next? h.numbered hj hnext
    refine ⟨target, hdrop, ?_, hpath, h.goto_iff.mpr ⟨hedge, isNonterminal_left hr⟩, hedge⟩
    rw [hsymbols, List.take_length]

/-- No cell reduces by the start rule. -/
theorem reduce_ne_start (h : g.Built t) {q n : Nat} {a : GrammarSymbol} {r : Rule}
    (ha : t.action q a = some (.reduce n)) (hr : t.rule n = .ok r) : r ≠ g.start := by
  cases (h.action_iff rfl).mp ha with
  | @reduce r' _ complete other _ =>
    have hr' : r' ∈ g.rules := (of_itemsAt h.numbered complete).rule_mem
    unfold DecisionTables.rule RuleSet.rule at hr
    rw [h.rules_eq, h.numbered.get?_number hr'] at hr
    rw [← Except.ok.inj hr]
    exact other

/-- **Acceptance on top of a path**: the end of the input is next, and the path is the right side of
the start rule. -/
theorem accept_path (h : g.Built t) {q : Nat} {below : List Nat} {symbols : List GrammarSymbol}
    (hp : g.Path (q :: below) symbols) {a : GrammarSymbol} (ha : t.action q a = some .accept) :
    a = endMarker ∧ symbols = g.start.right.reverse := by
  cases (h.action_iff rfl).mp ha with
  | accept complete =>
    obtain ⟨top, under, seen, _, hsymbols, hpath, hitem⟩ := hp.back h.numbered complete
    refine ⟨rfl, ?_⟩
    rcases expected_of_dot_eq_zero h.numbered hitem rfl with ⟨rfl, _⟩ | ⟨j, hj, hnext⟩
    · rw [hsymbols, hpath.symbols_eq_nil h.numbered, List.append_nil, List.take_length]
    · exact absurd hnext (h.not_expected hj)

/-! ## The driver accepts sentences only -/

/-- What the driver has read: the symbols of its path derive the part of the word behind it. -/
def Reads (g : RuleSet) (whole : List GrammarSymbol) (d : Driver) : Prop :=
  ∃ symbols seen, g.Path d.states symbols ∧ g.Forest symbols.reverse seen ∧ seen ++ d.input = whole

/-- A move keeps what was read. -/
theorem reads_step (h : g.Built t) {whole : List GrammarSymbol} {d e : Driver}
    (hd : Reads g whole d) (hstep : d.step t = some e) : Reads g whole e := by
  obtain ⟨q, below, a, rest, rfl, hcases⟩ := Driver.step_cases hstep
  obtain ⟨symbols, seen, hpath, hforest, rfl⟩ := hd
  -- a shift reads one more terminal; a reduction puts the trees of its right side under a new root
  rcases hcases with ⟨target, haction, rfl⟩ | ⟨n, r, top, under, target, haction, hr, hdrop,
    hgoto, rfl⟩
  · obtain ⟨hedge, hterminal⟩ := h.edge_of_shift haction
    refine ⟨a :: symbols, seen ++ [a], hpath.step hedge, ?_, by simp⟩
    rw [List.reverse_cons]
    exact hforest.append (.terminal hterminal .nil)
  · obtain ⟨r', hr', hget, top', under', below', target', hdrop', hsymbols, hpath', hgoto', hedge⟩
      := h.reduce_path hpath haction
    obtain rfl : r' = r := Option.some.inj (hget.symm.trans hr)
    obtain ⟨rfl, rfl⟩ := List.cons.inj (hdrop'.symm.trans hdrop)
    obtain rfl : target' = target := Option.some.inj (hgoto'.symm.trans hgoto)
    refine ⟨r'.left :: below', seen, hpath'.step hedge, ?_, rfl⟩
    rw [hsymbols, List.reverse_append, List.reverse_reverse] at hforest
    obtain ⟨x, y, rfl, hx, hy⟩ := hforest.split
    rw [List.reverse_cons]
    refine hx.append ?_
    simpa using Forest.rule hr' hy .nil

/-- Moves keep what was read. -/
theorem reads_moves (h : g.Built t) {whole : List GrammarSymbol} {d e : Driver}
    (hd : Reads g whole d) (hmoves : Driver.Moves t d e) : Reads g whole e := by
  induction hmoves with
  | refl => exact hd
  | tail _ hstep ih => exact h.reads_step ih hstep

/-- What stands before the end marker of a word is the word. -/
theorem eq_of_append_endMarker {word seen rest : List GrammarSymbol} (hw : endMarker ∉ word)
    (h : seen ++ endMarker :: rest = word ++ [endMarker]) : seen = word := by
  induction word generalizing seen with
  | nil =>
    cases seen with
    | nil => rfl
    | cons a seen =>
      have := congrArg List.length h
      simp at this
  | cons b word ih =>
    obtain ⟨hb, hword⟩ := not_or.mp (mt List.mem_cons.mpr hw)
    cases seen with
    | nil => exact absurd (List.cons.inj h).1 hb
    | cons a seen =>
      obtain ⟨rfl, htail⟩ := List.cons.inj h
      rw [ih hword htail]

/-- **What is accepted derives from the start rule.** -/
theorem forest_of_accepts (h : g.Built t) {word : List GrammarSymbol} (hw : endMarker ∉ word)
    (ha : t.Accepts word) : g.Forest g.start.right word := by
  obtain ⟨d, hmoves, haccept⟩ := ha
  have hstart : Reads g (word ++ [endMarker]) (.start word) := ⟨[], [], .start, .nil, rfl⟩
  obtain ⟨symbols, seen, hpath, hforest, hwhole⟩ := h.reads_moves hstart hmoves
  obtain ⟨states, input⟩ := d
  unfold Driver.accepting at haccept
  split at haccept
  · next q below a rest hs hi =>
    simp only at hs hi
    subst hs hi
    obtain ⟨rfl, rfl⟩ := h.accept_path hpath (by simpa using haccept)
    rw [List.reverse_reverse] at hforest
    rw [← eq_of_append_endMarker hw hwhole]
    exact hforest
  · exact absurd haccept (by simp)

/-! ## The driver accepts all sentences -/

/-- **The driver follows a derivation.** In a state with an item whose rest derives the word to
come, before a terminal that can follow its rule, the driver reads the word and stands on top of the
completed item. -/
theorem moves_of_forest (h : g.Built t) {symbols word : List GrammarSymbol}
    (hf : g.Forest symbols word) {q : Nat} {below : List Nat} {a : GrammarSymbol}
    {rest : List GrammarSymbol} {i : Item} (hi : i ∈ g.itemsAt q)
    (hrest : i.rule.right.drop i.dot = symbols) (ha : a ∈ g.followSets.get i.rule.left) :
    ∃ states top, Driver.Moves t ⟨q :: below, word ++ a :: rest⟩ ⟨states, a :: rest⟩ ∧
      states.head? = some top ∧ states.drop symbols.length = q :: below ∧
      ⟨i.rule, i.rule.right.length⟩ ∈ g.itemsAt top := by
  induction hf generalizing q below a rest i with
  | nil =>
    refine ⟨q :: below, q, .refl, rfl, rfl, ?_⟩
    -- nothing is left of the rule, so the dot stands at its end
    have hdot : i.dot = i.rule.right.length :=
      Nat.le_antisymm (of_itemsAt h.numbered hi).dot_le (List.drop_eq_nil_iff.mp hrest)
    rw [← hdot]
    exact hi
  | @terminal b symbols word hb _ ih =>
    -- a terminal is shifted over the edge that the item expects
    have hnext : i.next? = some b := Item.next?_eq_some_iff.mpr ⟨symbols, hrest⟩
    obtain ⟨target, hedge⟩ := exists_edge_of_next? h.numbered hi hnext
    have hmem := ((mem_itemsAt_of_edge h.numbered hedge).mpr ⟨i, hi, hnext, rfl⟩).1
    have hrest' : i.advance.rule.right.drop i.advance.dot = symbols := by
      simp only [Item.advance, ← List.drop_drop, hrest, List.drop_one, List.tail_cons]
    obtain ⟨states, top, hmoves, htop, hdrop, hitem⟩ := ih hmem hrest' ha
    refine ⟨states, top, ?_, htop, ?_, hitem⟩
    · refine Relation.ReflTransGen.head ?_ hmoves
      exact Driver.step_shift ((h.action_iff rfl).mpr (.shift hedge hb))
    · rw [List.length_cons, ← List.drop_drop, hdrop, List.drop_one, List.tail_cons]
  | @rule r symbols inner word hr body hsymbols ihBody ihRest =>
    have hnext : i.next? = some r.left := Item.next?_eq_some_iff.mpr ⟨symbols, hrest⟩
    have hrule : i.rule ∈ g.rules := (of_itemsAt h.numbered hi).rule_mem
    have hsplit : i.rule.right = i.rule.right.take i.dot ++ r.left :: symbols := by
      rw [← hrest, List.take_append_drop]
    -- whatever comes after the inner word can follow the inner rule
    obtain ⟨b, tail, htail, hb⟩ : ∃ b tail, word ++ a :: rest = b :: tail ∧
        b ∈ g.followSets.get r.left := by
      cases word with
      | nil =>
        exact ⟨a, rest, rfl,
          mem_follow_of_nullable hrule hsplit (isNonterminal_left hr) hsymbols ha⟩
      | cons b word =>
        exact ⟨b, word ++ a :: rest, rfl,
          mem_follow_of_forest hrule hsplit (isNonterminal_left hr) hsymbols⟩
    obtain ⟨states, top, hmoves, htop, hdrop, hitem⟩ :=
      @ihBody q below b tail (.ofRule r) (ofRule_mem_itemsAt h.numbered hi hr hnext) rfl hb
    have hcomplete : (⟨r, r.right.length⟩ : Item) ∈ g.itemsAt top := hitem
    have hother : r ≠ g.start := by
      rintro rfl
      exact h.not_expected hi hnext
    obtain ⟨target, hedge⟩ := exists_edge_of_next? h.numbered hi hnext
    -- the inner rule is complete and the terminal ahead can follow it, so it is reduced
    have hreduce : Driver.step t ⟨states, b :: tail⟩ = some ⟨target :: q :: below, b :: tail⟩ :=
      Driver.step_reduce htop ((h.action_iff rfl).mpr (.reduce hcomplete hother hb))
        (by rw [h.rules_eq, h.numbered.get?_number hr]) hdrop
        (h.goto_iff.mpr ⟨hedge, isNonterminal_left hr⟩)
    have hmem := ((mem_itemsAt_of_edge h.numbered hedge).mpr ⟨i, hi, hnext, rfl⟩).1
    have hrest' : i.advance.rule.right.drop i.advance.dot = symbols := by
      simp only [Item.advance, ← List.drop_drop, hrest, List.drop_one, List.tail_cons]
    obtain ⟨states', top', hmoves', htop', hdrop', hitem'⟩ := ihRest hmem hrest' ha
    refine ⟨states', top', ?_, htop', ?_, hitem'⟩
    · rw [List.append_assoc, htail]
      rw [htail] at hmoves'
      exact (hmoves.tail hreduce).trans hmoves'
    · rw [List.length_cons, ← List.drop_drop, hdrop', List.drop_one, List.tail_cons]

/-- **What derives from the start rule is accepted.** -/
theorem accepts_of_forest (h : g.Built t) {word : List GrammarSymbol}
    (hf : g.Forest g.start.right word) : t.Accepts word := by
  obtain ⟨states, top, hmoves, htop, _, hitem⟩ :=
    @moves_of_forest g t h _ _ hf 0 [] endMarker [] _ (startItem_mem_itemsAt h.numbered) rfl
      endMarker_mem_follow
  refine ⟨_, hmoves, ?_⟩
  have haccept : t.action top endMarker = some .accept := (h.action_iff rfl).mpr (.accept hitem)
  cases states with
  | nil => simp at htop
  | cons q below =>
    obtain rfl := Option.some.inj htop
    simp [Driver.accepting, haccept]

/-- **The driver accepts exactly what derives from the right side of the start rule.** -/
theorem accepts_iff_derives (h : g.Built t) {word : List GrammarSymbol}
    (hterminal : ∀ a ∈ word, g.isNonterminal a = false) (hend : endMarker ∉ word) :
    t.Accepts word ↔ g.Derives g.start.right word := by
  rw [← forest_iff_derives hterminal]
  exact ⟨h.forest_of_accepts hend, h.accepts_of_forest⟩

end Built

end RuleSet

end Mgol
