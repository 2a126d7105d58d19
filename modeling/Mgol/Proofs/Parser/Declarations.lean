import Mgol.Proofs.Meaning.Phrase
import Mgol.Proofs.Parser.Alignment
import Mgol.Proofs.Semantics.Types

/-! # Names get the types of their own declarations

The type of the declaration in progress is kept beside the stacks, and a recovery cuts the stacks
without touching it. Still it is the type of the keyword below the names: where a type lies on the
stack there is no other one below it, and nothing else is made pending before it is taken off.

* **`RuleSet.Path.expecting`** — what lies below an item that expects a symbol.
* **`RuleSet.symbols_below_names`, `RuleSet.symbols_below_type`** — the stack in a declaration.
* **`ParseState.Declares`, `ParseState.Declares.step`** — the invariant, and that moves keep it.
* **`ParseState.Declaring`** — a name that is about to be reduced, above the type of its
  declaration.
* **`names_get_own_types`** — what becomes of types in a parse, with or without recoveries. -/

namespace Mgol

open SemanticAction

/-! ## The stack in a declaration -/

namespace RuleSet

variable {g : RuleSet} {t : DecisionTables} {q : Nat} {below : List Nat}
  {symbols : List GrammarSymbol} {a : GrammarSymbol}

/-- **Where a symbol stands** in right sides. -/
def places (g : RuleSet) (a : GrammarSymbol) : List (Rule × Nat) :=
  g.rules.flatMap fun r =>
    ((List.range r.right.length).filter fun dot => r.right[dot]? = some a).map fun dot => (r, dot)

/-- The places of a symbol are those where it stands. -/
theorem mem_places {r : Rule} {dot : Nat} :
    (r, dot) ∈ g.places a ↔ r ∈ g.rules ∧ r.right[dot]? = some a := by
  simp only [places, List.mem_flatMap, List.mem_map, List.mem_filter, List.mem_range,
    decide_eq_true_eq, Prod.mk.injEq]
  constructor
  · rintro ⟨r', hr, dot', ⟨-, ha⟩, rfl, rfl⟩
    exact ⟨hr, ha⟩
  · rintro ⟨hr, ha⟩
    exact ⟨r, hr, dot, ⟨(List.getElem?_eq_some_iff.mp ha).1, ha⟩, rfl, rfl⟩

/-- **A state that expects a symbol.** -/
def Expects (g : RuleSet) (q : Nat) (a : GrammarSymbol) : Prop :=
  ∃ i ∈ g.itemsAt q, i.next? = some a

/-- **What lies below where a symbol is expected**: what its rule has before it. Below that the left
side is expected, unless it is the start, below which nothing lies. -/
theorem Path.expecting (hb : g.Built t) (h : g.Path (q :: below) symbols) (ha : g.Expects q a) :
    ∃ r dot, (r, dot) ∈ g.places a ∧ ∃ top under seen,
      symbols = (r.right.take dot).reverse ++ seen ∧ g.Path (top :: under) seen ∧
      (r = g.start → seen = []) ∧ (r ≠ g.start → g.Expects top r.left) := by
  obtain ⟨i, hi, ha⟩ := ha
  obtain ⟨top, under, seen, -, hsymbols, hpath, hitem⟩ := h.back hb.numbered hi
  refine ⟨i.rule, i.dot, mem_places.mpr ⟨(of_itemsAt hb.numbered hi).rule_mem, ha⟩, top, under,
    seen, hsymbols, hpath, ?_⟩
  rcases expected_of_dot_eq_zero hb.numbered hitem rfl with ⟨rfl, heq⟩ | ⟨j, hj, hnext⟩
  · exact ⟨fun _ => hpath.symbols_eq_nil hb.numbered,
      fun hne => absurd (congrArg Item.rule heq) hne⟩
  · refine ⟨fun hstart => ?_, fun _ => ⟨j, hj, hnext⟩⟩
    have hleft : j.next? = some i.rule.left := hnext
    rw [hstart] at hleft
    exact absurd hleft (hb.not_expected hj)

/-- What lies below a symbol that stands in one place only. -/
theorem Path.expecting_once (hb : g.Built t) (h : g.Path (q :: below) symbols)
    (ha : g.Expects q a) {r : Rule} {dot : Nat} (honce : g.places a = [(r, dot)]) :
    ∃ top under seen, symbols = (r.right.take dot).reverse ++ seen ∧ g.Path (top :: under) seen ∧
      (r = g.start → seen = []) ∧ (r ≠ g.start → g.Expects top r.left) := by
  obtain ⟨r', dot', hplace, hbelow⟩ := h.expecting hb ha
  rw [honce] at hplace
  obtain ⟨rfl, rfl⟩ := Prod.mk.inj (List.mem_singleton.mp hplace)
  exact hbelow

/-- What lies below a declaration: the declarations before it, and the beginning of the program. -/
def declared (m : Nat) : List GrammarSymbol := List.replicate m "D" ++ ["varinicio", "inicio"]

/-- No type lies below a declaration. -/
theorem type_notMem_declared (m : Nat) : "TIPO" ∉ declared m := by
  simp [declared, List.mem_replicate]

/-- Only the beginning of the program lies below the declarations. -/
theorem symbols_below_section (h : mgol.Path (q :: below) symbols) (ha : mgol.Expects q "V") :
    symbols = ["inicio"] := by
  have hsection : mgol.places "V" = [(⟨2, "P", ["inicio", "V", "A"]⟩, 1)] := by decide +kernel
  have hprogram : mgol.places "P" = [(⟨1, "P'", ["P"]⟩, 0)] := by decide +kernel
  obtain ⟨top, under, seen, rfl, hpath, -, hexpects⟩ := h.expecting_once mgol_built ha hsection
  -- the program is expected at the very beginning alone
  obtain ⟨_, _, seen, rfl, -, hstart, -⟩ :=
    hpath.expecting_once mgol_built (hexpects (by decide)) hprogram
  rw [hstart rfl]
  rfl

/-- The declarations before them lie below further declarations. -/
theorem symbols_below_declarations (h : mgol.Path (q :: below) symbols)
    (ha : mgol.Expects q "LV") : ∃ m, symbols = declared m := by
  -- by the number of symbols: each declaration is one fewer
  induction hn : symbols.length using Nat.strong_induction_on generalizing q below symbols with
  | _ n ih =>
    obtain ⟨r, dot, hplace, top, under, seen, rfl, hpath, -, hexpects⟩ := h.expecting mgol_built ha
    rw [show mgol.places "LV" = [(⟨3, "V", ["varinicio", "LV"]⟩, 1), (⟨4, "LV", ["D", "LV"]⟩, 1)]
      from by decide +kernel] at hplace
    rcases List.mem_pair.mp hplace with hplace | hplace
    · obtain ⟨rfl, rfl⟩ := Prod.mk.inj hplace
      rw [symbols_below_section hpath (hexpects (by decide))]
      exact ⟨0, rfl⟩
    · obtain ⟨rfl, rfl⟩ := Prod.mk.inj hplace
      obtain ⟨m, rfl⟩ := ih _ (by simp at hn; omega) hpath (hexpects (by decide)) rfl
      exact ⟨m + 1, rfl⟩

/-- Other declarations lie below one. -/
theorem symbols_below_declaration (h : mgol.Path (q :: below) symbols) (ha : mgol.Expects q "D") :
    ∃ m, symbols = declared m := by
  have honce : mgol.places "D" = [(⟨4, "LV", ["D", "LV"]⟩, 0)] := by decide +kernel
  obtain ⟨top, under, seen, rfl, hpath, -, hexpects⟩ := h.expecting_once mgol_built ha honce
  exact symbols_below_declarations hpath (hexpects (by decide))

/-- **A type lies above declarations**, so there is no other one below it. -/
theorem symbols_below_type {states : List Nat} {seen : List GrammarSymbol}
    (h : mgol.Path states ("TIPO" :: seen)) : ∃ m, seen = declared m := by
  cases h with
  | step path edge =>
    have honce : mgol.places "TIPO" = [(⟨6, "D", ["TIPO", "L", "pt_v"]⟩, 0)] := by decide +kernel
    obtain ⟨top, under, seen, rfl, hpath, -, hexpects⟩ :=
      path.expecting_once mgol_built (exists_item_of_edge mgol_numbered edge) honce
    exact symbols_below_declaration hpath (hexpects (by decide))

/-- What lies between a type and a list of names: `k` names, each with a comma behind it. -/
def listed (k : Nat) : List GrammarSymbol := (List.replicate k ["vir", "id"]).flatten

/-- **A list of names lies on a type**, or on names of the same declaration. -/
theorem symbols_below_names (h : mgol.Path (q :: below) symbols) (ha : mgol.Expects q "L") :
    ∃ k m, symbols = listed k ++ "TIPO" :: declared m := by
  induction hn : symbols.length using Nat.strong_induction_on generalizing q below symbols with
  | _ n ih =>
    obtain ⟨r, dot, hplace, top, under, seen, rfl, hpath, -, hexpects⟩ := h.expecting mgol_built ha
    rw [show mgol.places "L" = [(⟨6, "D", ["TIPO", "L", "pt_v"]⟩, 1),
      (⟨7, "L", ["id", "vir", "L"]⟩, 2)] from by decide +kernel] at hplace
    rcases List.mem_pair.mp hplace with hplace | hplace
    · obtain ⟨rfl, rfl⟩ := Prod.mk.inj hplace
      obtain ⟨m, rfl⟩ := symbols_below_declaration hpath (hexpects (by decide))
      exact ⟨0, m, rfl⟩
    · obtain ⟨rfl, rfl⟩ := Prod.mk.inj hplace
      obtain ⟨k, m, rfl⟩ := ih _ (by simp at hn; omega) hpath (hexpects (by decide)) rfl
      exact ⟨k + 1, m, rfl⟩

end RuleSet

/-! ## The invariant -/

/-- **The reserved words that name types.** -/
def typeWords : List Keyword := [.inteiro, .real, .literal]

/-- The value of a type: its keyword, with the type that it names. -/
def typeValue (word : Keyword) : Token := ⟨.nonterminal, word.spelling, keywordType (.keyword word)⟩

/-- **What the values of symbols say about types**, while one is pending: a reserved word is itself,
and a type is the one that is pending. -/
structure Announces (pending : DataType) (a : GrammarSymbol) (v : Spanned Token) : Prop where
  reserved : ∀ word : Keyword, a = word.spelling →
    v.value.kind = .keyword word ∧ v.value.lexeme = word.spelling
  type : a = "TIPO" → ∃ word ∈ typeWords, v.value = typeValue word ∧
    pending = keywordType (.keyword word)

/-- Without a type among the symbols it does not matter which one is pending. -/
theorem announces_of_notMem {pending : DataType} {symbols : List GrammarSymbol}
    {values : List (Spanned Token)} (h : List.Forall₂ (Announces pending) symbols values)
    (hsymbols : "TIPO" ∉ symbols) (pending' : DataType) :
    List.Forall₂ (Announces pending') symbols values := by
  induction h with
  | nil => exact .nil
  | cons hfirst _ ih =>
    rw [List.mem_cons, not_or] at hsymbols
    exact .cons ⟨hfirst.reserved, fun ha => absurd ha.symm hsymbols.1⟩ (ih hsymbols.2)

/-- The left side of a rule that makes no type says nothing about types. -/
theorem announces_left {r : Rule} (hr : r ∈ RuleSet.mgol.rules) (hnumber : r.number ∉ [9, 10, 11])
    (pending : DataType) (v : Spanned Token) : Announces pending r.left v where
  reserved word hword := by
    have hnone : ∀ r ∈ RuleSet.mgol.rules, ∀ word ∈ Keyword.all, r.left ≠ word.spelling := by
      decide +kernel
    exact absurd hword (hnone r hr word word.mem_all)
  type htype := by
    have hrules : ∀ r ∈ RuleSet.mgol.rules, r.left = "TIPO" → r.number ∈ [9, 10, 11] := by
      decide +kernel
    exact absurd (hrules r hr htype) hnumber

/-- A rule that makes a type has its keyword on the right side. -/
theorem right_of_type {r : Rule} (hr : r ∈ RuleSet.mgol.rules) (hnumber : r.number ∈ [9, 10, 11]) :
    r.left = "TIPO" ∧ ∃ word ∈ typeWords, r.right = [word.spelling] := by
  revert r
  decide +kernel

/-- The rule of declarations. -/
theorem right_of_declaration {r : Rule} (hr : r ∈ RuleSet.mgol.rules) (hnumber : r.number = 6) :
    r.right = ["TIPO", "L", "pt_v"] := by
  revert r
  decide +kernel

namespace ParseState

/-- **The invariant of declarations** over the symbols on the stack, top first. -/
structure Declares (symbols : List GrammarSymbol) (p : ParseState) : Prop where
  follows : Follows RuleSet.mgol p symbols
  actions_eq : p.executor.actions = mgolActions
  fluent : p.scanner.Fluent
  spelled : p.lookahead.value.Spelled
  reserves : p.scanner.registry.Reserves
  announced : List.Forall₂ (Announces p.executor.work.pendingType) symbols p.executor.values.items

/-- The next move of a parse of MGol **reduces by a rule**. -/
def ReducesBy (p : ParseState) (r : Rule) : Prop :=
  ∃ q below n, p.states.items = q :: below ∧
    DecisionTables.mgol.action q p.terminal = some (.reduce n) ∧ DecisionTables.mgol.rule n = .ok r

/-- **What a move does to types**: entries stay as they are, or one name gets the pending type. That
is the name that the move reduces in a declaration, and it has had none. -/
structure Retypes (p p' : ParseState) : Prop where
  grows : p.scanner.registry.Grows p'.scanner.registry
  types : ∀ lexeme, p'.scanner.registry.typeOf lexeme = p.scanner.registry.typeOf lexeme ∨
    ∃ r id, p.ReducesBy r ∧ (r.number = 7 ∨ r.number = 8) ∧
      (p.executor.taken r)[0]? = some id ∧ id.value.lexeme = lexeme ∧
      p.scanner.registry.typeOf lexeme = .untyped ∧
      p'.scanner.registry.typeOf lexeme = p.executor.work.pendingType

/-- Entering names changes no type. -/
theorem Retypes.of_enters {p p' : ParseState}
    (h : p.scanner.registry.Enters p'.scanner.registry) : p.Retypes p' :=
  ⟨h.kept.grows, fun lexeme => .inl (congrFun h.types_eq lexeme)⟩

namespace Declares

variable {symbols : List GrammarSymbol} {p p' : ParseState}

/-- What is noted and told does not matter. -/
theorem of_note (h : p.Declares symbols) {j : Journal}
    (hscanner : p'.scanner = p.scanner.withJournal j) (hstates : p'.states = p.states)
    (hexecutor : p'.executor = p.executor) (hlookahead : p'.lookahead = p.lookahead) :
    p'.Declares symbols := by
  obtain ⟨scanner, states, executor, lookahead, trigger, metrics, diagnostics, history⟩ := p'
  subst hscanner hstates hexecutor hlookahead
  exact
    { follows := ⟨h.follows.path, h.follows.values_length, h.follows.within⟩
      actions_eq := h.actions_eq
      fluent := ⟨h.fluent.lexicon_eq, h.fluent.sound, h.fluent.plain⟩
      spelled := h.spelled
      reserves := h.reserves
      announced := h.announced }

/-- The next lookahead is well spelled, and names are entered on the way to it. -/
theorem found (h : p.Declares symbols) {j : Journal} {t : Spanned Token} {s : Scanner}
    (found : (p.scanner.withJournal j).nextVisible = (.ok t, s)) :
    s.Fluent ∧ t.value.Spelled ∧ p.scanner.registry.Enters s.registry := by
  have hfinds := Scanner.finds_of_nextVisible found
  have hfluent : (p.scanner.withJournal j).Fluent :=
    ⟨h.fluent.lexicon_eq, h.fluent.sound, h.fluent.plain⟩
  obtain ⟨hs, hspelled, htypes⟩ := hfinds.fluent hfluent
  exact ⟨hs, hspelled, (hfinds.advanced h.fluent.sound).grown, htypes⟩

/-- An alarm changes nothing that matters. -/
theorem alarmed (h : p.Declares symbols) (q : Nat) (slot : Option Nat) :
    (p.alarmed .mgol q slot).Declares symbols ∧
      p.scanner.registry.Enters (p.alarmed .mgol q slot).scanner.registry := by
  obtain ⟨j, metrics, history, diagnostics, _, heq⟩ := p.alarmed_eq .mgol q slot
  rw [heq]
  exact ⟨h.of_note rfl rfl rfl rfl, .refl _⟩

/-- Dropping lookaheads may enter names. -/
theorem dropped (h : p.Declares symbols) (hd : Relation.ReflTransGen Drops p p') :
    p'.Declares symbols ∧ p.scanner.registry.Enters p'.scanner.registry := by
  induction hd with
  | refl => exact ⟨h, .refl _⟩
  | tail _ hdrop ih =>
    obtain ⟨hq, henters⟩ := ih
    cases hdrop with
    | drop more found =>
      obtain ⟨hfluent, hspelled, hnew⟩ := hq.found found
      exact
        ⟨{ follows := ⟨hq.follows.path, hq.follows.values_length, hq.follows.within⟩
           actions_eq := hq.actions_eq
           fluent := hfluent
           spelled := hspelled
           reserves := hq.reserves.of_extends hnew.kept
           announced := hq.announced }, henters.trans hnew⟩

/-- **Cutting the stacks** leaves the pending type as it is, and that of the type that is left, if
there is one. -/
theorem resynchronized (h : p.Declares symbols) {n : Nat}
    (hsync : p.resynchronize? .mgol n = some p') :
    ∃ k, p'.Declares (symbols.drop k) ∧ p.scanner.registry.Enters p'.scanner.registry := by
  obtain ⟨k, _, hvalues, _, _, hfollows⟩ := h.follows.resynchronized hsync
  obtain ⟨j, states, values, metrics, rfl⟩ := resynchronize?_eq hsync
  exact
    ⟨k,
     { follows := hfollows
       actions_eq := h.actions_eq
       fluent := ⟨h.fluent.lexicon_eq, h.fluent.sound, h.fluent.plain⟩
       spelled := h.spelled
       reserves := h.reserves
       announced := by
        rw [hvalues]
        exact List.forall₂_drop k h.announced }, .refl _⟩

/-- A token that is shifted says what it is. -/
theorem announces_lookahead (h : p.Declares symbols) {q target : Nat}
    (cell : DecisionTables.mgol.action q p.terminal = some (.shift target)) (pending : DataType) :
    Announces pending p.terminal p.lookahead where
  reserved word hword := by
    have hkind : p.lookahead.value.kind = .keyword word :=
      Token.kind_of_terminalName rfl (by cases word <;> decide) hword
    exact ⟨hkind, h.spelled.lexeme_eq (by rw [hkind]; rfl)⟩
  type htype := by
    have hterminal := (RuleSet.mgol_built.edge_of_shift cell).2
    rw [htype] at hterminal
    exact absurd hterminal (by decide)

/-- A shift keeps the invariant. -/
theorem shifted (h : p.Declares symbols) {q target : Nat} {below : List Nat}
    (items : p.states.items = q :: below)
    (cell : DecisionTables.mgol.action q p.terminal = some (.shift target)) {states : Stack Nat}
    (pushed : p.states.push target = .ok states) {j : Journal} {t : Spanned Token} {s : Scanner}
    (found : (p.scanner.withJournal j).nextVisible = (.ok t, s)) {values : Stack (Spanned Token)}
    (kept : p.executor.values.push p.lookahead = .ok values) (metrics : SyntaxMetrics) :
    Declares (p.terminal :: symbols)
      { p with
        scanner := s, states, lookahead := t, trigger := none, metrics
        executor := { p.executor with values } } := by
  obtain ⟨hfluent, hspelled, hnew⟩ := h.found found
  obtain ⟨_, hitems, _⟩ := (Stack.push_eq_ok_iff _ _ _).mp kept
  exact
    { follows := h.follows.shifted RuleSet.mgol_built items cell pushed kept rfl rfl
      actions_eq := h.actions_eq
      fluent := hfluent
      spelled := hspelled
      reserves := h.reserves.of_extends hnew.kept
      announced := by
        simp only [hitems]
        exact .cons (h.announces_lookahead cell _) h.announced }

/-- The values after a reduction say what is pending. -/
theorem announced_of_typing (h : p.Declares symbols) {r : Rule} (hr : r ∈ RuleSet.mgol.rules)
    {seen : List GrammarSymbol} (hsymbols : symbols = r.right.reverse ++ seen) {position : Position}
    {j : Journal} {v : Token} {c : ActionContext}
    (htyping : Reduction.Typing ⟨r, p.executor.taken r, position⟩
      ⟨p.executor.work, ⟨p.scanner.registry, j⟩⟩ v c) {states : List Nat}
    (hpath : RuleSet.mgol.Path states (r.left :: seen)) (span : Span) :
    List.Forall₂ (Announces c.work.pendingType) (r.left :: seen)
      (⟨v, span⟩ :: p.executor.values.items.drop r.arity) := by
  have hannounced := h.announced
  rw [hsymbols] at hannounced
  obtain ⟨htaken, hbelow⟩ := Executor.forall₂_taken hannounced
  cases htyping with
  | steady other same =>
    rw [same.pending_eq]
    exact .cons (announces_left hr (fun hmem => other (List.mem_cons_of_mem _ hmem)) _ _) hbelow
  | named number first new set pending_eq =>
    rw [pending_eq]
    refine .cons (announces_left hr ?_ _ _) hbelow
    rcases number with number | number <;> simp only at number <;> rw [number] <;> decide
  | ended number registry_eq =>
    -- the type was taken off, and there was no other one
    have hunder := h.follows.path
    rw [hsymbols, right_of_declaration hr number] at hunder
    have hlength := hunder.length_eq
    obtain ⟨m, rfl⟩ := RuleSet.symbols_below_type (hunder.drop (n := 2) (by simp at hlength; omega))
    simp only at number
    exact .cons (announces_left hr (by rw [number]; decide) _ _)
      (announces_of_notMem hbelow (RuleSet.type_notMem_declared m) _)
  | @begun keyword number first value registry_eq pending_eq =>
    obtain ⟨hleft, word, hword, hright⟩ := right_of_type hr number
    rw [hleft] at hpath ⊢
    obtain ⟨m, rfl⟩ := RuleSet.symbols_below_type hpath
    -- the keyword is the one that the rule names
    rw [hright] at htaken
    simp only at first
    generalize p.executor.taken r = taken at htaken first
    cases htaken with
    | cons hkeyword hnil =>
      obtain rfl := Option.some.inj first
      obtain ⟨hkind, hlexeme⟩ := hkeyword.reserved word rfl
      rw [hkind, hlexeme] at value
      rw [pending_eq, value]
      refine .cons ⟨fun other hother => ?_, fun _ => ⟨word, hword, rfl, rfl⟩⟩
        (announces_of_notMem hbelow (RuleSet.type_notMem_declared m) _)
      cases other <;> exact absurd hother (by decide)

/-- **A reduction keeps the invariant**, and gives no type but the pending one. -/
theorem reduced (h : p.Declares symbols) {q n : Nat} {below : List Nat}
    (items : p.states.items = q :: below)
    (cell : DecisionTables.mgol.action q p.terminal = some (.reduce n)) {r : Rule}
    (rule : DecisionTables.mgol.rule n = .ok r) {states : Stack Nat}
    (reduced : reducedStates p.states .mgol r = .ok states) {j : Journal} {executor : Executor}
    {session : Session}
    (run : p.executor.reduce r p.lookahead.span.start ⟨p.scanner.registry, j⟩ =
      (.ok (), executor, session)) (metrics : SyntaxMetrics) :
    ∃ symbols', Declares symbols'
        { p with scanner := { p.scanner with session }, states, executor, metrics } ∧
      Retypes p { p with scanner := { p.scanner with session }, states, executor, metrics } := by
  obtain ⟨seen, v, c, hperformed⟩ :=
    h.follows.performed RuleSet.mgol_built items cell rule reduced run
  obtain ⟨j', rfl⟩ := hperformed.session_eq
  have hperform := hperformed.perform_eq
  rw [h.actions_eq] at hperform
  have htyping := typing_of_perform hperform
  have hfollows : Follows RuleSet.mgol _ (r.left :: seen) := hperformed.follows
    { p with scanner := { p.scanner with session := ⟨c.session.registry, j'⟩ }, states, executor,
             metrics } rfl rfl
  refine ⟨r.left :: seen, ?_, ?_⟩
  · exact
      { follows := hfollows
        actions_eq := hperformed.actions_eq.trans h.actions_eq
        fluent := ⟨h.fluent.lexicon_eq, h.fluent.sound.of_sameWords htyping.sameWords,
          h.fluent.plain.of_sameWords htyping.sameWords⟩
        spelled := h.spelled
        reserves := htyping.reserves h.reserves
        announced := by
          simp only [hperformed.stacked_eq, hperformed.work_eq]
          exact h.announced_of_typing hperformed.rule_mem hperformed.symbols_eq htyping
            hfollows.path _ }
  · refine ⟨htyping.grows, fun lexeme => (htyping.types lexeme).imp id ?_⟩
    rintro ⟨id, hnumber, hfirst, hname, hnew, htype⟩
    exact ⟨r, id, ⟨q, below, n, items, cell, rule⟩, hnumber, hfirst, hname, hnew, htype⟩

/-- **Every move keeps the invariant.** -/
theorem step (h : p.Declares symbols) {o : SyntaxOptions} (hstep : p.step .mgol o = .next p') :
    (∃ symbols', p'.Declares symbols') ∧ p.Retypes p' := by
  have heffect := step_effect .mgol o p
  rw [hstep] at heffect
  cases heffect with
  | shift items cell pushed found kept =>
    exact ⟨⟨_, h.shifted items cell pushed found kept _⟩, .of_enters (h.found found).2.2⟩
  | reduce items cell rule reduced run =>
    obtain ⟨symbols', hdeclares, hretypes⟩ := h.reduced items cell rule reduced run _
    exact ⟨⟨symbols', hdeclares⟩, hretypes⟩
  | @resumed q below slot _ items cell recovered =>
    have hrecover := (recover_effect .mgol (p.alarmed .mgol q slot) p.repeated).1
    rw [recovered] at hrecover
    cases hrecover with
    | resumed dropped synchronized =>
      obtain ⟨halarmed, hfirst⟩ := h.alarmed q slot
      obtain ⟨hdropped, hsecond⟩ := halarmed.dropped dropped
      obtain ⟨k, hdeclares, hthird⟩ := hdropped.resynchronized synchronized
      exact ⟨⟨_, hdeclares⟩, .of_enters (hfirst.trans (hsecond.trans hthird))⟩

/-- A parse that is given up has only entered names since. -/
theorem abandoned (h : p.Declares symbols) {o : SyntaxOptions}
    (hstep : p.step .mgol o = .abandoned p') : p'.Declares symbols ∧ p.Retypes p' := by
  have heffect := step_effect .mgol o p
  rw [hstep] at heffect
  cases heffect with
  | @abandoned q below slot last items cell recovered =>
    have hrecover := (recover_effect .mgol (p.alarmed .mgol q slot) p.repeated).1
    rw [recovered] at hrecover
    cases hrecover with
    | exhausted dropped =>
      obtain ⟨halarmed, hfirst⟩ := h.alarmed q slot
      obtain ⟨hlast, hsecond⟩ := halarmed.dropped dropped
      exact ⟨hlast.of_note rfl rfl rfl rfl, .of_enters (hfirst.trans hsecond)⟩

end Declares

/-! ## Names above the type of their declaration -/

/-- **A name that is about to be reduced in a declaration of a type**: below the right side of its
rule lie names of the same declaration and then the type, which is the pending one. -/
structure Declaring (p : ParseState) (r : Rule) (word : Keyword) : Prop where
  keyword : word ∈ typeWords
  pending_eq : p.executor.work.pendingType = keywordType (.keyword word)
  below : ∃ k m type,
    Follows RuleSet.mgol p
      (r.right.reverse ++ (RuleSet.listed k ++ "TIPO" :: RuleSet.declared m)) ∧
    p.executor.values.items[r.arity + 2 * k]? = some type ∧ type.value = typeValue word

/-- **Names are reduced above the type of their declaration.** -/
theorem Declares.declaring {symbols : List GrammarSymbol} {p : ParseState}
    (h : p.Declares symbols) {r : Rule} (hreduces : p.ReducesBy r)
    (hnumber : r.number = 7 ∨ r.number = 8) : ∃ word, p.Declaring r word := by
  obtain ⟨q, below, n, items, cell, rule⟩ := hreduces
  obtain ⟨r', hr, hrule, top, under, target, seen, -, rfl, -, -, hpath, -⟩ :=
    h.follows.reduced RuleSet.mgol_built items cell
  obtain rfl : r' = r := Except.ok.inj (hrule.symm.trans rule)
  have hleft : r'.left = "L" := by
    have hrules : ∀ r ∈ RuleSet.mgol.rules, r.number = 7 ∨ r.number = 8 → r.left = "L" := by
      decide +kernel
    exact hrules r' hr hnumber
  -- the state below the right side expects the list of names that the rule makes
  obtain ⟨k, m, rfl⟩ : ∃ k m, seen = RuleSet.listed k ++ "TIPO" :: RuleSet.declared m := by
    cases hpath with
    | step path edge =>
      rw [hleft] at edge
      exact RuleSet.symbols_below_names path
        (RuleSet.exists_item_of_edge RuleSet.mgol_numbered edge)
  have hbelow := List.forall₂_drop (RuleSet.listed k).length (Executor.forall₂_taken h.announced).2
  rw [List.drop_left, List.drop_drop] at hbelow
  have hlength : (RuleSet.listed k).length = 2 * k := by simp [RuleSet.listed, Nat.mul_comm]
  rw [hlength] at hbelow
  generalize hrest : p.executor.values.items.drop (r'.arity + 2 * k) = rest at hbelow
  cases hbelow with
  | @cons _ type _ _ hannounces _ =>
    obtain ⟨word, hword, hvalue, hpending⟩ := hannounces.type rfl
    refine ⟨word, hword, hpending, k, m, type, h.follows, ?_, hvalue⟩
    rw [← Nat.add_zero (r'.arity + 2 * k), ← List.getElem?_drop, hrest]
    rfl

/-! ## Whole parses -/

/-- The invariant holds in every state that a parse comes to, and the registry grows. -/
theorem Declares.configuration {symbols : List GrammarSymbol} {p p' : ParseState}
    (h : p.Declares symbols) {o : SyntaxOptions} (hp : Configuration .mgol o p p') :
    (∃ symbols', p'.Declares symbols') ∧ p.scanner.registry.Grows p'.scanner.registry := by
  refine hp.keeps (fun p' =>
    (∃ symbols', p'.Declares symbols') ∧ p.scanner.registry.Grows p'.scanner.registry) ?_ ?_ ?_
  · exact ⟨⟨symbols, h⟩, (Registry.Enters.refl _).kept.grows⟩
  · rintro _ _ ⟨⟨symbols', hdeclares⟩, hgrows⟩ hmove
    obtain ⟨hnext, hretypes⟩ := hdeclares.step hmove
    exact ⟨hnext, hgrows.trans hretypes.grows⟩
  · rintro _ _ ⟨⟨symbols', hdeclares⟩, hgrows⟩ hlast
    obtain ⟨hleft, hretypes⟩ := hdeclares.abandoned hlast
    exact ⟨⟨symbols', hleft⟩, hgrows.trans hretypes.grows⟩

/-- Moves keep the invariant, and the registry grows. -/
theorem Declares.moved {symbols : List GrammarSymbol} {p p' : ParseState} (h : p.Declares symbols)
    {o : SyntaxOptions}
    (moves : Relation.ReflTransGen (fun p p' => p.step .mgol o = .next p') p p') :
    (∃ symbols', p'.Declares symbols') ∧ p.scanner.registry.Grows p'.scanner.registry :=
  h.configuration (.reached moves)

end ParseState

/-- The invariant holds when a parse of MGol begins. -/
theorem declares_of_startState {input : Input} {journal : Journal} {options : ScanOptions}
    {o : SyntaxOptions} {p₀ : ParseState} {j : Journal}
    (hstart : startState (.ofInput input .mgol ⟨.reserved, journal⟩ options)
      (.mgol o.effectiveCapacity) o.effectiveCapacity = (.ok p₀, j)) : p₀.Declares [] := by
  have hfluent := Scanner.fluent_ofInput input journal options
  obtain ⟨t, s, states, hfound, hitems, hcapacity, rfl⟩ := eq_of_startState hstart
  have hfinds := Scanner.finds_of_nextVisible hfound
  obtain ⟨hs, hspelled, -⟩ := hfinds.fluent hfluent
  exact
    { follows :=
        { path := by rw [hitems]; exact .start
          values_length := rfl
          within := by rw [hitems, hcapacity]; exact o.effectiveCapacity_pos }
      actions_eq := rfl
      fluent := hs
      spelled := hspelled
      reserves := Registry.reserves_reserved.of_extends (hfinds.advanced hfluent.sound).grown
      announced := .nil }

/-- **Names get the types of their own declarations, once and for all.** Take any parse of MGol that
begins with the reserved words, with or without syntax errors.

The reserved words stay as they are. Every entry stays in its class, and with its type once it has
one. A move changes a type only where it reduces a name in a declaration: the name had no type, and
it gets that of the keyword below the list that it stands in. At every such reduction that keyword's
type is the pending one, whatever a recovery has cut off before. -/
theorem names_get_own_types (input : Input) (journal : Journal) (options : ScanOptions)
    (o : SyntaxOptions) {p₀ : ParseState} {j : Journal}
    (hstart : startState (.ofInput input .mgol ⟨.reserved, journal⟩ options)
      (.mgol o.effectiveCapacity) o.effectiveCapacity = (.ok p₀, j)) :
    (∀ p, ParseState.Configuration .mgol o p₀ p → p.scanner.registry.Reserves) ∧
    ∀ p, Relation.ReflTransGen (fun p p' => p.step .mgol o = .next p') p₀ p →
      (∀ p', ParseState.Configuration .mgol o p p' →
        p.scanner.registry.Grows p'.scanner.registry) ∧
      (∀ p', p.step .mgol o = .next p' ∨ p.step .mgol o = .abandoned p' →
        ∀ lexeme, p'.scanner.registry.typeOf lexeme = p.scanner.registry.typeOf lexeme ∨
          ∃ r id word, p.ReducesBy r ∧ (r.number = 7 ∨ r.number = 8) ∧
            (p.executor.taken r)[0]? = some id ∧ id.value.lexeme = lexeme ∧
            p.scanner.registry.typeOf lexeme = .untyped ∧ p.Declaring r word ∧
            p'.scanner.registry.typeOf lexeme = keywordType (.keyword word)) ∧
      ∀ r, p.ReducesBy r → r.number = 7 ∨ r.number = 8 → ∃ word, p.Declaring r word := by
  have hbegin := declares_of_startState hstart
  refine ⟨fun p hp => ?_, fun p hmoves => ?_⟩
  · obtain ⟨⟨symbols, hdeclares⟩, -⟩ := hbegin.configuration hp
    exact hdeclares.reserves
  · obtain ⟨⟨symbols, hdeclares⟩, -⟩ := hbegin.moved hmoves
    refine ⟨fun p' hp' => (hdeclares.configuration hp').2, fun p' hstep lexeme => ?_,
      fun r hreduces hnumber => hdeclares.declaring hreduces hnumber⟩
    have hretypes : p.Retypes p' := by
      rcases hstep with hstep | hstep
      · exact (hdeclares.step hstep).2
      · exact (hdeclares.abandoned hstep).2
    refine (hretypes.types lexeme).imp id ?_
    rintro ⟨r, id, hreduces, hnumber, hfirst, hname, hnew, htype⟩
    obtain ⟨word, hdeclaring⟩ := hdeclares.declaring hreduces hnumber
    exact ⟨r, id, word, hreduces, hnumber, hfirst, hname, hnew, hdeclaring,
      htype.trans hdeclaring.pending_eq⟩

/-- A program with a declaration that breaks off behind a comma, where another one begins. -/
def abandonedDeclaration : String := "inicio varinicio inteiro A, real C; varfim; fim"

/-- The name in the declaration that was abandoned gets no type. The other one gets its own behind
the recovery, in a reduction above the type of its declaration. -/
theorem names_get_own_types_abandoned :
    ∃ p₀ j p p', startState (.ofInput ⟨Text.encode abandonedDeclaration, none⟩)
        (.mgol (SyntaxOptions.effectiveCapacity {})) (SyntaxOptions.effectiveCapacity {}) =
          (.ok p₀, j) ∧
      p₀.after? .mgol {} 10 = some p ∧ p.step .mgol {} = .next p' ∧ p.metrics.recoveries = 1 ∧
      p'.scanner.registry.typeOf "A" = .untyped ∧ p'.scanner.registry.typeOf "C" = .real ∧
      (∃ r id word, p.ReducesBy r ∧ (r.number = 7 ∨ r.number = 8) ∧
        (p.executor.taken r)[0]? = some id ∧ id.value.lexeme = "C" ∧ p.Declaring r word ∧
        keywordType (.keyword word) = .real) ∧
      p.scanner.registry.Grows p'.scanner.registry ∧ p'.scanner.registry.Reserves := by
  have hcomputed : (((startState (.ofInput ⟨Text.encode abandonedDeclaration, none⟩)
      (.mgol (SyntaxOptions.effectiveCapacity {}))
      (SyntaxOptions.effectiveCapacity {})).1.toOption.bind
      (ParseState.after? .mgol {} 10)).bind fun p => (p.after? .mgol {} 1).map fun p' =>
        (p.metrics.recoveries, p.scanner.registry.typeOf "C", p'.scanner.registry.typeOf "A",
          p'.scanner.registry.typeOf "C")) = some (1, .untyped, .untyped, .real) := by
    decide +kernel
  obtain ⟨p, hp, hlast⟩ := Option.bind_eq_some_iff.mp hcomputed
  obtain ⟨p₀, hstarted, hmoves⟩ := Option.bind_eq_some_iff.mp hp
  obtain ⟨p', hmove, hfound⟩ := Option.map_eq_some_iff.mp hlast
  simp only [Prod.mk.injEq] at hfound
  obtain ⟨hrecoveries, hbefore, hother, hafter⟩ := hfound
  have hstep : p.step .mgol {} = .next p' := by
    unfold ParseState.after? at hmove
    split at hmove
    · next q hstep => rw [hstep, Option.some.inj hmove]
    · cases hmove
  obtain ⟨j, hstart⟩ := exists_start hstarted
  have hreached := ParseState.reaches_of_after? hmoves
  obtain ⟨hreserves, htypes⟩ := names_get_own_types _ _ _ {} hstart
  obtain ⟨hgrows, hchange, -⟩ := htypes p hreached
  refine ⟨p₀, j, p, p', hstart, hmoves, hstep, hrecoveries, hother, hafter, ?_,
    hgrows p' (.reached (.single hstep)), hreserves p' (.reached (hreached.tail hstep))⟩
  -- the type of the name has changed, so it was reduced
  rcases hchange p' (.inl hstep) "C" with
    hsame | ⟨r, id, word, hreduces, hnumber, hfirst, hname, -, hdeclaring, htype⟩
  · rw [hafter, hbefore] at hsame
    cases hsame
  · exact ⟨r, id, word, hreduces, hnumber, hfirst, hname, hdeclaring, htype.symm.trans hafter⟩

end Mgol
