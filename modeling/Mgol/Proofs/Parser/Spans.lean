import Mgol.Proofs.Compiler.Gates
import Mgol.Proofs.Parser.Checked
import Mgol.Proofs.Scanner.Resumption
import Mgol.Proofs.Semantics.Parts

/-! # Where the values of a parse lie

The values on the stack lie in the order of the source and do not overlap, and the lookahead lies
behind all of them. Reductions merge the spans of neighbours, so they merge to what lies between the
first and the last of them; recoveries take values off the top and move the lookahead on. Neither
depends on the tables or on what the actions do.

* **`Span.cover_cons`** — the least span over spans in order.
* **`Scanner.Begins`, `Scanner.Leads`** — the places where tokens start, and scanners that have read
  on in a source.
* **`ParseState.Spaced`, `ParseState.Spaced.step`** — the order of the spans, after every move.
* **`ParseState.Pointed`** — type errors are reported where tokens start.
* **`value_spans_exact`** — order and extent of the spans of a parse. -/

namespace Mgol

/-! ## Spans in order -/

namespace Span

/-- A span ends no later than another one starts. -/
def Before (a b : Span) : Prop := a.stop.offset ≤ b.start.offset

/-- A span ends no earlier than it starts. -/
def Forward (a : Span) : Prop := a.start.offset ≤ a.stop.offset

/-- Spans in order merge to what lies between the start of the first and the end of the last. -/
theorem foldl_merge {a : Span} {spans : List Span} (ha : a.Forward)
    (hforward : ∀ b ∈ spans, b.Forward) (horder : (a :: spans).Pairwise Before) :
    spans.foldl merge a = ⟨a.start, (spans.getLast?.getD a).stop⟩ := by
  induction spans generalizing a with
  | nil => rfl
  | cons b spans ih =>
    obtain ⟨hafter, horder⟩ := List.pairwise_cons.mp horder
    have hb : b.Forward := hforward b List.mem_cons_self
    have hab : a.Before b := hafter b List.mem_cons_self
    unfold Forward at ha hb
    unfold Before at hab
    have hmerge : a.merge b = ⟨a.start, b.stop⟩ := by
      rw [merge, if_pos (show a.start.offset ≤ b.start.offset by omega),
        if_pos (show a.stop.offset ≤ b.stop.offset by omega)]
    have hmerged : Forward ⟨a.start, b.stop⟩ := by
      show a.start.offset ≤ b.stop.offset
      omega
    obtain ⟨hlater, hrest⟩ := List.pairwise_cons.mp horder
    have horder' : (⟨a.start, b.stop⟩ :: spans).Pairwise Before :=
      List.pairwise_cons.mpr ⟨hlater, hrest⟩
    rw [List.foldl_cons, hmerge,
      ih hmerged (fun c hc => hforward c (List.mem_cons_of_mem b hc)) horder',
      List.getLast?_cons]
    cases spans.getLast? <;> rfl

/-- **The least span over spans in order** runs from the start of the first to the end of the
last. -/
theorem cover_cons (p : Position) {a : Span} {spans : List Span}
    (hforward : ∀ b ∈ a :: spans, b.Forward) (horder : (a :: spans).Pairwise Before) :
    cover p (a :: spans) = ⟨a.start, (spans.getLast?.getD a).stop⟩ :=
  foldl_merge (hforward a List.mem_cons_self)
    (fun b hb => hforward b (List.mem_cons_of_mem a hb)) horder

end Span

/-! ## Scanners on their way through a source -/

namespace Scanner

/-- **A token starts at a place**: scans from here on come to it. -/
def Begins (source : Scanner) (p : Position) : Prop :=
  ∃ tokens s, source.Scans tokens s ∧ ∃ u ∈ tokens, u.span.start = p

/-- Scanners at one place of one source. What names mean to them may differ. -/
structure Abreast (s s' : Scanner) : Prop where
  lexicon_eq : s'.lexicon = s.lexicon
  input_eq : s'.input = s.input
  position_eq : s'.position = s.position
  tokens_eq : s'.metrics.tokens = s.metrics.tokens

/-- **A scanner has come to a place** where scans of the source come to as well. -/
def Leads (source s : Scanner) : Prop := ∃ tokens s', source.Scans tokens s' ∧ s'.Abreast s

variable {source s s' next : Scanner} {t : Spanned Token} {tokens more : List (Spanned Token)}

/-- A source leads to its beginning. -/
theorem Leads.refl (s : Scanner) : s.Leads s := ⟨[], s, .none, rfl, rfl, rfl, rfl⟩

/-- One more scan after others. -/
theorem Scans.concat (h : s.Scans tokens s') (hscan : s'.scan = (.ok t, next)) :
    s.Scans (tokens ++ [t]) next := by
  induction h with
  | none => exact .more hscan .none
  | more scanned _ ih => exact .more scanned (ih hscan)

/-- The session does not matter to where a scanner has come to. -/
theorem Leads.withSession (h : source.Leads s) (session : Session) :
    source.Leads { s with session } := by
  obtain ⟨tokens, s', hscans, habreast⟩ := h
  exact ⟨tokens, s', hscans, { habreast with }⟩

/-- Scanners abreast see the same. -/
theorem Abreast.glance_eq (h : s.Abreast s') : s'.glance = s.glance := by
  unfold glance
  rw [h.lexicon_eq, h.input_eq, h.position_eq]

/-- **Scanners abreast hand out tokens at the same place**, and are abreast afterwards. -/
theorem Abreast.scan (h : s.Abreast s') (hscan : s'.scan = (.ok t, next)) :
    ∃ u s₁, s.scan = (.ok u, s₁) ∧ u.span = t.span ∧ s₁.Abreast next := by
  have hs' := scanned_of_scan hscan
  have hreads : ∀ message, s.glance.sight ≠ .broken message := by
    intro message hbroken
    rw [← h.glance_eq] at hbroken
    cases hbroken ▸ hs'.handed
  have hwithin : s.metrics.tokens < Limits.tokenCount := by
    rw [← h.tokens_eq]
    exact hs'.within
  obtain ⟨u, s₁, hscan₁⟩ := exists_scan hwithin hreads
  have hs := scanned_of_scan hscan₁
  refine ⟨u, s₁, hscan₁, ?_, ?_⟩
  · rw [(span_of_scan hscan₁).1, (span_of_scan hscan).1, h.glance_eq]
  · exact
      { lexicon_eq := by rw [hs'.lexicon_eq, hs.lexicon_eq, h.lexicon_eq]
        input_eq := by rw [hs'.input_eq, hs.input_eq, h.glance_eq, h.input_eq]
        position_eq := by rw [hs'.position_eq, hs.position_eq, h.glance_eq]
        tokens_eq := by rw [hs'.counted, hs.counted, h.tokens_eq] }

/-- Where a token is found: at a place of the source where a token starts, behind what was read
before, and right before what is left. -/
structure Found (source s : Scanner) (t : Spanned Token) (next : Scanner) : Prop where
  leads : source.Leads next
  begins : source.Begins t.span.start
  behind : s.position.offset ≤ t.span.start.offset
  forward : t.span.Forward
  stop_eq : t.span.stop = next.position

/-- A scan goes on in the source. -/
theorem Leads.scan (h : source.Leads s) (hscan : s.scan = (.ok t, next)) :
    source.Found s t next := by
  obtain ⟨tokens, s', hscans, habreast⟩ := h
  obtain ⟨u, s₁, hscan₁, hspan, hnext⟩ := habreast.scan hscan
  have hmore := hscans.concat hscan₁
  obtain ⟨gap, r, -, hplace, hposition⟩ := place_of_scan hscan
  exact
    { leads := ⟨_, s₁, hmore, hnext⟩
      begins := ⟨_, s₁, hmore, u, by simp, by rw [hspan]⟩
      behind := by
        rw [hplace, Position.offset_advanceAll]
        exact Nat.le_add_right _ _
      forward := by
        show t.span.start.offset ≤ t.span.stop.offset
        rw [hplace]
        simp only [hposition, Position.offset_advanceAll, List.length_append]
        omega
      stop_eq := by rw [hplace] }

/-- **The search for a visible token goes on in the source.** -/
theorem Leads.nextVisible (h : source.Leads s) (hfound : s.nextVisible = (.ok t, next)) :
    source.Found s t next := by
  unfold Scanner.nextVisible at hfound
  generalize s.allowance = n at hfound
  induction n generalizing s with
  | zero => cases hfound
  | succ n ih =>
    rw [nextVisibleFrom] at hfound
    rcases hscan : s.scan with ⟨⟨e⟩ | ⟨u⟩, s₁⟩
    · rw [hscan] at hfound
      cases hfound
    · rw [hscan] at hfound
      have hu := h.scan hscan
      simp only at hfound
      split at hfound
      · -- the token is passed over, and what is found lies behind it
        have ht := ih hu.leads hfound
        have hbehind := ht.behind
        have hforward : u.span.start.offset ≤ u.span.stop.offset := hu.forward
        rw [← hu.stop_eq] at hbehind
        exact { ht with behind := Nat.le_trans hu.behind (Nat.le_trans hforward hbehind) }
      · obtain ⟨ht, rfl⟩ := Prod.mk.inj hfound
        obtain rfl := Except.ok.inj ht
        exact hu

end Scanner

/-! ## The order of the values -/

/-- **What a reduction that succeeds does to the executor**: the values of the right side are there,
and the value of the left side takes their place. -/
theorem Executor.reduce_ok {e e' : Executor} {r : Rule} {p : Position}
    {session session' : Session} (h : e.reduce r p session = (.ok (), e', session')) :
    r.arity ≤ e.values.items.length ∧ ∃ v c,
      perform e.actions ⟨r, e.taken r, p⟩ ⟨e.work, session⟩ = (.ok v, c) ∧
      e'.values.items =
        ⟨v, Reduction.span ⟨r, e.taken r, p⟩⟩ :: e.values.items.drop r.arity ∧
      e'.actions = e.actions ∧ e'.work = c.work := by
  by_cases harity : r.arity ≤ e.values.items.length
  · refine ⟨harity, ?_⟩
    rcases e.reduce_cases r p session harity with ⟨err, c, -, hrun⟩ | ⟨_, _, -, hrun⟩ |
      ⟨v, c, values, hperform, hvalues, -, hrun⟩
    · cases hrun.symm.trans h
    · cases hrun.symm.trans h
    · cases hrun.symm.trans h
      exact ⟨v, c, hperform, hvalues, rfl, rfl⟩
  · obtain ⟨actions, values, work⟩ := e
    have hshort : ¬r.arity ≤ values.depth := by
      rw [values.depth_eq]
      exact harity
    simp only [reduce, Stack.popMany, if_neg hshort] at h
    cases h

namespace ParseState

/-- **The values lie in the order of the source**, before the lookahead and without overlap; they
start where tokens do, and so does the lookahead. Syntax errors are reported at such places. -/
structure Spaced (source : Scanner) (p : ParseState) : Prop where
  leads : source.Leads p.scanner
  ahead : source.Begins p.lookahead.span.start
  forward : p.lookahead.span.Forward
  behind : p.lookahead.span.stop.offset ≤ p.scanner.position.offset
  ordered : p.executor.values.items.Pairwise fun v u => u.span.Before v.span
  values : ∀ v ∈ p.executor.values.items,
    v.span.Forward ∧ v.span.Before p.lookahead.span ∧ source.Begins v.span.start
  told : ∀ d ∈ p.diagnostics, source.Begins d.position

/-- The span that a reduction by a rule gives to its left side. -/
def spanOf (p : ParseState) (r : Rule) : Span :=
  Reduction.span ⟨r, p.executor.taken r, p.lookahead.span.start⟩

namespace Spaced

variable {source : Scanner} {t : DecisionTables} {p p' : ParseState}

/-- What a search for the next lookahead finds. -/
theorem found (h : p.Spaced source) {j : Journal} {u : Spanned Token} {s : Scanner}
    (found : (p.scanner.withJournal j).nextVisible = (.ok u, s)) :
    source.Found p.scanner u s :=
  { (h.leads.withSession _).nextVisible found with }

/-- The values taken off by a reduction lie in order, from left to right. -/
theorem taken_ordered (h : p.Spaced source) (r : Rule) :
    ((p.executor.taken r).map Spanned.span).Pairwise Span.Before ∧
      ∀ a ∈ (p.executor.taken r).map Spanned.span, a.Forward := by
  constructor
  · rw [List.pairwise_map, Executor.taken, List.pairwise_reverse]
    exact h.ordered.sublist (List.take_sublist _ _)
  · intro a ha
    obtain ⟨v, hv, rfl⟩ := List.mem_map.mp ha
    rw [Executor.taken, List.mem_reverse] at hv
    exact (h.values v (List.mem_of_mem_take hv)).1

/-- **The span of a reduction** of some values runs from the start of the first to the end of the
last. -/
theorem spanOf_eq (h : p.Spaced source) {r : Rule} {first : Spanned Token}
    {rest : List (Spanned Token)} (htaken : p.executor.taken r = first :: rest) :
    p.spanOf r = ⟨first.span.start, (rest.getLast?.getD first).span.stop⟩ := by
  obtain ⟨hordered, hforward⟩ := h.taken_ordered r
  rw [htaken] at hordered hforward
  rw [spanOf, Reduction.span, htaken, List.map_cons, Span.cover_cons _ hforward hordered,
    List.getLast?_map]
  cases rest.getLast? <;> rfl

/-- The span of a reduction of no values is empty. -/
theorem spanOf_nil {r : Rule} (htaken : p.executor.taken r = []) :
    p.spanOf r = .empty p.lookahead.span.start := by
  rw [spanOf, Reduction.span, htaken]
  rfl

/-- The span of a reduction lies between the values that stay and the lookahead. -/
theorem spanOf_spaced (h : p.Spaced source) (r : Rule) :
    (p.spanOf r).Forward ∧ (p.spanOf r).Before p.lookahead.span ∧
      source.Begins (p.spanOf r).start ∧
      ∀ v ∈ p.executor.values.items.drop r.arity, v.span.Before (p.spanOf r) := by
  cases htaken : p.executor.taken r with
  | nil =>
    rw [spanOf_nil htaken]
    refine ⟨Nat.le_refl _, Nat.le_refl _, h.ahead, ?_⟩
    intro v hv
    exact (h.values v (List.mem_of_mem_drop hv)).2.1
  | cons first rest =>
    let last := rest.getLast?.getD first
    -- first and last are values of the stack, and the first lies before the last
    have hmem : ∀ {v}, v ∈ first :: rest → v ∈ p.executor.values.items.take r.arity := by
      intro v hv
      rw [← htaken, Executor.taken, List.mem_reverse] at hv
      exact hv
    have hvalue : ∀ {v}, v ∈ first :: rest → v.span.Forward ∧
        v.span.Before p.lookahead.span ∧ source.Begins v.span.start :=
      fun hv => h.values _ (List.mem_of_mem_take (hmem hv))
    have hlast : last ∈ first :: rest := by
      refine List.mem_of_getLast? ?_
      rw [List.getLast?_cons]
    have hfirst : first.span.start.offset ≤ last.span.stop.offset := by
      have hforward : first.span.start.offset ≤ first.span.stop.offset :=
        (hvalue List.mem_cons_self).1
      rcases List.mem_cons.mp hlast with heq | hrest
      · rw [heq]
        exact hforward
      · obtain ⟨hordered, -⟩ := h.taken_ordered r
        rw [htaken, List.map_cons] at hordered
        have hbefore : first.span.stop.offset ≤ last.span.start.offset :=
          (List.pairwise_cons.mp hordered).1 _ (List.mem_map_of_mem hrest)
        have hstop : last.span.start.offset ≤ last.span.stop.offset := (hvalue hlast).1
        omega
    rw [h.spanOf_eq htaken]
    refine ⟨hfirst, (hvalue hlast).2.1, (hvalue List.mem_cons_self).2.2, ?_⟩
    intro v hv
    have hordered := h.ordered
    rw [← List.take_append_drop r.arity p.executor.values.items, List.pairwise_append] at hordered
    exact hordered.2.2 first (hmem List.mem_cons_self) v hv

/-- The order stays where the values stay, or some are taken off the top. -/
theorem of_suffix (h : p.Spaced source) {session : Session}
    (hscanner : p'.scanner = { p.scanner with session }) (hlookahead : p'.lookahead = p.lookahead)
    (hvalues : p'.executor.values.items <:+ p.executor.values.items)
    (htold : ∀ d ∈ p'.diagnostics, source.Begins d.position) : p'.Spaced source where
  leads := by rw [hscanner]; exact h.leads.withSession session
  ahead := by rw [hlookahead]; exact h.ahead
  forward := by rw [hlookahead]; exact h.forward
  behind := by rw [hlookahead, hscanner]; exact h.behind
  ordered := h.ordered.sublist hvalues.sublist
  values := by
    rw [hlookahead]
    exact fun v hv => h.values v (hvalues.subset hv)
  told := htold

/-- An alarm reports the lookahead. -/
theorem alarmed (h : p.Spaced source) (q : Nat) (slot : Option Nat) :
    (p.alarmed t q slot).Spaced source := by
  unfold ParseState.alarmed
  by_cases hrepeated : p.repeated = true
  · rw [if_pos hrepeated]
    exact h.of_suffix rfl rfl (List.suffix_refl _) h.told
  · rw [if_neg hrepeated]
    refine h.of_suffix rfl rfl (List.suffix_refl _) ?_
    intro d hd
    rcases Array.mem_push.mp hd with hd | rfl
    · exact h.told d hd
    · exact h.ahead

/-- The lookahead moves on behind all values. -/
theorem drops (h : p.Spaced source) (hd : p.Drops p') : p'.Spaced source := by
  cases hd with
  | @drop j u s more found =>
    have hfound := h.found found
    have hpast : p.lookahead.span.start.offset ≤ u.span.start.offset :=
      Nat.le_trans h.forward (Nat.le_trans h.behind hfound.behind)
    exact
      { leads := hfound.leads
        ahead := hfound.begins
        forward := hfound.forward
        behind := by
          show u.span.stop.offset ≤ s.position.offset
          rw [hfound.stop_eq]
        ordered := h.ordered
        values := by
          intro v hv
          obtain ⟨hforward, hbefore, hbegins⟩ := h.values v hv
          exact ⟨hforward, Nat.le_trans hbefore hpast, hbegins⟩
        told := h.told }

/-- Dropping lookaheads keeps the order. -/
theorem dropped (h : p.Spaced source) (hd : Relation.ReflTransGen Drops p p') :
    p'.Spaced source := by
  induction hd with
  | refl => exact h
  | tail _ hdrop ih => exact ih.drops hdrop

/-- A recovery takes values off the top. -/
theorem resynchronized (h : p.Spaced source) {n : Nat} (hsync : p.resynchronize? t n = some p') :
    p'.Spaced source := by
  unfold resynchronize? at hsync
  split at hsync
  · cases hsync
  · obtain rfl := Option.some.inj hsync
    refine h.of_suffix rfl rfl ?_ h.told
    change ((p.executor.truncate _).values.items) <:+ _
    rw [Executor.truncate, Stack.items_truncate]
    exact List.drop_suffix _ _

/-- The lookahead becomes the last value, and the next one lies behind it. -/
theorem shifted (h : p.Spaced source) {states : Stack Nat} {values : Stack (Spanned Token)}
    {j : Journal} {u : Spanned Token} {s : Scanner} {metrics : SyntaxMetrics}
    (found : (p.scanner.withJournal j).nextVisible = (.ok u, s))
    (kept : p.executor.values.push p.lookahead = .ok values) :
    Spaced source
      { p with
        scanner := s, states, lookahead := u, trigger := none, metrics
        executor := { p.executor with values } } := by
  obtain ⟨_, hitems, _⟩ := (Stack.push_eq_ok_iff _ _ _).mp kept
  have hfound := h.found found
  have hnext : p.lookahead.span.Before u.span := Nat.le_trans h.behind hfound.behind
  have hpast : p.lookahead.span.start.offset ≤ u.span.start.offset := Nat.le_trans h.forward hnext
  exact
    { leads := hfound.leads
      ahead := hfound.begins
      forward := hfound.forward
      behind := by
        show u.span.stop.offset ≤ s.position.offset
        rw [hfound.stop_eq]
      ordered := by
        show values.items.Pairwise _
        rw [hitems, List.pairwise_cons]
        exact ⟨fun v hv => (h.values v hv).2.1, h.ordered⟩
      values := by
        show ∀ v ∈ values.items, _
        rw [hitems, List.forall_mem_cons]
        refine ⟨⟨h.forward, hnext, h.ahead⟩, ?_⟩
        intro v hv
        obtain ⟨hforward, hbefore, hbegins⟩ := h.values v hv
        exact ⟨hforward, Nat.le_trans hbefore hpast, hbegins⟩
      told := h.told }

/-- The value of a left side takes the place of the values of the right side. -/
theorem reduced (h : p.Spaced source) {r : Rule} {states : Stack Nat} {executor : Executor}
    {session session' : Session} {metrics : SyntaxMetrics}
    (run : p.executor.reduce r p.lookahead.span.start session = (.ok (), executor, session')) :
    Spaced source
      { p with scanner := { p.scanner with session := session' }, states, executor, metrics } := by
  obtain ⟨_, v, c, -, hitems, -, -⟩ := Executor.reduce_ok run
  obtain ⟨hforward, hbefore, hbegins, hbelow⟩ := h.spanOf_spaced r
  exact
    { leads := h.leads.withSession session'
      ahead := h.ahead
      forward := h.forward
      behind := h.behind
      ordered := by
        show executor.values.items.Pairwise _
        rw [hitems, List.pairwise_cons]
        exact ⟨hbelow, h.ordered.sublist (List.drop_sublist _ _)⟩
      values := by
        show ∀ v ∈ executor.values.items, _
        rw [hitems, List.forall_mem_cons]
        exact ⟨⟨hforward, hbefore, hbegins⟩, fun u hu => h.values u (List.mem_of_mem_drop hu)⟩
      told := h.told }

/-- **Every move keeps the values in order.** -/
theorem step (h : p.Spaced source) {o : SyntaxOptions} (hstep : p.step t o = .next p') :
    p'.Spaced source := by
  have heffect := step_effect t o p
  rw [hstep] at heffect
  cases heffect with
  | shift items cell pushed found kept => exact h.shifted found kept
  | reduce items cell rule reduced run => exact h.reduced run
  | @resumed q below slot _ items cell recovered =>
    have hrecover := (recover_effect t (p.alarmed t q slot) p.repeated).1
    rw [recovered] at hrecover
    cases hrecover with
    | resumed dropped synchronized =>
      exact ((h.alarmed q slot).dropped dropped).resynchronized synchronized

/-- A parse that gives up says so at the lookahead that it could not go on with. -/
theorem abandoned (h : p.Spaced source) {o : SyntaxOptions}
    (hstep : p.step t o = .abandoned p') : p'.Spaced source := by
  have heffect := step_effect t o p
  rw [hstep] at heffect
  cases heffect with
  | @abandoned q below slot p'' items cell recovered =>
    have hrecover := (recover_effect t (p.alarmed t q slot) p.repeated).1
    rw [recovered] at hrecover
    cases hrecover with
    | exhausted dropped =>
      have hq := (h.alarmed q slot).dropped dropped
      refine hq.of_suffix rfl rfl (List.suffix_refl _) ?_
      intro d hd
      rcases Array.mem_push.mp hd with hd | rfl
      · exact hq.told d hd
      · exact h.ahead

end Spaced

/-- **What a reduction leaves on the stack of values.** -/
theorem values_of_reduce {t : DecisionTables} {p p' : ParseState} {o : SyntaxOptions} {r : Rule} (hcalls : p.Calls t r)
    (hstep : p.step t o = .next p') :
    (p.executor.taken r).length = r.arity ∧ ∃ v,
      p'.executor.values.items = ⟨v, p.spanOf r⟩ :: p.executor.values.items.drop r.arity := by
  obtain ⟨q, below, n, hitems, hcell, hrule⟩ := hcalls
  have heffect := step_effect t o p
  rw [hstep] at heffect
  cases heffect with
  | shift items cell =>
    cases items.symm.trans hitems
    cases cell.symm.trans hcell
  | reduce items cell rule reduced run =>
    cases items.symm.trans hitems
    cases cell.symm.trans hcell
    cases rule.symm.trans hrule
    obtain ⟨harity, v, c, -, hvalues, -, -⟩ := Executor.reduce_ok run
    refine ⟨?_, v, hvalues⟩
    rw [Executor.taken, List.length_reverse, List.length_take]
    omega
  | resumed items cell =>
    cases items.symm.trans hitems
    have haction : t.actions.action q p.terminal = some (.reduce n) := hcell
    simp [DecisionTables.hasAction, ActionTable.hasAction, haction, Action.isViable] at cell

end ParseState

/-! ## Where type errors are reported -/

namespace ActionContext

variable {r : Reduction} {c c' : ActionContext}

/-- Diagnostics of an action lie where a value of the right side starts, or at the place the parser
had come to. -/
def Points (r : Reduction) (c c' : ActionContext) : Prop :=
  ∀ d ∈ c'.work.diagnostics, d ∈ c.work.diagnostics ∨ ∃ i, d.position = r.positionOf i

/-- A part of an action reports at such places only. -/
theorem Part.points (h : Part r c c') : Points r c c' := by
  intro d hd
  cases h with
  | plain part =>
    cases part with
    | reported code message i lexeme =>
      obtain ⟨journal, heq⟩ := c.report_eq code message (r.positionOf i) lexeme
      rw [heq] at hd
      dsimp only at hd
      split at hd
      · rcases Array.mem_push.mp hd with hd | rfl
        · exact .inl hd
        · exact .inr ⟨i, rfl⟩
      · exact .inl hd
    | written s => exact .inl hd
    | reserved kind => exact .inl hd
    | kept comparison => exact .inl hd
  | typed set =>
    obtain ⟨registry, -, rfl⟩ := setPendingType_eq_ok set
    exact .inl hd
  | pending type names => exact .inl hd

/-- So does an action. -/
theorem Does.points (h : Does r c c') : Points r c c' := by
  refine of_parts h (R := Points r) (fun c d hd => .inl hd) ?_ Part.points
  intro c c' c'' hfirst hsecond d hd
  rcases hsecond d hd with hd | hd
  · exact hfirst d hd
  · exact .inr hd

end ActionContext

/-- **What a reduction reports lies where one of its values starts**, or at its own place. -/
theorem Reduction.Outcome.points {r : Reduction} {c c' : ActionContext} (h : r.Outcome c c') :
    ActionContext.Points r c c' := by
  cases h with
  | done other does => exact does.points
  | closed number => exact fun d hd => .inl hd
  | opened number condition => exact fun d hd => .inl hd
  | left number =>
    intro d hd
    unfold SemanticAction.leaveLoop at hd
    split at hd
    · exact .inl hd
    · split at hd
      · exact .inl hd
      · exact .inl hd
  | entered number condition => exact fun d hd => .inl hd

namespace ParseState

/-- **Type errors are reported where tokens of the source start**, by the actions of MGol. -/
structure Pointed (source : Scanner) (p : ParseState) : Prop extends Spaced source p where
  actions_eq : p.executor.actions = mgolActions
  pointed : ∀ d ∈ p.executor.diagnostics, source.Begins d.position

namespace Pointed

variable {source : Scanner} {t : DecisionTables} {p p' : ParseState}

/-- The places of a reduction are places where tokens start. -/
theorem begins_positionOf (h : p.Pointed source) (r : Rule) (i : Nat) :
    source.Begins
      (Reduction.positionOf ⟨r, p.executor.taken r, p.lookahead.span.start⟩ i) := by
  unfold Reduction.positionOf
  split
  · next v hv =>
    have hmem : v ∈ p.executor.taken r := List.mem_of_getElem? hv
    rw [Executor.taken, List.mem_reverse] at hmem
    exact (h.values v (List.mem_of_mem_take hmem)).2.2
  · exact h.ahead

/-- What does not run an action reports no type error. -/
theorem of_executor (h : p.Pointed source) (hspaced : p'.Spaced source)
    (hactions : p'.executor.actions = p.executor.actions)
    (hwork : p'.executor.work = p.executor.work) : p'.Pointed source where
  toSpaced := hspaced
  actions_eq := hactions.trans h.actions_eq
  pointed := by
    unfold Executor.diagnostics
    rw [hwork]
    exact h.pointed

/-- Recoveries run no action. -/
theorem executor_of_dropped {q : Nat} {slot : Option Nat}
    (hd : Relation.ReflTransGen Drops (p.alarmed t q slot) p') : p'.executor = p.executor := by
  induction hd with
  | refl =>
    unfold ParseState.alarmed
    split <;> rfl
  | tail _ hdrop ih =>
    cases hdrop
    exact ih

/-- **Every move reports type errors where tokens start.** -/
theorem step (h : p.Pointed source) {o : SyntaxOptions} (hstep : p.step t o = .next p') :
    p'.Pointed source := by
  have hspaced := h.toSpaced.step hstep
  have heffect := step_effect t o p
  rw [hstep] at heffect
  cases heffect with
  | shift items cell pushed found kept => exact h.of_executor hspaced rfl rfl
  | @reduce q n below r states j executor session items cell rule reduced run =>
    obtain ⟨_, v, c, hperform, -, hactions, hwork⟩ := Executor.reduce_ok run
    rw [h.actions_eq] at hperform
    refine ⟨hspaced, hactions.trans h.actions_eq, ?_⟩
    intro d hd
    unfold Executor.diagnostics at hd
    simp only [hwork] at hd
    rcases (outcome_of_perform hperform).points d hd with hd | ⟨i, hplace⟩
    · exact h.pointed d hd
    · rw [hplace]
      exact h.begins_positionOf r i
  | @resumed q below slot _ items cell recovered =>
    have hrecover := (recover_effect t (p.alarmed t q slot) p.repeated).1
    rw [recovered] at hrecover
    cases hrecover with
    | resumed dropped synchronized =>
      have hexecutor := executor_of_dropped dropped
      obtain ⟨_, _, _, _, rfl⟩ := resynchronize?_eq synchronized
      exact h.of_executor hspaced (by rw [hexecutor]) (by rw [hexecutor])

/-- Giving up reports no type error. -/
theorem abandoned (h : p.Pointed source) {o : SyntaxOptions}
    (hstep : p.step t o = .abandoned p') : p'.Pointed source := by
  have hspaced := h.toSpaced.abandoned hstep
  have heffect := step_effect t o p
  rw [hstep] at heffect
  cases heffect with
  | @abandoned q below slot p'' items cell recovered =>
    have hrecover := (recover_effect t (p.alarmed t q slot) p.repeated).1
    rw [recovered] at hrecover
    cases hrecover with
    | exhausted dropped =>
      have hexecutor := executor_of_dropped dropped
      refine h.of_executor hspaced ?_ ?_
      · exact congrArg Executor.actions hexecutor
      · exact congrArg Executor.work hexecutor

end Pointed

end ParseState

/-! ## Whole parses -/

/-- The outcome of a parse comes of a state that the parse came to. -/
theorem exists_configuration {scanner : Scanner} {executor : Executor} {t : DecisionTables}
    {o : SyntaxOptions} {p₀ : ParseState} {j : Journal}
    (hstart : startState scanner executor o.effectiveCapacity = (.ok p₀, j)) {moves : Nat}
    {outcome : ParseOutcome} (h : (parseWithin moves executor scanner t o).1 = .ok outcome) :
    ∃ p accepted, ParseState.Configuration t o p₀ p ∧
      outcome = (ParseOutcome.ofState p accepted).1 := by
  rw [parseWithin, hstart] at h
  simp only at h
  obtain ⟨p, hmoves, hended⟩ := ParseState.run_induction t o
    (Relation.ReflTransGen (fun p p' => p.step t o = .next p') p₀)
    (fun _ _ hmoves hstep => hmoves.tail hstep) moves .refl
  generalize p₀.run t o moves = ended at h hended
  cases hended with
  | unfinished => cases h
  | accepted last =>
    obtain rfl := ParseState.eq_of_accepted last
    exact ⟨_, true, .reached hmoves, (Except.ok.inj h).symm⟩
  | abandoned last => exact ⟨_, false, .abandoned hmoves last, (Except.ok.inj h).symm⟩
  | failed last => cases h

/-- Without values the first token lies behind all of them. -/
theorem ParseState.Spaced.of_start {scanner s : Scanner} {u : Spanned Token}
    (hfound : scanner.nextVisible = (.ok u, s)) {states : Stack Nat} {executor : Executor}
    (hempty : executor.values.items = []) :
    Spaced scanner { scanner := s, states, executor, lookahead := u } := by
  have hu := (Scanner.Leads.refl scanner).nextVisible hfound
  exact
    { leads := hu.leads
      ahead := hu.begins
      forward := hu.forward
      behind := by
        show u.span.stop.offset ≤ s.position.offset
        rw [hu.stop_eq]
      ordered := by
        show executor.values.items.Pairwise _
        rw [hempty]
        exact .nil
      values := by
        show ∀ v ∈ executor.values.items, _
        rw [hempty]
        exact fun v hv => absurd hv List.not_mem_nil
      told := fun d hd => absurd hd (Array.not_mem_empty d) }

/-- **The values of a parse lie in order, and their spans are exact.** With any tables, in every
state that a parse comes to, the values on the stack follow each other in the source without
overlap and the lookahead lies behind all of them; a reduction replaces the values of its right side
by one that runs from the start of the first to the end of the last, or is empty at the lookahead if
there are none. So syntax errors, and the type errors of MGol, are reported where tokens of the
source start. -/
theorem value_spans_exact (t : DecisionTables) (scanner : Scanner) (executor : Executor)
    (o : SyntaxOptions) (hempty : executor.values.items = []) {p₀ : ParseState} {j : Journal}
    (hstart : startState scanner executor o.effectiveCapacity = (.ok p₀, j)) :
    (∀ p, ParseState.Configuration t o p₀ p →
      (p.executor.values.items.Pairwise fun v u => u.span.stop.offset ≤ v.span.start.offset) ∧
      (∀ v ∈ p.executor.values.items, v.span.start.offset ≤ v.span.stop.offset ∧
        v.span.stop.offset ≤ p.lookahead.span.start.offset) ∧
      (∀ d ∈ p.diagnostics, scanner.Begins d.position) ∧
      ∀ r p', p.Calls t r → p.step t o = .next p' →
        (p.executor.taken r).length = r.arity ∧ ∃ v,
          p'.executor.values.items = v :: p.executor.values.items.drop r.arity ∧
          (∀ first last, (p.executor.taken r).head? = some first →
            (p.executor.taken r).getLast? = some last →
            v.span = ⟨first.span.start, last.span.stop⟩) ∧
          (r.arity = 0 → v.span = .empty p.lookahead.span.start)) ∧
    ∀ capacity, executor = .mgol capacity →
      (∀ p, ParseState.Configuration t o p₀ p →
        ∀ d ∈ p.executor.diagnostics, scanner.Begins d.position) ∧
      (scanner.diagnostics = #[] → ∀ moves outcome,
        (parseWithin moves executor scanner t o).1 = .ok outcome →
        ∀ d ∈ outcome.diagnostics, d.kind ≠ .lexical → scanner.Begins d.position) := by
  obtain ⟨u, s, states, hfound, -, -, hp₀⟩ := eq_of_startState hstart
  have hspaced : p₀.Spaced scanner := by
    rw [hp₀]
    exact .of_start hfound hempty
  have hreached : ∀ p, ParseState.Configuration t o p₀ p → p.Spaced scanner := fun p hp =>
    hp.keeps _ hspaced (fun h hstep => h.step hstep) fun h hlast => h.abandoned hlast
  refine ⟨?_, ?_⟩
  · intro p hp
    have h := hreached p hp
    refine ⟨h.ordered, fun v hv => ⟨(h.values v hv).1, (h.values v hv).2.1⟩, h.told, ?_⟩
    intro r p' hcalls hstep
    obtain ⟨hlength, v, hvalues⟩ := ParseState.values_of_reduce hcalls hstep
    refine ⟨hlength, _, hvalues, ?_, ?_⟩
    · intro first last hfirst hlast
      obtain ⟨rest, htaken⟩ := List.head?_eq_some_iff.mp hfirst
      rw [htaken, List.getLast?_cons] at hlast
      rw [h.spanOf_eq htaken, Option.some.inj hlast]
    · intro harity
      exact ParseState.Spaced.spanOf_nil (List.length_eq_zero_iff.mp (hlength.trans harity))
  · rintro capacity rfl
    have hpointed : p₀.Pointed scanner := by
      refine ⟨hspaced, ?_, ?_⟩
      · rw [hp₀]
        rfl
      · rw [hp₀]
        exact fun d hd => absurd hd (Array.not_mem_empty d)
    have hreports : ∀ p, ParseState.Configuration t o p₀ p → p.Pointed scanner := fun p hp =>
      hp.keeps _ hpointed (fun h hstep => h.step hstep) fun h hlast => h.abandoned hlast
    refine ⟨fun p hp => (hreports p hp).pointed, ?_⟩
    intro hscanner moves outcome hparse d hd hkind
    obtain ⟨p, accepted, hp, rfl⟩ := exists_configuration hstart hparse
    have hsorted : p.Sorted capacity := by
      refine hp.keeps _ ?_ (fun h hstep => h.step hstep) fun h hlast => h.abandoned hlast
      rw [hp₀]
      exact .of_start hscanner hfound
    simp only [ParseOutcome.ofState, ParseOutcome.sortDiagnostics, List.mem_mergeSort,
      Array.mem_toList_iff, Array.mem_append] at hd
    rcases hd with (hd | hd) | hd
    · exact absurd (hsorted.lexical d hd) hkind
    · exact (hreports p hp).told d hd
    · exact (hreports p hp).pointed d hd

/-- Tables for a name behind nothing. -/
def behindNothingTables : DecisionTables where
  rules := ⟨⟨1, "S", ["A", "B"]⟩, [⟨2, "A", []⟩, ⟨3, "B", ["id"]⟩]⟩
  actions := ⟨["id", "$"],
    #[#[some (.reduce 2), none], #[some (.shift 2), none], #[none, some (.reduce 3)],
      #[none, some .accept]]⟩
  gotos := ⟨["A", "B"], #[#[some 1, none], #[none, some 3], #[none, none], #[none, none]]⟩

/-- Behind a blank, the empty right side has its value where the name starts. -/
theorem value_spans_exact_behindNothing :
    ∃ p₀ j p₁, startState (.ofInput ⟨[32, 120], none⟩) (.mgol 8)
        (SyntaxOptions.effectiveCapacity {}) = (.ok p₀, j) ∧
      p₀.step behindNothingTables {} = .next p₁ ∧
      (∃ v, p₁.executor.values.items = [v] ∧ v.span = .empty ⟨1, 1, 2⟩) ∧
      (∀ p, ParseState.Configuration behindNothingTables {} p₀ p →
        p.executor.values.items.Pairwise fun v u => u.span.stop.offset ≤ v.span.start.offset) ∧
      ∀ outcome, (parseWith (.mgol 8) (.ofInput ⟨[32, 120], none⟩) behindNothingTables {}).1 =
        .ok outcome → ∀ d ∈ outcome.diagnostics, d.kind ≠ .lexical →
          (Scanner.ofInput ⟨[32, 120], none⟩).Begins d.position := by
  refine ⟨_, _, _, rfl, rfl, ?_⟩
  obtain ⟨hvalues, hreports⟩ := value_spans_exact behindNothingTables
    (.ofInput ⟨[32, 120], none⟩) (.mgol 8) {} rfl rfl
  obtain ⟨-, -, -, hreduce⟩ := hvalues _ (.reached .refl)
  obtain ⟨-, v, hitems, -, hspan⟩ := hreduce ⟨2, "A", []⟩ _ ⟨0, [], 2, rfl, rfl, rfl⟩ rfl
  refine ⟨⟨v, hitems, hspan rfl⟩, ?_, ?_⟩
  · intro p hp
    exact (hvalues p hp).1
  · exact (hreports 8 rfl).2 rfl Limits.parseMoves

end Mgol
