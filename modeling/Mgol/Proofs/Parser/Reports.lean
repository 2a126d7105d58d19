import Mgol.Proofs.Parser.Accounting
import Mgol.Proofs.Parser.Layout

/-! # Reports of a parse

What is told of a parse, in the order in which it happens. A token is reported once: the trigger
remembers the token behind the latest recovery until a token is shifted, and every token shifted or
dropped lies before the next one. The one exception is the end of the file, which comes again after
it was shifted; only tables that shift it can report it again.

* **`ParseEvent`, `ParseState.runEvents`** — shifts, reductions and reports of a run, in order.
* **`Scanner.Behind`** — a scanner stands behind the token that it gave, or at the end.
* **`ParseState.Placed`, `ParseState.Placed.step`** — where the reports lie before the lookahead.
* **`ParseState.Booked`** — what is counted and remembered of the events.
* **`parse_reports_in_order`** — order and number of the reports of a parse. -/

namespace Mgol

/-! ## Places of tokens -/

/-- **A scanner stands behind a token**, or the token is the end of the file and nothing is left. -/
def Scanner.Behind (s : Scanner) (t : Spanned Token) : Prop :=
  t.span.start.offset < s.position.offset ∨
    t.value.isEndOfFile = true ∧ s.input.bytes = [] ∧ s.position = t.span.start

namespace Scanner

variable {s s' : Scanner} {t u : Spanned Token}

/-- A scanner stands behind the token that it scanned. -/
theorem Scanned.behind (h : s.Scanned t s') :
    s.position.offset ≤ t.span.start.offset ∧ s'.Behind t := by
  obtain ⟨hstart, -, hprogress⟩ := s.glance_progress
  have hhanded := h.handed
  rw [Behind, h.start_eq, h.position_eq, h.input_eq]
  refine ⟨hstart, ?_⟩
  generalize s.glance.sight = sight at hhanded hprogress
  generalize t.value = value, s'.registry = entries at hhanded ⊢
  cases hhanded with
  | ended => exact .inr ⟨rfl, hprogress.2, hprogress.1⟩
  | fault => exact .inl hprogress
  | name => exact .inl hprogress
  | word => exact .inl hprogress

/-- Where nothing is left, the end of the file is scanned. -/
theorem Scanned.of_ended (h : s.Scanned t s') (hleft : s.input.bytes = []) :
    t.value.isEndOfFile = true ∧ t.span.start = s.position := by
  have hhanded := h.handed
  have hstart := h.start_eq
  have hglance : s.glance = s.lexicon.glance s.input.failure s.position [] := by
    unfold glance
    rw [hleft]
    rfl
  rw [hglance] at hhanded hstart
  generalize t.value = value, s'.registry = entries at hhanded ⊢
  refine ⟨?_, hstart⟩
  cases hfailure : s.input.failure with
  | none =>
    rw [hfailure] at hhanded
    cases hhanded
    rfl
  | some message =>
    rw [hfailure] at hhanded
    cases hhanded

/-- A scanner stands behind the token that it found. -/
theorem Finds.behind (h : s.Finds t s') :
    s.position.offset ≤ t.span.start.offset ∧ s'.Behind t := by
  induction h with
  | here scanned _ => exact scanned.behind
  | later scanned _ _ ih =>
    obtain ⟨hstart, hbehind⟩ := scanned.behind
    refine ⟨Nat.le_trans ?_ ih.1, ih.2⟩
    rcases hbehind with hlt | ⟨-, -, heq⟩
    · omega
    · rw [heq]
      exact hstart

/-- Where nothing is left, the end of the file is found. -/
theorem Finds.of_ended (h : s.Finds t s') (hleft : s.input.bytes = []) :
    t.value.isEndOfFile = true ∧ t.span.start = s.position := by
  cases h with
  | here scanned _ => exact scanned.of_ended hleft
  | @later _ _ _ _ u scanned hidden _ =>
    -- the end of the file is not passed over
    have hu : u.value = .endOfFile := by
      simpa [Token.isEndOfFile] using (scanned.of_ended hleft).1
    rw [hu] at hidden
    cases hidden

/-- **The next token lies behind the last one**, unless both are the end of the file. -/
theorem Behind.next (h : s.Behind t) {j : Journal}
    (found : (s.withJournal j).nextVisible = (.ok u, s')) :
    s'.Behind u ∧ (t.span.start.offset < u.span.start.offset ∨
      t.value.isEndOfFile = true ∧ u.value.isEndOfFile = true ∧ u.span.start = t.span.start) := by
  have hfinds := finds_of_nextVisible found
  refine ⟨hfinds.behind.2, ?_⟩
  rcases h with hlt | ⟨hend, hleft, hplace⟩
  · exact .inl (Nat.lt_of_lt_of_le hlt hfinds.behind.1)
  · obtain ⟨hu, hstart⟩ := hfinds.of_ended hleft
    exact .inr ⟨hend, hu, hstart.trans hplace⟩

end Scanner

/-! ## Events -/

/-- **What happens in a parse**: a token is shifted, a rule is reduced, an error is reported, and a
recovery finds nothing to go on with. -/
inductive ParseEvent where
  | shifted (t : Spanned Token)
  | reduced (rule : Nat)
  | reported (r : ErrorRecord)
  | gaveUp (place : Position)
  deriving DecidableEq, Repr

/-- What is told of an error. -/
def ErrorRecord.diagnostic (r : ErrorRecord) : Diagnostic where
  kind := .syntactic
  code := r.category.code
  message := ParseState.errorMessage r.token r.category
  position := r.position
  lexeme := some r.token.lexeme

namespace ParseEvent

/-- The error that is reported. -/
def record? : ParseEvent → Option ErrorRecord
  | reported r => some r
  | _ => none

/-- What is told of an event. -/
def diagnostic? : ParseEvent → Option Diagnostic
  | reported r => some r.diagnostic
  | gaveUp place => some ⟨.syntactic, .recoveryFailed, ParseState.recoveryFailure, place, none⟩
  | _ => none

/-- Whether a token is shifted. -/
def isShift : ParseEvent → Bool
  | shifted _ => true
  | _ => false

/-- Whether a rule is reduced. -/
def isReduction : ParseEvent → Bool
  | reduced _ => true
  | _ => false

/-- Whether a recovery finds nothing. -/
def isSurrender : ParseEvent → Bool
  | gaveUp _ => true
  | _ => false

end ParseEvent

/-- The errors reported, in order. -/
def recordsOf (events : List ParseEvent) : List ErrorRecord := events.filterMap ParseEvent.record?

/-- What is told, in order. -/
def toldOf (events : List ParseEvent) : List Diagnostic := events.filterMap ParseEvent.diagnostic?

/-- The latest errors that the history has room for. -/
def latest (records : List ErrorRecord) : List ErrorRecord :=
  records.drop (records.length - Limits.errorHistory)

namespace ParseState

/-- The report of an error on the lookahead. -/
def record (p : ParseState) (state : Nat) (slot : Option Nat) : ErrorRecord :=
  ⟨state, p.lookahead.value, p.lookahead.span.start, categoryOf p.lookahead.value slot⟩

/-- What happens on an error: it is reported unless that happened just now, and the recovery may
find nothing. -/
def errorEvents (p : ParseState) (state : Nat) (slot : Option Nat) (result : StepResult) :
    List ParseEvent :=
  (if p.repeated then [] else [.reported (p.record state slot)]) ++
    match result with
    | .abandoned _ => [.gaveUp p.lookahead.span.start]
    | _ => []

/-- **What happens in a move.** -/
def moveEvents (tables : DecisionTables) (o : SyntaxOptions) (p : ParseState) : List ParseEvent :=
  match p.states.top? with
  | none => []
  | some state =>
    match tables.action state p.terminal, p.step tables o with
    | some (.shift _), .next _ => [.shifted p.lookahead]
    | some (.reduce n), .next _ => [.reduced n]
    | some (.error slot), result => p.errorEvents state (some slot) result
    | none, result => p.errorEvents state none result
    | _, _ => []

/-- **What happens in the first moves of a run.** -/
def runEvents (tables : DecisionTables) (o : SyntaxOptions) : Nat → ParseState → List ParseEvent
  | 0, _ => []
  | n + 1, p =>
    p.moveEvents tables o ++
      match p.step tables o with
      | .next p' => runEvents tables o n p'
      | _ => []

end ParseState

/-! ## The order of reports -/

/-- **One report comes before another**: it lies before it; or both are of the end of the file,
which was shifted between them. -/
def ErrorRecord.Precedes (a : ErrorRecord) (between : List ParseEvent) (b : ErrorRecord) : Prop :=
  a.position.offset < b.position.offset ∨
    a.token.isEndOfFile = true ∧ b.token.isEndOfFile = true ∧ b.position = a.position ∧
      ∃ t, .shifted t ∈ between ∧ t.value.isEndOfFile = true

/-- **Reports in order**: of two of them, the earlier one comes before the later one. -/
def InOrder (events : List ParseEvent) : Prop :=
  ∀ before a between b after,
    events = before ++ .reported a :: (between ++ .reported b :: after) → a.Precedes between b

/-- A report among events and one more is that one, or it is among the others. -/
theorem reported_concat {past before after : List ParseEvent} {x : ParseEvent} {r : ErrorRecord}
    (h : past ++ [x] = before ++ .reported r :: after) :
    x = .reported r ∧ after = [] ∧ past = before ∨
      ∃ front, after = front ++ [x] ∧ past = before ++ .reported r :: front := by
  rcases List.eq_nil_or_concat after with rfl | ⟨front, last, rfl⟩
  · obtain ⟨hpast, hlast⟩ := List.append_inj' h rfl
    exact .inl ⟨List.singleton_injective hlast, rfl, hpast⟩
  · rw [List.concat_eq_append, ← List.cons_append, ← List.append_assoc] at h
    obtain ⟨hpast, hlast⟩ := List.append_inj' h rfl
    rw [List.singleton_injective hlast]
    exact .inr ⟨front, List.concat_eq_append, hpast⟩

/-- An event behind others is in order if the reports among them come before it. -/
theorem InOrder.concat {events : List ParseEvent} {x : ParseEvent} (h : InOrder events)
    (hx : ∀ b, x = .reported b → ∀ before a between,
      events = before ++ .reported a :: between → a.Precedes between b) :
    InOrder (events ++ [x]) := by
  intro before a between b after heq
  rw [← List.cons_append, ← List.append_assoc] at heq
  rcases reported_concat heq with ⟨rfl, -, hevents⟩ | ⟨front, -, hevents⟩
  · exact hx b rfl before a between hevents
  · exact h before a between b front (by rw [hevents, List.append_assoc, List.cons_append])

/-- An event that is no report is in order behind others. -/
theorem InOrder.concat_other {events : List ParseEvent} {x : ParseEvent} (h : InOrder events)
    (hx : x.record? = none) : InOrder (events ++ [x]) := by
  refine h.concat fun b hb => ?_
  rw [hb] at hx
  cases hx

/-- Without a shift of the end of the file, reports in order have increasing offsets. -/
theorem InOrder.pairwise {events : List ParseEvent} (h : InOrder events)
    (hshift : ∀ t, .shifted t ∈ events → t.value.isEndOfFile = false) :
    (recordsOf events).Pairwise fun a b => a.position.offset < b.position.offset := by
  induction events with
  | nil => exact List.Pairwise.nil
  | cons x events ih =>
    have hrest : InOrder events := fun before a between b after heq =>
      h (x :: before) a between b after (by rw [heq]; rfl)
    have htail := ih hrest fun t ht => hshift t (List.mem_cons_of_mem _ ht)
    cases x with
    | reported a =>
      refine List.pairwise_cons.mpr ⟨fun b hb => ?_, htail⟩
      obtain ⟨y, hy, hyb⟩ := List.mem_filterMap.mp hb
      obtain rfl : y = .reported b := by
        cases y <;> simp_all [ParseEvent.record?]
      obtain ⟨between, after, rfl⟩ := List.append_of_mem hy
      refine (h [] a between b after rfl).resolve_right ?_
      rintro ⟨-, -, -, t, ht, hend⟩
      have hgoing := hshift t (List.mem_cons_of_mem _ (List.mem_append_left _ ht))
      rw [hgoing] at hend
      cases hend
    | shifted t => exact htail
    | reduced n => exact htail
    | gaveUp place => exact htail

namespace ParseState

variable {tables : DecisionTables} {o : SyntaxOptions} {p p' q : ParseState}
  {past : List ParseEvent} {r : ErrorRecord} {after : List ParseEvent}

/-- **Where a report lies before the lookahead**: it was passed; or it is of the lookahead, which
the trigger remembers; or it is of the end of the file, which is ahead again since it was
shifted. -/
inductive Lies (r : ErrorRecord) (after : List ParseEvent) (p : ParseState) : Prop
  | passed (lt : r.position.offset < p.lookahead.span.start.offset)
  | current (remembered : p.trigger = some p.lookahead.span.start.offset)
      (token_eq : r.token = p.lookahead.value) (position_eq : r.position = p.lookahead.span.start)
  | again (ended : r.token.isEndOfFile = true) (ends : p.lookahead.value.isEndOfFile = true)
      (position_eq : r.position = p.lookahead.span.start)
      (shifted : ∃ t, .shifted t ∈ after ∧ t.value.isEndOfFile = true)

/-- **The places of the reports of a run**, and of its lookahead. -/
structure Placed (past : List ParseEvent) (p : ParseState) : Prop where
  behind : p.scanner.Behind p.lookahead
  lies : ∀ before r after, past = before ++ .reported r :: after → p.Lies r after

/-- A report lies where it lay while the lookahead stays. -/
theorem Lies.of_eq (h : p.Lies r after) (hlookahead : q.lookahead = p.lookahead)
    (htrigger : q.trigger = p.trigger ∨ q.trigger = some p.lookahead.span.start.offset)
    (more : List ParseEvent) : q.Lies r (after ++ more) := by
  cases h with
  | passed lt => exact .passed (hlookahead ▸ lt)
  | current remembered token_eq position_eq =>
    refine .current ?_ (hlookahead ▸ token_eq) (hlookahead ▸ position_eq)
    rw [hlookahead]
    exact htrigger.elim (fun h => h.trans remembered) id
  | again ended ends position_eq shifted =>
    obtain ⟨t, ht, hend⟩ := shifted
    exact .again ended (hlookahead ▸ ends) (hlookahead ▸ position_eq)
      ⟨t, List.mem_append_left _ ht, hend⟩

/-- A report lies before the token that follows a shift. -/
theorem Lies.shifted (h : p.Lies r after)
    (hnext : p.lookahead.span.start.offset < q.lookahead.span.start.offset ∨
      p.lookahead.value.isEndOfFile = true ∧ q.lookahead.value.isEndOfFile = true ∧
        q.lookahead.span.start = p.lookahead.span.start) :
    q.Lies r (after ++ [.shifted p.lookahead]) := by
  have hmem : ParseEvent.shifted p.lookahead ∈ after ++ [.shifted p.lookahead] := by simp
  rcases hnext with hlt | ⟨hend, hends, hplace⟩
  · -- the lookahead is passed, and so is everything before it
    refine .passed ?_
    cases h with
    | passed lt => omega
    | current _ _ position_eq => rw [position_eq]; exact hlt
    | again _ _ position_eq _ => rw [position_eq]; exact hlt
  · cases h with
    | passed lt => exact .passed (hplace ▸ lt)
    | current _ token_eq position_eq =>
      exact .again (token_eq ▸ hend) hends (position_eq.trans hplace.symm) ⟨_, hmem, hend⟩
    | again ended _ position_eq _ =>
      exact .again ended hends (position_eq.trans hplace.symm) ⟨_, hmem, hend⟩

/-- A report lies before the token that follows a dropped one. -/
theorem Lies.drops (h : p.Lies r after) (hbehind : p.scanner.Behind p.lookahead)
    (hd : p.Drops q) : q.Lies r after := by
  cases hd with
  | drop more found =>
    have hlt := (hbehind.next found).2.resolve_right fun hend => by
      rw [more] at hend
      exact absurd hend.1 (by decide)
    refine .passed ?_
    cases h with
    | passed lt => exact Nat.lt_trans lt hlt
    | current _ _ position_eq => rw [position_eq]; exact hlt
    | again _ _ position_eq _ => rw [position_eq]; exact hlt

/-- The lookahead after a dropped one is in its place. -/
theorem Drops.behind (hd : p.Drops q) (hbehind : p.scanner.Behind p.lookahead) :
    q.scanner.Behind q.lookahead := by
  cases hd with
  | drop _ found => exact (hbehind.next found).1

/-- Dropping tokens keeps the places. -/
theorem Placed.dropped (h : p.Placed past) (hd : Relation.ReflTransGen Drops p q) :
    q.Placed past := by
  induction hd with
  | refl => exact h
  | tail _ hdrops ih =>
    exact ⟨hdrops.behind ih.behind, fun before r after heq =>
      (ih.lies before r after heq).drops ih.behind hdrops⟩

/-- A report of the lookahead comes behind all reports before, if it was not reported just now. -/
theorem Placed.precedes (h : p.Placed past) (hnew : p.repeated = false) {before : List ParseEvent}
    (hpast : past = before ++ .reported r :: after) (state : Nat) (slot : Option Nat) :
    r.Precedes after (p.record state slot) := by
  cases h.lies before r after hpast with
  | passed lt => exact .inl lt
  | current remembered _ _ =>
    rw [repeated, remembered, decide_eq_false_iff_not] at hnew
    exact absurd rfl hnew
  | again ended ends position_eq shifted => exact .inr ⟨ended, ends, position_eq.symm, shifted⟩

/-- The report of an error is the first thing that happens in a move. -/
theorem moveEvents_cases (tables : DecisionTables) (o : SyntaxOptions) (p : ParseState) :
    p.moveEvents tables o = [] ∨
      (∃ state target, tables.action state p.terminal = some (.shift target) ∧
        p.moveEvents tables o = [.shifted p.lookahead]) ∨
      (∃ n, p.moveEvents tables o = [.reduced n]) ∨
      ∃ state slot, p.moveEvents tables o = p.errorEvents state slot (p.step tables o) := by
  unfold moveEvents
  cases p.states.top? with
  | none => exact .inl rfl
  | some state =>
    simp only
    split
    · next cell _ => exact .inr (.inl ⟨state, _, cell, rfl⟩)
    · exact .inr (.inr (.inl ⟨_, rfl⟩))
    · exact .inr (.inr (.inr ⟨state, _, rfl⟩))
    · exact .inr (.inr (.inr ⟨state, none, rfl⟩))
    · exact .inl rfl

/-- What can happen in a move. -/
theorem mem_moveEvents {x : ParseEvent} (h : x ∈ p.moveEvents tables o) :
    (x = .shifted p.lookahead ∧
        ∃ state target, tables.action state p.terminal = some (.shift target)) ∨
      (∃ n, x = .reduced n) ∨ (∃ state slot, x = .reported (p.record state slot)) ∨
      x = .gaveUp p.lookahead.span.start ∧ ∃ p', p.step tables o = .abandoned p' := by
  rcases p.moveEvents_cases tables o with heq | ⟨state, target, hcell, heq⟩ | ⟨n, heq⟩ |
    ⟨state, slot, heq⟩ <;> rw [heq] at h
  · cases h
  · exact .inl ⟨List.mem_singleton.mp h, state, target, hcell⟩
  · exact .inr (.inl ⟨n, List.mem_singleton.mp h⟩)
  · rcases List.mem_append.mp h with hreported | hgaveUp
    · split at hreported
      · cases hreported
      · exact .inr (.inr (.inl ⟨state, slot, List.mem_singleton.mp hreported⟩))
    · cases hstep : p.step tables o with
      | abandoned p' =>
        rw [hstep] at hgaveUp
        exact .inr (.inr (.inr ⟨List.mem_singleton.mp hgaveUp, p', rfl⟩))
      | next p' => simp [hstep] at hgaveUp
      | accepted p' => simp [hstep] at hgaveUp
      | failed e p' => simp [hstep] at hgaveUp

/-- **What happens in a move is in order** behind what happened before. -/
theorem Placed.inOrder (h : p.Placed past) (hpast : InOrder past) :
    InOrder (past ++ p.moveEvents tables o) := by
  rcases p.moveEvents_cases tables o with heq | ⟨_, _, _, heq⟩ | ⟨_, heq⟩ | ⟨state, slot, heq⟩
  · rw [heq, List.append_nil]
    exact hpast
  · rw [heq]
    exact hpast.concat_other rfl
  · rw [heq]
    exact hpast.concat_other rfl
  · have hreported : InOrder (past ++
        if p.repeated then [] else [.reported (p.record state slot)]) := by
      by_cases hrepeated : p.repeated = true
      · rw [if_pos hrepeated, List.append_nil]
        exact hpast
      · rw [if_neg hrepeated]
        refine hpast.concat fun b hb before a between heq => ?_
        obtain rfl := ParseEvent.reported.inj hb
        exact h.precedes (Bool.eq_false_iff.mpr hrepeated) heq state slot
    rw [heq]
    cases p.step tables o with
    | abandoned p' =>
      rw [errorEvents, ← List.append_assoc]
      exact hreported.concat_other rfl
    | next p' => simpa [errorEvents] using hreported
    | accepted p' => simpa [errorEvents] using hreported
    | failed e p' => simpa [errorEvents] using hreported

/-! ## What a move leaves -/

/-- **What happens in a move that leads on**, and where it leads. -/
inductive Move (tables : DecisionTables) (p : ParseState) : List ParseEvent → ParseState → Prop
  | shift {states : Stack Nat} {executor : Executor} {j : Journal} {t : Spanned Token} {s : Scanner}
      (found : (p.scanner.withJournal j).nextVisible = (.ok t, s)) :
      Move tables p [.shifted p.lookahead]
        { p with
          scanner := s, states, executor, lookahead := t, trigger := none
          metrics := { p.metrics with shifts := p.metrics.shifts + 1 } }
  | reduce {n : Nat} {states : Stack Nat} {executor : Executor} {session : Session} :
      Move tables p [.reduced n]
        { p with
          scanner := { p.scanner with session }, states, executor
          metrics := { p.metrics with reductions := p.metrics.reductions + 1 } }
  | error {state : Nat} {slot : Option Nat} {p' : ParseState}
      (recovered : (p.alarmed tables state slot).recover tables p.repeated = .resumed p') :
      Move tables p (if p.repeated then [] else [.reported (p.record state slot)]) p'

/-- An error on the lookahead is dealt with by the slot of its cell. -/
theorem step_of_hasAction_false {state : Nat} {below : List Nat}
    (items : p.states.items = state :: below) (cell : tables.hasAction state p.terminal = false) :
    ∃ slot, p.step tables o = p.handleError tables state slot ∧
      p.moveEvents tables o = p.errorEvents state slot (p.step tables o) := by
  have htop : p.states.top? = some state := by rw [Stack.top?, items]; rfl
  have hterminal : p.lookahead.value.terminalName = p.terminal := rfl
  unfold moveEvents
  cases haction : tables.action state p.terminal with
  | none =>
    refine ⟨none, ?_, ?_⟩
    · simp only [step, htop, hterminal, haction]
    · simp only [htop, haction]
  | some a =>
    have hviable : a.isViable = false := by
      have : tables.actions.action state p.terminal = some a := haction
      simpa [DecisionTables.hasAction, ActionTable.hasAction, this] using cell
    cases a with
    | error slot =>
      refine ⟨some slot, ?_, ?_⟩
      · simp only [step, htop, hterminal, haction]
      · simp only [htop, haction]
    | shift target => cases hviable
    | reduce n => cases hviable
    | accept => cases hviable

/-- **A move that leads on** shifts, reduces, or deals with an error. -/
theorem move_of_step (h : p.step tables o = .next p') :
    Move tables p (p.moveEvents tables o) p' := by
  have heffect := step_effect tables o p
  rw [h] at heffect
  have htop : ∀ {state below}, p.states.items = state :: below → p.states.top? = some state := by
    intro state below items
    rw [Stack.top?, items]
    rfl
  cases heffect with
  | @shift q target below states values j t s items cell pushed found kept =>
    have hevents : p.moveEvents tables o = [.shifted p.lookahead] := by
      simp only [moveEvents, htop items, cell, h]
    rw [hevents]
    exact .shift found
  | @reduce q n below r states j executor session items cell rule reduced run =>
    have hevents : p.moveEvents tables o = [.reduced n] := by
      simp only [moveEvents, htop items, cell, h]
    rw [hevents]
    exact .reduce
  | resumed items cell _ =>
    obtain ⟨slot, hstep, hevents⟩ := step_of_hasAction_false (o := o) items cell
    rw [hevents, h, show p.errorEvents _ slot (.next p') =
      if p.repeated then [] else [.reported (p.record _ slot)] from List.append_nil _]
    rw [h, handleError_eq] at hstep
    split at hstep
    · next hrecover =>
      rw [StepResult.next.inj hstep]
      exact .error hrecover
    · cases hstep
    · cases hstep

/-- **A move that gives up** reports the error, unless that happened just now, and that it found
nothing. -/
theorem surrender_of_step (h : p.step tables o = .abandoned p') :
    ∃ state slot q, (p.alarmed tables state slot).recover tables p.repeated = .exhausted q ∧
      p' = q.reportFailure p.lookahead.span.start ∧
      p.moveEvents tables o = (if p.repeated then [] else [.reported (p.record state slot)]) ++
        [.gaveUp p.lookahead.span.start] := by
  have heffect := step_effect tables o p
  rw [h] at heffect
  cases heffect with
  | @abandoned state _ _ _ items cell _ =>
    obtain ⟨slot, hstep, hevents⟩ := step_of_hasAction_false (o := o) items cell
    rw [h] at hevents
    rw [h, handleError_eq] at hstep
    split at hstep
    · cases hstep
    · next q hrecover => exact ⟨state, slot, q, hrecover, StepResult.abandoned.inj hstep, hevents⟩
    · cases hstep

/-- A move that accepts does nothing else. -/
theorem moveEvents_of_accepted (h : p.step tables o = .accepted p') :
    p.moveEvents tables o = [] := by
  have heffect := step_effect tables o p
  rw [h] at heffect
  cases heffect with
  | @accept state below items cell =>
    have htop : p.states.top? = some state := by rw [Stack.top?, items]; rfl
    simp only [moveEvents, htop, cell, h]

/-- The places stay while the lookahead stays. -/
theorem Placed.of_eq (h : p.Placed past) (hbehind : q.scanner.Behind q.lookahead)
    (hlookahead : q.lookahead = p.lookahead)
    (htrigger : q.trigger = p.trigger ∨ q.trigger = some p.lookahead.span.start.offset) :
    q.Placed past :=
  ⟨hbehind, fun before r after hpast => by
    simpa using (h.lies before r after hpast).of_eq hlookahead htrigger []⟩

/-- One more event keeps the places where the reports before and the event itself lie right. -/
theorem Placed.concat {x : ParseEvent} (hbehind : p.scanner.Behind p.lookahead)
    (hlies : ∀ before r front, past = before ++ .reported r :: front → p.Lies r (front ++ [x]))
    (hx : ∀ r, x = .reported r → p.Lies r []) : p.Placed (past ++ [x]) := by
  refine ⟨hbehind, fun before r after hpast => ?_⟩
  rcases reported_concat hpast with ⟨hr, rfl, -⟩ | ⟨front, rfl, hfront⟩
  · exact hx r hr
  · exact hlies before r front hfront

/-- An alarm keeps the places, with the report that it makes. -/
theorem Placed.alarmed (h : p.Placed past) (state : Nat) (slot : Option Nat) :
    (p.alarmed tables state slot).Placed
      (past ++ if p.repeated then [] else [.reported (p.record state slot)]) := by
  obtain ⟨j, metrics, history, diagnostics, -, heq⟩ := p.alarmed_eq tables state slot
  rw [heq]
  by_cases hrepeated : p.repeated = true
  · rw [if_pos hrepeated, List.append_nil]
    exact h.of_eq h.behind rfl (.inr rfl)
  · rw [if_neg hrepeated]
    refine .concat h.behind (fun before r front hpast => ?_) fun r hr => ?_
    · apply (h.lies before r front hpast).of_eq
      · rfl
      · exact .inr rfl
    · obtain rfl := ParseEvent.reported.inj hr
      exact .current rfl rfl rfl

/-- Cutting the stacks keeps the places. -/
theorem Placed.resynchronized (h : p.Placed past) {n : Nat}
    (hsync : p.resynchronize? tables n = some p') : p'.Placed past := by
  obtain ⟨j, states, values, metrics, rfl⟩ := resynchronize?_eq hsync
  exact h.of_eq h.behind rfl (.inl rfl)

/-- **A move keeps the places.** -/
theorem Placed.move (h : p.Placed past) {events : List ParseEvent}
    (hmove : Move tables p events p') : p'.Placed (past ++ events) := by
  cases hmove with
  | @shift states executor j t s found =>
    obtain ⟨hbehind, hnext⟩ := h.behind.next found
    refine .concat hbehind (fun before r front hpast => ?_) fun r hr => by cases hr
    exact (h.lies before r front hpast).shifted hnext
  | reduce =>
    refine .concat h.behind (fun before r front hpast => ?_) fun r hr => by cases hr
    apply (h.lies before r front hpast).of_eq
    · rfl
    · exact .inl rfl
  | @error state slot _ recovered =>
    have hrecovered := (recover_effect tables (p.alarmed tables state slot) p.repeated).1
    rw [recovered] at hrecovered
    cases hrecovered with
    | resumed dropped synchronized =>
      exact ((h.alarmed state slot).dropped dropped).resynchronized synchronized

/-! ## What is counted and remembered -/

/-- **The books of a parse**: what is told, remembered and counted of what happened. -/
structure Booked (past : List ParseEvent) (p : ParseState) : Prop where
  diagnostics_eq : p.diagnostics.toList = toldOf past
  history_eq : p.history.toList = latest (recordsOf past)
  errors_eq : p.metrics.errors = (recordsOf past).length
  shifts_eq : p.metrics.shifts = past.countP ParseEvent.isShift
  reductions_eq : p.metrics.reductions = past.countP ParseEvent.isReduction

/-- The latest errors are the latest of those remembered and those to come. -/
theorem latest_concat (records : List ErrorRecord) (r : ErrorRecord) :
    latest (latest records ++ [r]) = latest (records ++ [r]) := by
  unfold latest
  generalize Limits.errorHistory = limit
  rw [← List.drop_append_of_le_length (Nat.sub_le _ _), List.drop_drop, List.length_drop,
    List.length_append, List.length_singleton]
  congr 1
  omega

/-- One more error is remembered, and the oldest one forgotten where there is no room. -/
theorem toList_remember {history : Array ErrorRecord} {records : List ErrorRecord}
    (h : history.toList = latest records) (r : ErrorRecord) :
    (remember history r).toList = latest (records ++ [r]) := by
  rw [← latest_concat, ← h, ← Array.toList_push]
  unfold remember latest
  generalize Limits.errorHistory = limit
  simp

/-- The books after one more event. -/
theorem Booked.concat (h : p.Booked past) (x : ParseEvent)
    (hdiagnostics : q.diagnostics.toList = p.diagnostics.toList ++ x.diagnostic?.toList)
    (hhistory : q.history.toList = latest (recordsOf past ++ x.record?.toList))
    (herrors : q.metrics.errors = p.metrics.errors + x.record?.toList.length)
    (hshifts : q.metrics.shifts = p.metrics.shifts + x.isShift.toNat)
    (hreductions : q.metrics.reductions = p.metrics.reductions + x.isReduction.toNat) :
    q.Booked (past ++ [x]) := by
  have hrecords : recordsOf (past ++ [x]) = recordsOf past ++ x.record?.toList := by
    rw [recordsOf, List.filterMap_append, List.filterMap_cons, List.filterMap_nil]
    cases x.record? <;> rfl
  refine ⟨?_, ?_, ?_, ?_, ?_⟩
  · rw [hdiagnostics, h.diagnostics_eq, toldOf, toldOf, List.filterMap_append,
      List.filterMap_cons, List.filterMap_nil]
    cases x.diagnostic? <;> rfl
  · rw [hhistory, hrecords]
  · rw [herrors, h.errors_eq, hrecords, List.length_append]
  · rw [hshifts, h.shifts_eq, List.countP_append, List.countP_singleton]
    cases x.isShift <;> rfl
  · rw [hreductions, h.reductions_eq, List.countP_append, List.countP_singleton]
    cases x.isReduction <;> rfl

/-- An event that is no report leaves the history as it is. -/
theorem Booked.history_of_other (h : p.Booked past) :
    p.history.toList = latest (recordsOf past ++ []) := by
  rw [List.append_nil, h.history_eq]

/-- What a recovery leaves alone: what was told, remembered and counted of errors and moves. -/
def books (p : ParseState) : Array Diagnostic × Array ErrorRecord × Nat × Nat × Nat :=
  (p.diagnostics, p.history, p.metrics.errors, p.metrics.shifts, p.metrics.reductions)

/-- The books say the same of the same events. -/
theorem Booked.of_books_eq (h : p.Booked past) (heq : q.books = p.books) : q.Booked past := by
  simp only [books, Prod.mk.injEq] at heq
  obtain ⟨hdiagnostics, hhistory, herrors, hshifts, hreductions⟩ := heq
  exact ⟨hdiagnostics ▸ h.diagnostics_eq, hhistory ▸ h.history_eq, herrors ▸ h.errors_eq,
    hshifts ▸ h.shifts_eq, hreductions ▸ h.reductions_eq⟩

/-- Dropping tokens leaves the books alone. -/
theorem books_of_dropped (h : Relation.ReflTransGen Drops p q) : q.books = p.books := by
  induction h with
  | refl => rfl
  | tail _ hdrops ih =>
    cases hdrops
    exact ih

/-- Cutting the stacks leaves the books alone. -/
theorem books_of_resynchronize? {n : Nat} (h : p.resynchronize? tables n = some p') :
    p'.books = p.books := by
  unfold resynchronize? at h
  split at h
  · cases h
  · obtain rfl := Option.some.inj h
    rfl

/-- An alarm books the report that it makes. -/
theorem Booked.alarmed (h : p.Booked past) (state : Nat) (slot : Option Nat) :
    (p.alarmed tables state slot).Booked
      (past ++ if p.repeated then [] else [.reported (p.record state slot)]) := by
  unfold ParseState.alarmed
  by_cases hrepeated : p.repeated = true
  · rw [if_pos hrepeated, if_pos hrepeated, List.append_nil]
    exact h.of_books_eq rfl
  · rw [if_neg hrepeated, if_neg hrepeated]
    have hhistory : (p.report tables state slot).history =
        remember p.history (p.record state slot) := by
      simp only [report, record, note, diagnose]
    have hlatest := toList_remember h.history_eq (p.record state slot)
    rw [← hhistory] at hlatest
    exact h.concat (.reported (p.record state slot)) Array.toList_push hlatest rfl rfl rfl

/-- **A move books what happens.** -/
theorem Booked.move (h : p.Booked past) {events : List ParseEvent}
    (hmove : Move tables p events p') : p'.Booked (past ++ events) := by
  cases hmove with
  | shift found =>
    exact h.concat (.shifted p.lookahead) (List.append_nil _).symm h.history_of_other rfl rfl rfl
  | @reduce n =>
    exact h.concat (.reduced n) (List.append_nil _).symm h.history_of_other rfl rfl rfl
  | @error state slot _ recovered =>
    have hrecovered := (recover_effect tables (p.alarmed tables state slot) p.repeated).1
    rw [recovered] at hrecovered
    cases hrecovered with
    | resumed dropped synchronized =>
      exact (h.alarmed state slot).of_books_eq
        ((books_of_resynchronize? synchronized).trans (books_of_dropped dropped))

/-- **Giving up is booked** as well, behind the report of the error. -/
theorem Booked.surrendered (h : p.Booked past) (hstep : p.step tables o = .abandoned p') :
    p'.Booked (past ++ p.moveEvents tables o) := by
  obtain ⟨state, slot, q, recovered, rfl, hevents⟩ := surrender_of_step hstep
  have hrecovered := (recover_effect tables (p.alarmed tables state slot) p.repeated).1
  rw [recovered] at hrecovered
  cases hrecovered with
  | exhausted dropped =>
    have halarmed : (p.alarmed tables state slot).Booked _ := h.alarmed state slot
    have hq := halarmed.of_books_eq (books_of_dropped dropped)
    rw [hevents, ← List.append_assoc]
    exact hq.concat (.gaveUp p.lookahead.span.start) Array.toList_push hq.history_of_other rfl rfl
      rfl

/-! ## Runs -/

/-- A token is shifted where the tables say so. -/
theorem cell_of_shifted {n : Nat} {t : Spanned Token} (h : .shifted t ∈ p.runEvents tables o n) :
    ∃ state target, tables.action state t.value.terminalName = some (.shift target) := by
  induction n generalizing p with
  | zero => cases h
  | succ n ih =>
    rw [runEvents, List.mem_append] at h
    rcases h with h | h
    · rcases mem_moveEvents h with ⟨heq, hcell⟩ | ⟨_, ⟨⟩⟩ | ⟨_, _, ⟨⟩⟩ | ⟨⟨⟩, _⟩
      rw [ParseEvent.shifted.inj heq]
      exact hcell
    · split at h
      · exact ih h
      · cases h

/-- Only a move that gives up the parse tells so. -/
theorem surrender_last (hstep : ∀ p', p.step tables o ≠ .abandoned p') :
    ∀ x ∈ p.moveEvents tables o, x.isSurrender = false := by
  intro x hx
  rcases mem_moveEvents hx with ⟨rfl, _⟩ | ⟨_, rfl⟩ | ⟨_, _, rfl⟩ | ⟨_, p', hp'⟩
  · rfl
  · rfl
  · rfl
  · exact absurd hp' (hstep p')

/-- **What a run leaves behind**: its events are in order, they are in the books of a state that it
ends in, and nothing comes after it gave up, which it does exactly if it is abandoned. -/
structure Chronicle (tables : DecisionTables) (o : SyntaxOptions) (p : ParseState) (n : Nat)
    (events : List ParseEvent) : Prop where
  inOrder : InOrder events
  accepted : ∀ p', p.run tables o n = .accepted p' →
    p'.Booked events ∧ ∀ x ∈ events, x.isSurrender = false
  abandoned : ∀ p', p.run tables o n = .abandoned p' → p'.Booked events ∧
    ∃ front place, events = front ++ [.gaveUp place] ∧ ∀ x ∈ front, x.isSurrender = false
  silent : (∀ p', p.run tables o n ≠ .abandoned p') → ∀ x ∈ events, x.isSurrender = false

/-- Nothing comes after a run gave up. -/
theorem Chronicle.last {n : Nat} {events before after : List ParseEvent} {place : Position}
    (h : p.Chronicle tables o n events) (heq : events = before ++ .gaveUp place :: after) :
    after = [] := by
  by_cases habandoned : ∃ p', p.run tables o n = .abandoned p'
  · obtain ⟨p', hrun⟩ := habandoned
    obtain ⟨-, front, place', hevents, hsilent⟩ := h.abandoned p' hrun
    rcases List.eq_nil_or_concat after with rfl | ⟨middle, last, rfl⟩
    · rfl
    -- otherwise the run gave up before its last event
    · rw [hevents, List.concat_eq_append, ← List.cons_append, ← List.append_assoc] at heq
      have hfront := (List.append_inj' heq rfl).1
      cases hsilent (.gaveUp place) (by rw [hfront]; simp)
  · have hsilent := h.silent (not_exists.mp habandoned) (.gaveUp place) (by rw [heq]; simp)
    cases hsilent

/-- **The chronicle of a run**, by induction on its moves. -/
theorem chronicle (n : Nat) (hplaced : p.Placed past) (hbooked : p.Booked past)
    (hpast : InOrder past) (hsilent : ∀ x ∈ past, x.isSurrender = false) :
    p.Chronicle tables o n (past ++ p.runEvents tables o n) := by
  induction n generalizing p past with
  | zero =>
    rw [runEvents, List.append_nil]
    refine ⟨hpast, fun _ h => ?_, fun _ h => ?_, fun _ => hsilent⟩
    · cases h
    · cases h
  | succ n ih =>
    have horder : InOrder (past ++ p.moveEvents tables o) := hplaced.inOrder hpast
    have hlast : (∀ p', p.step tables o ≠ .abandoned p') →
        ∀ x ∈ p.moveEvents tables o, x.isSurrender = false := surrender_last
    rw [runEvents, ← List.append_assoc]
    cases hstep : p.step tables o with
    | next p' =>
      rw [hstep] at hlast
      have hmove := move_of_step hstep
      have hrest := ih (hplaced.move hmove) (hbooked.move hmove) horder
        (List.forall_mem_append.mpr ⟨hsilent, hlast fun _ h => by cases h⟩)
      have hrun : p.run tables o (n + 1) = p'.run tables o n := by rw [run, hstep]
      exact ⟨hrest.inOrder, by rw [hrun]; exact hrest.accepted, by rw [hrun]; exact hrest.abandoned,
        by rw [hrun]; exact hrest.silent⟩
    | accepted p' =>
      have hrun : p.run tables o (n + 1) = .accepted p' := by rw [run, hstep]
      obtain rfl := eq_of_accepted hstep
      simp only [moveEvents_of_accepted hstep, List.append_nil]
      rw [moveEvents_of_accepted hstep, List.append_nil] at horder
      refine ⟨horder, fun p'' h => ?_, fun p'' h => ?_, fun _ => hsilent⟩
      · obtain rfl := ParseEnd.accepted.inj (hrun.symm.trans h)
        exact ⟨hbooked, hsilent⟩
      · cases hrun.symm.trans h
    | abandoned p' =>
      have hrun : p.run tables o (n + 1) = .abandoned p' := by rw [run, hstep]
      simp only [List.append_nil]
      refine ⟨horder, fun p'' h => ?_, fun p'' h => ?_, fun h => absurd hrun (h p')⟩
      · cases hrun.symm.trans h
      · obtain rfl := ParseEnd.abandoned.inj (hrun.symm.trans h)
        obtain ⟨state, slot, q, -, -, hevents⟩ := surrender_of_step hstep
        refine ⟨hbooked.surrendered hstep, past ++
          (if p.repeated then [] else [.reported (p.record state slot)]),
          p.lookahead.span.start, ?_, ?_⟩
        · rw [hevents, ← List.append_assoc]
        · refine List.forall_mem_append.mpr ⟨hsilent, fun x hx => ?_⟩
          split at hx
          · cases hx
          · rw [List.mem_singleton.mp hx]
            rfl
    | failed e p' =>
      have hrun : p.run tables o (n + 1) = .failed e p' := by rw [run, hstep]
      rw [hstep] at hlast
      simp only [List.append_nil]
      refine ⟨horder, fun p'' h => ?_, fun p'' h => ?_, fun _ => ?_⟩
      · cases hrun.symm.trans h
      · cases hrun.symm.trans h
      · exact List.forall_mem_append.mpr ⟨hsilent, hlast fun _ h => by cases h⟩

end ParseState

/-! ## The outcome -/

/-- **A stable sort by offset**: nothing is lost or doubled, offsets do not decrease, and what has
one offset stays in its order. -/
structure SortedByOffset (sorted ds : List Diagnostic) : Prop where
  perm : sorted.Perm ds
  ordered : sorted.Pairwise fun a b => a.position.offset ≤ b.position.offset
  stable : ∀ offset, (sorted.filter fun d => d.position.offset = offset) =
    ds.filter fun d => d.position.offset = offset

/-- Diagnostics are sorted stably. -/
theorem sortedByOffset_sortDiagnostics (ds : List Diagnostic) :
    SortedByOffset (ParseOutcome.sortDiagnostics ds) ds := by
  have hordered : ∀ ds : List Diagnostic, (ParseOutcome.sortDiagnostics ds).Pairwise
      fun a b => a.position.offset ≤ b.position.offset := by
    intro ds
    have hsorted : (ParseOutcome.sortDiagnostics ds).Pairwise fun a b =>
        decide (a.position.offset ≤ b.position.offset) = true :=
      List.pairwise_mergeSort (fun a b c => by simpa using Nat.le_trans)
        (fun a b => by simpa using Nat.le_total _ _) ds
    exact hsorted.imp fun h => of_decide_eq_true h
  refine ⟨List.mergeSort_perm _ _, hordered ds, fun offset => ?_⟩
  rw [ParseOutcome.filter_sortDiagnostics]
  -- among diagnostics at one offset there is nothing to sort
  refine List.mergeSort_of_pairwise (List.pairwise_of_forall_mem_list ?_)
  intro a ha b hb
  have ha := (List.mem_filter.mp ha).2
  have hb := (List.mem_filter.mp hb).2
  simp only [decide_eq_true_eq] at ha hb ⊢
  omega

/-- What is told of a failed recovery is told of no error. -/
theorem countP_recoveryFailed (events : List ParseEvent) :
    (toldOf events).countP (fun d => d.code = .recoveryFailed) =
      events.countP ParseEvent.isSurrender := by
  rw [toldOf, List.countP_filterMap]
  refine List.countP_congr fun x _ => ?_
  cases x with
  | reported r =>
    have hcode : r.category.code ≠ .recoveryFailed := by cases r.category <;> decide
    simp [ParseEvent.diagnostic?, ErrorRecord.diagnostic, ParseEvent.isSurrender, hcode]
  | shifted t => simp [ParseEvent.diagnostic?, ParseEvent.isSurrender]
  | reduced n => simp [ParseEvent.diagnostic?, ParseEvent.isSurrender]
  | gaveUp place => simp [ParseEvent.diagnostic?, ParseEvent.isSurrender]

/-- **What an outcome tells** of what happened in a parse that ended in a state. -/
structure ParseOutcome.Tells (outcome : ParseOutcome) (events : List ParseEvent) (p : ParseState) :
    Prop where
  errors_eq : outcome.syntactic.errors = (recordsOf events).length
  history_eq : outcome.history.toList = latest (recordsOf events)
  shifts_eq : outcome.syntactic.shifts = events.countP ParseEvent.isShift
  reductions_eq : outcome.syntactic.reductions = events.countP ParseEvent.isReduction
  failed_iff : outcome.recoveryFailed = true ↔ ∃ place, .gaveUp place ∈ events
  failure_count : (toldOf events).countP (fun d => d.code = .recoveryFailed) =
    outcome.recoveryFailed.toNat
  sorted : SortedByOffset outcome.diagnostics
    (p.scanner.diagnostics.toList ++ toldOf events ++ p.executor.diagnostics.toList)

/-- What is gathered from a state tells what is in its books. -/
theorem ParseState.Booked.tells {p : ParseState} {events : List ParseEvent} (h : p.Booked events)
    {accepted : Bool} (hcount : events.countP ParseEvent.isSurrender = (!accepted).toNat) :
    (ParseOutcome.ofState p accepted).1.Tells events p where
  errors_eq := h.errors_eq
  history_eq := h.history_eq
  shifts_eq := h.shifts_eq
  reductions_eq := h.reductions_eq
  failed_iff := by
    have hpos : (∃ place, .gaveUp place ∈ events) ↔ 0 < events.countP ParseEvent.isSurrender := by
      rw [List.countP_pos_iff]
      constructor
      · rintro ⟨place, hmem⟩
        exact ⟨_, hmem, rfl⟩
      · rintro ⟨x, hmem, hx⟩
        cases x with
        | gaveUp place => exact ⟨place, hmem⟩
        | _ => cases hx
    have hfailed : (ParseOutcome.ofState p accepted).1.recoveryFailed = !accepted := rfl
    rw [hpos, hcount, hfailed]
    cases accepted <;> decide
  failure_count := by rw [countP_recoveryFailed, hcount]; rfl
  sorted := by
    rw [← h.diagnostics_eq, ← Array.toList_append, ← Array.toList_append]
    exact sortedByOffset_sortDiagnostics _

/-- **The reports of a parse are in order.** Of two reports the first lies before the second, unless
both are of the end of the file and it was shifted between them; with tables that never shift it,
offsets increase strictly. Nothing comes after a failed recovery. Whatever the bound on moves is, be
it the limit or another, an outcome counts all reports and
remembers the latest, tells of a failed recovery exactly once if there was one, and lists what the
scanner, the parser and the executor found in the order of the source. -/
theorem parse_reports_in_order (scanner : Scanner) (executor : Executor) (tables : DecisionTables)
    (o : SyntaxOptions) {p₀ : ParseState} {j : Journal}
    (hstart : startState scanner executor o.effectiveCapacity = (.ok p₀, j)) :
    (∀ n, InOrder (p₀.runEvents tables o n) ∧
      ((∀ state target, tables.action state endMarker ≠ some (.shift target)) →
        (recordsOf (p₀.runEvents tables o n)).Pairwise
          fun a b => a.position.offset < b.position.offset) ∧
      ∀ before place after, p₀.runEvents tables o n = before ++ .gaveUp place :: after →
        after = []) ∧
    ∀ n outcome journal, parseWithin n executor scanner tables o = (.ok outcome, journal) →
      ∃ p, (p₀.run tables o n = .accepted p ∨ p₀.run tables o n = .abandoned p) ∧
        outcome.Tells (p₀.runEvents tables o n) p := by
  -- the start state has nothing behind it, and its lookahead is in its place
  obtain ⟨t, s, states, hfound, heq⟩ : ∃ t s states, scanner.nextVisible = (.ok t, s) ∧
      p₀ = { scanner := s, states, executor, lookahead := t } := by
    rcases startState_cases scanner executor o with ⟨t, s, states, hfound, -, -, -, hok⟩ |
      ⟨e, s, -, herror⟩
    · cases hok.symm.trans hstart
      exact ⟨t, s, states, hfound, rfl⟩
    · cases herror.symm.trans hstart
  have hplaced : p₀.Placed [] := by
    refine ⟨?_, fun before r after h => ?_⟩
    · rw [heq]
      exact (Scanner.finds_of_nextVisible hfound).behind.2
    · cases before <;> cases h
  have hbooked : p₀.Booked [] := by
    rw [heq]
    exact ⟨rfl, rfl, rfl, rfl, rfl⟩
  have hchronicle : ∀ n, p₀.Chronicle tables o n (p₀.runEvents tables o n) := fun n =>
    ParseState.chronicle n hplaced hbooked (fun before _ _ _ _ h => by cases before <;> cases h)
      fun x hx => by cases hx
  refine ⟨fun n => ⟨(hchronicle n).inOrder, fun hshift => ?_, fun before place after h => ?_⟩, ?_⟩
  · refine (hchronicle n).inOrder.pairwise fun t ht => Bool.eq_false_iff.mpr fun hend => ?_
    obtain ⟨state, target, hcell⟩ := ParseState.cell_of_shifted ht
    have hvalue : t.value = .endOfFile := by simpa [Token.isEndOfFile] using hend
    rw [hvalue] at hcell
    exact hshift state target hcell
  · exact (hchronicle n).last h
  · intro n outcome journal hparse
    rw [parseWithin, hstart] at hparse
    have hrun := hchronicle n
    cases hend : p₀.run tables o n with
    | accepted p =>
      obtain ⟨hbooked, hsilent⟩ := hrun.accepted p hend
      simp only [hend, ParseEnd.result] at hparse
      obtain rfl := Except.ok.inj (Prod.mk.inj hparse).1
      refine ⟨p, .inl rfl, hbooked.tells ?_⟩
      exact List.countP_eq_zero.mpr fun x hx => by rw [hsilent x hx]; decide
    | abandoned p =>
      obtain ⟨hbooked, front, place, hevents, hsilent⟩ := hrun.abandoned p hend
      simp only [hend, ParseEnd.result] at hparse
      obtain rfl := Except.ok.inj (Prod.mk.inj hparse).1
      refine ⟨p, .inr rfl, hbooked.tells ?_⟩
      rw [hevents, List.countP_append,
        List.countP_eq_zero.mpr fun x hx => by rw [hsilent x hx]; decide]
      rfl
    | failed e p =>
      simp only [hend, ParseEnd.result] at hparse
      cases hparse

/-- Tables that shift the end of the file, and go on only if it comes again. -/
def endShiftingTables : DecisionTables where
  rules := ⟨⟨1, "S", ["B"]⟩, [⟨2, "B", ["id", "$"]⟩]⟩
  actions := ⟨["id", "$"],
    #[#[some (.shift 1), none], #[some (.shift 2), some (.shift 3)], #[none, none],
      #[none, some (.reduce 2)], #[none, none]]⟩
  gotos := ⟨["B"], #[#[some 4], #[none], #[none], #[none], #[none]]⟩

/-- The end of the file is reported in state 2 and, after it was shifted, again in state 4. -/
theorem end_reported_twice :
    endShiftingTables.check = .ok endShiftingTables ∧
      ∃ p₀ j,
        startState (.ofInput ⟨Text.encode "x y", none⟩) (.mgol 10000)
          (SyntaxOptions.effectiveCapacity {}) = (.ok p₀, j) ∧
        ¬(recordsOf (p₀.runEvents endShiftingTables {} Limits.parseMoves)).Pairwise
          (fun a b => a.position.offset < b.position.offset) ∧
        (parse (.ofInput ⟨Text.encode "x y", none⟩) endShiftingTables {}).1.toOption.map
          (fun outcome => outcome.history.toList.map fun r => (r.state, r.position.offset)) =
            some [(2, 3), (4, 3)] := by
  refine ⟨by rfl, ?_⟩
  have hrecords : (startState (.ofInput ⟨Text.encode "x y", none⟩) (.mgol 10000)
      (SyntaxOptions.effectiveCapacity {})).1.toOption.map (fun p₀ =>
        (recordsOf (p₀.runEvents endShiftingTables {} Limits.parseMoves)).map
          fun r => r.position.offset) = some [3, 3] := by
    decide +kernel
  obtain ⟨p₀, hstarted, hoffsets⟩ := Option.map_eq_some_iff.mp hrecords
  obtain ⟨j, hstart⟩ := exists_start hstarted
  refine ⟨p₀, j, hstart, fun hpairwise => ?_, by decide +kernel⟩
  have hincreasing := List.pairwise_map.mpr hpairwise
  rw [hoffsets] at hincreasing
  exact absurd hincreasing (by decide)

/-- A parse that gives up at the end of the file tells so once. -/
theorem parse_reports_in_order_shifted_end :
    ∃ p₀ j,
      startState (.ofInput ⟨Text.encode "x y", none⟩) (.mgol 10000)
        (SyntaxOptions.effectiveCapacity {}) = (.ok p₀, j) ∧
      ∃ outcome journal p,
        parse (.ofInput ⟨Text.encode "x y", none⟩) endShiftingTables {} = (.ok outcome, journal) ∧
        outcome.Tells (p₀.runEvents endShiftingTables {} Limits.parseMoves) p ∧
        (toldOf (p₀.runEvents endShiftingTables {} Limits.parseMoves)).countP
          (fun d => d.code = .recoveryFailed) = 1 := by
  have hfailed : (parse (.ofInput ⟨Text.encode "x y", none⟩) endShiftingTables {}).1.toOption.map
      ParseOutcome.recoveryFailed = some true := by
    decide +kernel
  rcases hparse : parse (.ofInput ⟨Text.encode "x y", none⟩) endShiftingTables {} with
    ⟨⟨e⟩ | ⟨outcome⟩, journal⟩
  · rw [hparse] at hfailed
    cases hfailed
  rcases hstart : startState (.ofInput ⟨Text.encode "x y", none⟩) (.mgol 10000)
    (SyntaxOptions.effectiveCapacity {}) with ⟨⟨e⟩ | ⟨p₀⟩, j⟩
  · have hcapacity : SyntaxOptions.effectiveCapacity {} = 10000 := rfl
    rw [parse, parseWith, parseWithin, hcapacity] at hparse
    rw [hcapacity] at hstart
    rw [hstart] at hparse
    cases hparse
  · obtain ⟨-, houtcome⟩ := parse_reports_in_order (.ofInput ⟨Text.encode "x y", none⟩)
      (.mgol 10000) endShiftingTables {} hstart
    obtain ⟨p, -, htells⟩ := houtcome Limits.parseMoves outcome journal hparse
    refine ⟨p₀, j, rfl, outcome, journal, p, rfl, htells, ?_⟩
    rw [htells.failure_count]
    rw [hparse] at hfailed
    rw [show outcome.recoveryFailed = true from Option.some.inj hfailed]
    rfl

end Mgol
