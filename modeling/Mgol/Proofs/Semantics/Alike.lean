import Mathlib.Data.List.Forall2
import Mgol.Proofs.Semantics.Parts

/-! # The same work in other places

What semantic actions do depends on where things stand in a source only in so far as one thing
stands before another. Given two sources and a relation between their places that keeps the order,
actions on values in related places do the same work and report it at related places.

* **`KeepsOrder`** — a relation between the places of two sources.
* **`Spanned.Alike`, `Diagnostic.Alike`, `ActionContext.Alike`** — the same in related places.
* **`SemanticAction.alike`** — every action does the same on the same values.
* **`Executor.Alike.shift`, `Executor.Alike.reduce`** — and so does an executor. -/

namespace Mgol

open Target

/-! ## Places -/

/-- **A relation between the places of two sources** that keeps their order. -/
def KeepsOrder (R : Position → Position → Prop) : Prop :=
  ∀ p q p' q', R p q → R p' q' → (p.offset ≤ p'.offset ↔ q.offset ≤ q'.offset)

variable {R : Position → Position → Prop}

/-- Offsets are the same in one source if they are in the other. -/
theorem KeepsOrder.offset_eq_iff (hR : KeepsOrder R) {p q p' q' : Position} (h : R p q)
    (h' : R p' q') : p.offset = p'.offset ↔ q.offset = q'.offset := by
  have hle := hR p q p' q' h h'
  have hge := hR p' q' p q h' h
  omega

/-- **The same value in related places.** -/
def Spanned.Alike (R : Position → Position → Prop) (t u : Spanned Token) : Prop :=
  u.value = t.value ∧ R t.span.start u.span.start

/-- **The same report at related places.** -/
def Diagnostic.Alike (R : Position → Position → Prop) (d e : Diagnostic) : Prop :=
  R d.position e.position ∧ e = { d with position := e.position }

/-- The least spans over spans with related starts have related starts. -/
theorem start_cover (hR : KeepsOrder R) {p q : Position} (hp : R p q)
    {values values' : List (Spanned Token)} (h : List.Forall₂ (Spanned.Alike R) values values') :
    R (Span.cover p (values.map Spanned.span)).start
      (Span.cover q (values'.map Spanned.span)).start := by
  cases h with
  | nil => exact hp
  | @cons t u values values' htu hrest =>
    simp only [List.map_cons, Span.cover]
    have hstart := htu.2
    generalize t.span = a, u.span = b at hstart
    -- the earlier of two starts, in either source
    induction hrest generalizing a b with
    | nil => exact hstart
    | cons hvw _ ih =>
      refine ih _ _ ?_
      have horder := hR _ _ _ _ hstart hvw.2
      simp only [Span.merge]
      split_ifs with h₁ h₂ h₂
      · exact hstart
      · exact absurd (horder.mp h₁) h₂
      · exact absurd (horder.mpr h₂) h₁
      · exact hvw.2

/-! ## Reductions -/

/-- **The same reduction in related places.** -/
structure Reduction.Alike (R : Position → Position → Prop) (r r' : Reduction) : Prop where
  rule_eq : r'.rule = r.rule
  values : List.Forall₂ (Spanned.Alike R) r.values r'.values
  position : R r.position r'.position

namespace Reduction.Alike

variable {r r' : Reduction}

/-- A symbol has a value in both or in none. -/
theorem getElem? (h : r.Alike R r') (i : Nat) :
    (r.values[i]? = none ∧ r'.values[i]? = none) ∨
      ∃ v v', r.values[i]? = some v ∧ r'.values[i]? = some v' ∧ v.Alike R v' := by
  have hvalues := h.values
  generalize r.values = values, r'.values = values' at hvalues
  induction hvalues generalizing i with
  | nil => exact .inl ⟨rfl, rfl⟩
  | cons hv _ ih =>
    cases i with
    | zero => exact .inr ⟨_, _, rfl, rfl, hv⟩
    | succ i => exact ih i

/-- The values of a symbol are the same. -/
theorem token_eq (h : r.Alike R r') (i : Nat) : r'.token i = r.token i := by
  unfold token
  rcases h.getElem? i with ⟨hv, hv'⟩ | ⟨v, v', hv, hv', hvalue, -⟩
  · rw [hv, hv', h.rule_eq, h.values.length_eq]
  · rw [hv, hv']
    exact congrArg Except.ok hvalue

/-- A symbol starts at related places. -/
theorem positionOf (h : r.Alike R r') (i : Nat) : R (r.positionOf i) (r'.positionOf i) := by
  unfold Reduction.positionOf
  rcases h.getElem? i with ⟨hv, hv'⟩ | ⟨v, v', hv, hv', -, hstart⟩
  · rw [hv, hv']
    exact h.position
  · rw [hv, hv']
    exact hstart

/-- The value without a meaning is the same. -/
theorem empty_eq (h : r.Alike R r') : r'.empty = r.empty := by
  rw [Reduction.empty, Reduction.empty, h.rule_eq]

end Reduction.Alike

/-! ## Contexts -/

/-- **The same work with reports at related places**: nothing else differs but the notes. -/
def ActionContext.Alike (R : Position → Position → Prop) (c c' : ActionContext) : Prop :=
  ∃ diagnostics journal,
    List.Forall₂ (Diagnostic.Alike R) c.work.diagnostics.toList diagnostics.toList ∧
      c' = ⟨{ c.work with diagnostics }, ⟨c.session.registry, journal⟩⟩

namespace ActionContext.Alike

variable {c c' : ActionContext}

/-- A statement is written. -/
theorem emit (h : c.Alike R c') (s : Statement) : (c.emit s).Alike R (c'.emit s) := by
  obtain ⟨ds, j, hds, rfl⟩ := h
  exact ⟨ds, j, hds, rfl⟩

/-- **An error is reported** at related places. -/
theorem report (h : c.Alike R c') {p p' : Position} (hp : R p p') (code : Code) (message : String)
    (lexeme : String) :
    (c.report code message p lexeme).Alike R (c'.report code message p' lexeme) := by
  obtain ⟨ds, j, hds, rfl⟩ := h
  have hsize : ds.size = c.work.diagnostics.size := by
    rw [← Array.length_toList, ← Array.length_toList, hds.length_eq]
  obtain ⟨j₁, h₁⟩ := c.report_eq code message p lexeme
  obtain ⟨j₂, h₂⟩ := report_eq ⟨{ c.work with diagnostics := ds }, ⟨c.session.registry, j⟩⟩
    code message p' lexeme
  rw [h₁, h₂]
  refine ⟨_, j₂, ?_, rfl⟩
  -- whether there is room for it depends on their number alone
  simp only [hsize]
  split_ifs with hroom
  · simp only [Array.toList_push]
    exact List.rel_append hds (.cons ⟨hp, rfl⟩ .nil)
  · exact hds

/-- A name is looked up. -/
theorem lookup (h : c.Alike R c') (id : Token) {p p' : Position} (hp : R p p') :
    (c'.lookup id p').1 = (c.lookup id p).1 ∧ (c.lookup id p).2.Alike R (c'.lookup id p').2 := by
  have hreport := h.report hp .undeclaredIdentifier ("Variable '" ++ id.lexeme ++ "' not declared")
    id.lexeme
  have hsame := h
  obtain ⟨ds, j, hds, rfl⟩ := h
  unfold ActionContext.lookup
  simp only
  split_ifs with hnone
  · exact ⟨rfl, hreport⟩
  · exact ⟨rfl, hsame⟩

/-- **A name is declared** in both or refused in both. -/
theorem declare (h : c.Alike R c') (id : Token) {p p' : Position} (hp : R p p') :
    (∃ e, c.declare id p = .error e ∧ c'.declare id p' = .error e) ∨
      ∃ d d', c.declare id p = .ok d ∧ c'.declare id p' = .ok d' ∧ d.Alike R d' := by
  have hreport := h.report hp .redeclaration
    ("Variable '" ++ id.lexeme ++ "' already declared as "
      ++ (c.session.registry.typeOf id.lexeme).text) id.lexeme
  have hsame := h
  obtain ⟨ds, j, hds, rfl⟩ := h
  unfold ActionContext.declare
  simp only
  split_ifs with htyped hpending
  · exact .inr ⟨_, _, rfl, rfl, hreport⟩
  · unfold setPendingType
    simp only
    cases c.session.registry.setType id.lexeme c.work.pendingType with
    | error e => exact .inl ⟨_, rfl, rfl⟩
    | ok registry => exact .inr ⟨_, _, rfl, rfl, ds, j, hds, rfl⟩
  · exact .inr ⟨_, _, rfl, rfl, hsame⟩

end ActionContext.Alike

/-! ## Actions -/

/-- **The same result at related places.** -/
def ActionResult.Alike (R : Position → Position → Prop) (a a' : ActionResult) : Prop :=
  a'.1 = a.1 ∧ a.2.Alike R a'.2

namespace SemanticAction

variable {r r' : Reduction} {c c' : ActionContext}

/-- An action goes on with a value in both or in none. -/
theorem alike_withToken (h : r.Alike R r') (hc : c.Alike R c') (i : Nat)
    {next next' : Token → ActionResult} (hnext : ∀ t, (next t).Alike R (next' t)) :
    ActionResult.Alike R (r.withToken i c next) (r'.withToken i c' next') := by
  unfold Reduction.withToken
  rw [h.token_eq i]
  cases r.token i with
  | error e => exact ⟨rfl, hc⟩
  | ok t => exact hnext t

/-- There is a temporary in both or in none. -/
theorem alike_withTemporary (kind : TemporaryKind) (hc : c.Alike R c')
    {next next' : String → ActionContext → ActionResult}
    (hnext : ∀ name d d', d.Alike R d' → (next name d).Alike R (next' name d')) :
    ActionResult.Alike R (withTemporary kind c next) (withTemporary kind c' next') := by
  have hsame := hc
  obtain ⟨ds, j, hds, rfl⟩ := hc
  unfold withTemporary
  simp only
  split_ifs with hfull
  · exact ⟨rfl, hsame⟩
  · exact hnext _ _ _ ⟨ds, j, hds, rfl⟩

/-- Two operands and their operator. -/
theorem alike_withOperands (h : r.Alike R r') (hc : c.Alike R c')
    {next next' : Token → Token → Token → ActionContext → ActionResult}
    (hnext : ∀ left operator right,
      (next left operator right c).Alike R (next' left operator right c')) :
    ActionResult.Alike R (withOperands r c next) (withOperands r' c' next') := by
  unfold withOperands
  refine alike_withToken h hc 0 fun left => alike_withToken h hc 1 fun operator =>
    alike_withToken h hc 2 fun right => ?_
  split_ifs with huntyped hdifferent
  · exact ⟨rfl, hc⟩
  · exact ⟨rfl, hc.report (h.positionOf 0) _ _ _⟩
  · exact hnext left operator right

/-- A statement that is written if there is a type. -/
theorem alike_emitTyped (hc : c.Alike R c') (type : DataType) (s : Statement) :
    (if type = .untyped then c else c.emit s).Alike R
      (if type = .untyped then c' else c'.emit s) := by
  split_ifs
  · exact hc
  · exact hc.emit s

/-- A declaration ends. -/
theorem alike_declaration (h : r.Alike R r') (hc : c.Alike R c') :
    (declaration r c).Alike R (declaration r' c') := by
  refine alike_withToken h hc 0 fun declared => ⟨congrArg Except.ok h.empty_eq, ?_⟩
  obtain ⟨ds, j, hds, rfl⟩ := hc
  have hend : (endDeclaration c).Alike R
      (endDeclaration ⟨{ c.work with diagnostics := ds }, ⟨c.session.registry, j⟩⟩) :=
    ⟨ds, j, hds, rfl⟩
  simp only
  split_ifs
  · exact hend
  · exact hend.emit _

/-- A name is declared. -/
theorem alike_declareIdentifier (h : r.Alike R r') (hc : c.Alike R c') :
    (declareIdentifier r c).Alike R (declareIdentifier r' c') := by
  refine alike_withToken h hc 0 fun id => ?_
  rcases hc.declare id (h.positionOf 0) with ⟨e, he, he'⟩ | ⟨d, d', hd, hd', halike⟩
  · rw [he, he']
    exact ⟨rfl, hc⟩
  · rw [hd, hd']
    exact ⟨congrArg Except.ok h.empty_eq, halike⟩

/-- A statement that reads. -/
theorem alike_readStatement (h : r.Alike R r') (hc : c.Alike R c') :
    (readStatement r c).Alike R (readStatement r' c') := by
  refine alike_withToken h hc 1 fun id => ⟨congrArg Except.ok h.empty_eq, ?_⟩
  obtain ⟨htype, hlookup⟩ := hc.lookup id (h.positionOf 1)
  simp only [htype]
  exact alike_emitTyped hlookup _ _

/-- A statement that writes. -/
theorem alike_writeStatement (h : r.Alike R r') (hc : c.Alike R c') :
    (writeStatement r c).Alike R (writeStatement r' c') := by
  refine alike_withToken h hc 1 fun argument => ?_
  split
  · exact ⟨congrArg Except.ok h.empty_eq, hc.emit _⟩
  · obtain ⟨htype, hlookup⟩ := hc.lookup argument (h.positionOf 1)
    simp only [htype]
    exact ⟨congrArg Except.ok h.empty_eq, alike_emitTyped hlookup _ _⟩
  · exact ⟨congrArg Except.ok h.empty_eq, alike_emitTyped hc _ _⟩

/-- An assignment. -/
theorem alike_assignment (h : r.Alike R r') (hc : c.Alike R c') :
    (assignment r c).Alike R (assignment r' c') := by
  refine alike_withToken h hc 0 fun id => alike_withToken h hc 2 fun value =>
    ⟨congrArg Except.ok h.empty_eq, ?_⟩
  obtain ⟨htype, hlookup⟩ := hc.lookup id (h.positionOf 0)
  simp only [htype]
  split_ifs
  · exact hlookup
  · exact hlookup.report (h.positionOf 0) _ _ _
  · exact hlookup.emit _
  · exact hlookup.emit _

/-- An arithmetic expression. -/
theorem alike_arithmetic (h : r.Alike R r') (hc : c.Alike R c') :
    (arithmetic r c).Alike R (arithmetic r' c') := by
  refine alike_withOperands h hc fun left operator right => ?_
  cases TemporaryKind.ofArithmetic? left.type with
  | none => exact ⟨rfl, hc.report (h.positionOf 0) _ _ _⟩
  | some kind => exact alike_withTemporary kind hc fun name d d' hd => ⟨rfl, hd.emit _⟩

/-- A comparison. -/
theorem alike_relational (h : r.Alike R r') (hc : c.Alike R c') :
    (relational r c).Alike R (relational r' c') := by
  have hforget : (forgetRelational c).Alike R (forgetRelational c') := by
    obtain ⟨ds, j, hds, rfl⟩ := hc
    exact ⟨ds, j, hds, rfl⟩
  refine alike_withOperands h hforget fun left operator right =>
    alike_withTemporary .truth hforget fun name d d' hd => ⟨rfl, ?_⟩
  obtain ⟨ds, j, hds, rfl⟩ := hd
  exact ⟨ds, j, hds, rfl⟩

/-- A name as an operand. -/
theorem alike_identifierOperand (h : r.Alike R r') (hc : c.Alike R c') :
    (identifierOperand r c).Alike R (identifierOperand r' c') := by
  refine alike_withToken h hc 0 fun id => ?_
  obtain ⟨htype, hlookup⟩ := hc.lookup id (h.positionOf 0)
  simp only [htype]
  exact ⟨rfl, hlookup⟩

/-- The end of a loop. -/
theorem alike_closeLoop (h : r.Alike R r') (hc : c.Alike R c') :
    (closeLoop r c).Alike R (closeLoop r' c') := by
  refine ⟨congrArg Except.ok h.empty_eq, ?_⟩
  obtain ⟨⟨code, type, names, last, loops, found, count⟩, session⟩ := c
  obtain ⟨ds, j, hds, rfl⟩ := hc
  cases loops with
  | nil => exact ⟨ds, j, hds, rfl⟩
  | cons comparison outer =>
    cases comparison with
    | none => exact ⟨ds, j, hds, rfl⟩
    | some s => exact ⟨ds, j, hds, rfl⟩

/-- **Every action of MGol does the same on the same values** in related places. -/
theorem alike {n : Nat} {action : SemanticAction} (haction : mgolActions n = some action)
    (h : r.Alike R r') (hc : c.Alike R c') : (action r c).Alike R (action r' c') := by
  unfold mgolActions at haction
  split at haction
  -- declarations
  · obtain rfl := Option.some.inj haction
    exact alike_declaration h hc
  iterate 2
    obtain rfl := Option.some.inj haction
    exact alike_declareIdentifier h hc
  iterate 3
    obtain rfl := Option.some.inj haction
    refine alike_withToken h hc 0 fun keyword => ⟨rfl, ?_⟩
    obtain ⟨ds, j, hds, rfl⟩ := hc
    exact ⟨ds, j, hds, rfl⟩
  -- reading and writing
  · obtain rfl := Option.some.inj haction
    exact alike_readStatement h hc
  · obtain rfl := Option.some.inj haction
    exact alike_writeStatement h hc
  iterate 3
    obtain rfl := Option.some.inj haction
    exact alike_withToken h hc 0 fun t => ⟨rfl, hc⟩
  -- assignments and expressions
  · obtain rfl := Option.some.inj haction
    exact alike_assignment h hc
  · obtain rfl := Option.some.inj haction
    exact alike_arithmetic h hc
  · obtain rfl := Option.some.inj haction
    exact alike_withToken h hc 0 fun operand => ⟨rfl, hc⟩
  · obtain rfl := Option.some.inj haction
    exact alike_identifierOperand h hc
  · obtain rfl := Option.some.inj haction
    exact alike_withToken h hc 0 fun operand => ⟨rfl, hc⟩
  -- conditionals and loops
  · obtain rfl := Option.some.inj haction
    obtain ⟨ds, j, hds, rfl⟩ := hc
    exact ⟨congrArg Except.ok h.empty_eq, ds, j, hds, rfl⟩
  · obtain rfl := Option.some.inj haction
    refine alike_withToken h hc 2 fun condition => ⟨congrArg Except.ok h.empty_eq, ?_⟩
    obtain ⟨ds, j, hds, rfl⟩ := hc
    exact ⟨ds, j, hds, rfl⟩
  · obtain rfl := Option.some.inj haction
    exact alike_relational h hc
  · obtain rfl := Option.some.inj haction
    exact alike_closeLoop h hc
  · obtain rfl := Option.some.inj haction
    refine alike_withToken h hc 2 fun condition => ⟨congrArg Except.ok h.empty_eq, ?_⟩
    obtain ⟨ds, j, hds, rfl⟩ := hc
    exact ⟨ds, j, hds, rfl⟩
  · cases haction

end SemanticAction

/-! ## Stacks -/

/-- **Stacks of one capacity with related items.** -/
structure Stack.Alike {α : Type} (S : α → α → Prop) (s s' : Stack α) : Prop where
  capacity_eq : s'.capacity = s.capacity
  items : List.Forall₂ S s.items s'.items

namespace Stack.Alike

variable {α : Type} {S : α → α → Prop} {s s' : Stack α}

/-- Such stacks are of one depth. -/
theorem depth_eq (h : s.Alike S s') : s'.depth = s.depth := by
  rw [s'.depth_eq, s.depth_eq, h.items.length_eq]

/-- There is room in both or in none. -/
theorem push (h : s.Alike S s') {a b : α} (hab : S a b) :
    (∃ e, s.push a = .error e ∧ s'.push b = .error e) ∨
      ∃ t t', s.push a = .ok t ∧ s'.push b = .ok t' ∧ t.Alike S t' := by
  have hdepth := h.depth_eq
  have hcapacity := h.capacity_eq
  unfold Stack.push
  by_cases hroom : s.depth < s.capacity
  · rw [if_pos hroom, if_pos (by omega)]
    exact .inr ⟨_, _, rfl, rfl, h.capacity_eq, .cons hab h.items⟩
  · rw [if_neg hroom, if_neg (by omega), hcapacity]
    exact .inl ⟨_, rfl, rfl⟩

/-- The upper items come off. -/
theorem dropTop (h : s.Alike S s') (n : Nat) : (s.dropTop n).Alike S (s'.dropTop n) :=
  ⟨h.capacity_eq, List.forall₂_drop n h.items⟩

/-- As many items come off both, or they are missing in both. -/
theorem popMany (h : s.Alike S s') (n : Nat) :
    (s.popMany n = .error .empty ∧ s'.popMany n = .error .empty) ∨
      ∃ taken taken' t t', s.popMany n = .ok (taken, t) ∧ s'.popMany n = .ok (taken', t') ∧
        List.Forall₂ S taken taken' ∧ t.Alike S t' := by
  unfold Stack.popMany
  rw [h.depth_eq]
  by_cases hdepth : n ≤ s.depth
  · rw [if_pos hdepth, if_pos hdepth]
    exact .inr ⟨_, _, _, _, rfl, rfl, List.forall₂_reverse_iff.mpr (List.forall₂_take n h.items),
      h.dropTop n⟩
  · rw [if_neg hdepth, if_neg hdepth]
    exact .inl ⟨rfl, rfl⟩

/-- Both are cut to the same depth. -/
theorem truncate (h : s.Alike S s') (n : Nat) : (s.truncate n).Alike S (s'.truncate n) := by
  unfold Stack.truncate
  rw [h.depth_eq]
  exact h.dropTop _

end Stack.Alike

/-! ## Executors -/

/-- **Executors of MGol with the same values in related places**, that have done the same. -/
structure Executor.Alike (R : Position → Position → Prop) (e e' : Executor) : Prop where
  mgol : e.actions = mgolActions
  mgol' : e'.actions = mgolActions
  values : e.values.Alike (Spanned.Alike R) e'.values
  work : ∃ diagnostics,
    List.Forall₂ (Diagnostic.Alike R) e.work.diagnostics.toList diagnostics.toList ∧
      e'.work = { e.work with diagnostics }

namespace Executor.Alike

variable {e e' : Executor}

/-- Executors start alike. -/
theorem start (R : Position → Position → Prop) (capacity : Nat) :
    (Executor.mgol capacity).Alike R (Executor.mgol capacity) where
  mgol := rfl
  mgol' := rfl
  values := ⟨rfl, .nil⟩
  work := ⟨#[], .nil, rfl⟩

/-- **A token is put on both value stacks** or on none. -/
theorem shift (h : e.Alike R e') {t u : Spanned Token} (htu : t.Alike R u) :
    (∃ err, e.shift t = .error err ∧ e'.shift u = .error err) ∨
      ∃ d d', e.shift t = .ok d ∧ e'.shift u = .ok d' ∧ d.Alike R d' := by
  unfold Executor.shift
  rcases h.values.push htu with ⟨err, herr, herr'⟩ | ⟨v, v', hv, hv', hvalues⟩
  · rw [herr, herr']
    exact .inl ⟨_, rfl, rfl⟩
  · rw [hv, hv']
    exact .inr ⟨_, _, rfl, rfl, h.mgol, h.mgol', hvalues, h.work⟩

/-- Both value stacks are cut. -/
theorem truncate (h : e.Alike R e') (n : Nat) : (e.truncate n).Alike R (e'.truncate n) :=
  ⟨h.mgol, h.mgol', h.values.truncate n, h.work⟩

/-- The action of a rule, or the lack of one. -/
theorem perform {r r' : Reduction} {c c' : ActionContext} (h : r.Alike R r') (hc : c.Alike R c') :
    (Executor.perform mgolActions r c).Alike R (Executor.perform mgolActions r' c') := by
  unfold Executor.perform
  rw [h.rule_eq]
  cases haction : mgolActions r.rule.number with
  | none => exact ⟨congrArg Except.ok h.empty_eq, hc⟩
  | some action => exact SemanticAction.alike haction h hc

/-- **A reduction does the same in both**, or is refused in both for one reason. -/
theorem reduce (hR : KeepsOrder R) (h : e.Alike R e') (rule : Rule) {p p' : Position}
    (hp : R p p') {session session' : Session} (hsession : session'.registry = session.registry) :
    (∃ err, (e.reduce rule p session).1 = .error err ∧
        (e'.reduce rule p' session').1 = .error err) ∨
      (e.reduce rule p session).1 = .ok () ∧ (e'.reduce rule p' session').1 = .ok () ∧
        (e.reduce rule p session).2.1.Alike R (e'.reduce rule p' session').2.1 ∧
        (e'.reduce rule p' session').2.2.registry = (e.reduce rule p session).2.2.registry := by
  obtain ⟨actions, values, work⟩ := e
  obtain ⟨actions', values', work'⟩ := e'
  obtain ⟨hmgol, hmgol', hvalues, ds, hds, hwork⟩ := h
  simp only at hmgol hmgol' hvalues hds hwork
  subst hmgol hmgol' hwork
  unfold Executor.reduce
  rcases hvalues.popMany rule.arity with ⟨herr, herr'⟩ | ⟨taken, taken', rest, rest', htaken,
    htaken', hvalues', hrest⟩
  · simp only [herr, herr']
    exact .inl ⟨_, rfl, by rw [hvalues.depth_eq]⟩
  · simp only [htaken, htaken']
    have hr : Reduction.Alike R ⟨rule, taken, p⟩ ⟨rule, taken', p'⟩ := ⟨rfl, hvalues', hp⟩
    have hc : ActionContext.Alike R ⟨work, session⟩ ⟨{ work with diagnostics := ds }, session'⟩ :=
      ⟨ds, session'.journal, hds, by rw [← hsession]⟩
    obtain ⟨hvalue, hcontext⟩ := perform hr hc
    generalize Executor.perform mgolActions ⟨rule, taken, p⟩ ⟨work, session⟩ = outcome,
      Executor.perform mgolActions ⟨rule, taken', p'⟩ ⟨{ work with diagnostics := ds }, session'⟩ =
        outcome' at hvalue hcontext
    obtain ⟨result, d⟩ := outcome
    obtain ⟨result', d'⟩ := outcome'
    obtain rfl : result' = result := hvalue
    obtain ⟨ds', j', hds', rfl⟩ := hcontext
    unfold Executor.complete
    cases result' with
    | error err => exact .inl ⟨err, rfl, rfl⟩
    | ok value =>
      -- the value covers what the values cover that were taken off
      have hspan : Spanned.Alike R ⟨value, Reduction.span ⟨rule, taken, p⟩⟩
          ⟨value, Reduction.span ⟨rule, taken', p'⟩⟩ := ⟨rfl, start_cover hR hp hvalues'⟩
      simp only
      rcases hrest.push hspan with ⟨err, herr, herr'⟩ | ⟨v, v', hv, hv', halike⟩
      · rw [herr, herr']
        exact .inl ⟨_, rfl, rfl⟩
      · rw [hv, hv']
        exact .inr ⟨rfl, rfl, ⟨rfl, rfl, halike, ds', hds', rfl⟩, rfl⟩

end Executor.Alike

end Mgol
