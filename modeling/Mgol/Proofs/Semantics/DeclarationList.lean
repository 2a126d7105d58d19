import Mathlib.Data.List.Dedup
import Mgol.Grammar.Mgol
import Mgol.Proofs.Parser.Stacks
import Mgol.Proofs.Semantics.Tally
import Mgol.Proofs.Semantics.Tame
import Mgol.Proofs.Semantics.Types

/-! # Declaration lists of any length

The names of a declaration are shifted from left to right, and then reduced from right to left: the
last one first, by `L → id`, and then one after the other by `L → id vir L`. Each reduction declares
one name, in the registry that the reductions before it have left. So of a name that stands in the
list more than once, the last occurrence is the one that is declared.

* **`Executor.Order`, `Executor.obeyAll`** — shifts and reductions, one after the other.
* **`newNames`, `redeclared`** — the names that a list declares, and the errors that it reports.
* **`ActionContext.Enrols`, `ActionContext.Enrols.cons`** — what was declared, from the right.
* **`declaration_list_declares`** — what a whole declaration does. -/

namespace Mgol

open Target

/-! ## Orders -/

namespace Executor

/-- **What a parser orders**: a shift, or a reduction at a place of the source. -/
inductive Order where
  | shift (t : Spanned Token)
  | reduce (rule : Rule) (p : Position)

/-- One order. -/
def obey (s : Executor × Session) : Order → Except SemanticError (Executor × Session)
  | .shift t => (s.1.shift t).map fun e => (e, s.2)
  | .reduce rule p =>
    match s.1.reduce rule p s.2 with
    | (.ok (), e, session) => .ok (e, session)
    | (.error err, _, _) => .error err

/-- **One order after the other**, up to one that fails. -/
def obeyAll (orders : List Order) (s : Executor × Session) :
    Except SemanticError (Executor × Session) :=
  orders.foldlM obey s

variable {actions : Nat → Option SemanticAction} {values : Stack (Spanned Token)}
  {items : List (Spanned Token)} {work : SemanticState} {session : Session}

/-- Orders in two parts. -/
theorem obeyAll_append {first second : List Order} {s s' s'' : Executor × Session}
    (h : obeyAll first s = .ok s') (h' : obeyAll second s' = .ok s'') :
    obeyAll (first ++ second) s = .ok s'' := by
  unfold obeyAll at h h' ⊢
  rw [List.foldlM_append, h]
  exact h'

/-- One order by itself. -/
theorem obeyAll_singleton {order : Order} {s s' : Executor × Session} (h : obey s order = .ok s') :
    obeyAll [order] s = .ok s' := by
  rw [obeyAll, List.foldlM_cons, h]
  rfl

/-- A shift, if there is room. -/
theorem obey_shift (t : Spanned Token) (hroom : items.length < values.capacity) :
    obey (⟨actions, values.withItems items, work⟩, session) (.shift t) =
      .ok (⟨actions, values.withItems (t :: items), work⟩, session) := by
  have hpush : (values.withItems items).push t = .ok (values.withItems (t :: items)) :=
    (Stack.push_eq_ok_iff _ _ _).mpr ⟨hroom, rfl, rfl⟩
  simp only [obey, shift, hpush, Except.map]

/-- Shifts, if there is room for all of them. -/
theorem obeyAll_shift (tokens : List (Spanned Token))
    (hroom : items.length + tokens.length ≤ values.capacity) :
    obeyAll (tokens.map .shift) (⟨actions, values.withItems items, work⟩, session) =
      .ok (⟨actions, values.withItems (tokens.reverse ++ items), work⟩, session) := by
  induction tokens generalizing items with
  | nil => rfl
  | cons t tokens ih =>
    rw [List.length_cons] at hroom
    rw [List.map_cons, obeyAll, List.foldlM_cons, obey_shift t (by omega), List.reverse_cons,
      List.append_assoc]
    exact ih (by rw [List.length_cons]; omega)

/-- **A reduction whose action gives a value**: that value takes the place of those of the right
side, for which there was room. -/
theorem obey_reduce {rule : Rule} {taken rest : List (Spanned Token)} {p : Position} {v : Token}
    {c : ActionContext} (hitems : items = taken.reverse ++ rest)
    (harity : taken.length = rule.arity) (hne : taken ≠ []) (hroom : items.length ≤ values.capacity)
    (hperform : perform actions ⟨rule, taken, p⟩ ⟨work, session⟩ = (.ok v, c)) :
    obey (⟨actions, values.withItems items, work⟩, session) (.reduce rule p) =
      .ok (⟨actions, values.withItems (⟨v, Reduction.span ⟨rule, taken, p⟩⟩ :: rest), c.work⟩,
        c.session.note (.actionRun rule.number v.lexeme)) := by
  have hlength : taken.reverse.length = rule.arity := by rw [List.length_reverse, harity]
  have hpop : (values.withItems items).popMany rule.arity = .ok (taken, values.withItems rest) := by
    have hle : rule.arity ≤ (values.withItems items).items.length := by
      show rule.arity ≤ items.length
      rw [hitems, List.length_append, hlength]
      exact Nat.le_add_right _ _
    rw [Stack.popMany_eq hle]
    have htake : (values.withItems items).items.take rule.arity = taken.reverse := by
      rw [← hlength, show (values.withItems items).items = _ from hitems, List.take_left]
    have hdrop : (values.withItems items).dropTop rule.arity = values.withItems rest := by
      refine Stack.eq_of_items rfl ?_
      rw [Stack.items_dropTop, ← hlength, show (values.withItems items).items = _ from hitems,
        List.drop_left]
      rfl
    rw [htake, hdrop, List.reverse_reverse]
  have hpush : (values.withItems rest).push ⟨v, Reduction.span ⟨rule, taken, p⟩⟩ =
      .ok (values.withItems (⟨v, Reduction.span ⟨rule, taken, p⟩⟩ :: rest)) := by
    refine (Stack.push_eq_ok_iff _ _ _).mpr ⟨?_, rfl, rfl⟩
    have hpos : 0 < taken.length := List.length_pos_iff.mpr hne
    rw [hitems, List.length_append, List.length_reverse] at hroom
    show rest.length < values.capacity
    omega
  simp only [obey, reduce, hpop, hperform, complete, hpush]

end Executor

/-! ## What a list declares -/

/-- **The names that a list declares**: those without a type, each where it stands last. -/
def newNames (types : String → DataType) : List String → List String
  | [] => []
  | x :: rest =>
    (if types x = .untyped ∧ x ∉ rest then [x] else []) ++ newNames types rest

/-- The error that a name is declared which has a type. -/
def alreadyDeclared (x : Spanned Token) (type : DataType) : Diagnostic :=
  ActionContext.fault .redeclaration
    ("Variable '" ++ x.value.lexeme ++ "' already declared as " ++ type.text) x.span.start
    x.value.lexeme

/-- **The errors that a list reports**, from its end on: one for each name that has a type, whether
it had one before or got that of the declaration where it stands further right. -/
def redeclared (types : String → DataType) (type : DataType) :
    List (Spanned Token) → List Diagnostic
  | [] => []
  | x :: rest =>
    redeclared types type rest ++
      if types x.value.lexeme ≠ .untyped then [alreadyDeclared x (types x.value.lexeme)]
      else if x.value.lexeme ∈ rest.map (·.value.lexeme) then [alreadyDeclared x type]
      else []

variable {types : String → DataType} {type : DataType}

/-- The names that a list declares are those without a type, once each, in the order of their last
occurrences. -/
theorem newNames_eq_dedup (types : String → DataType) (names : List String) :
    newNames types names = (names.filter fun x => types x = .untyped).dedup := by
  induction names with
  | nil => rfl
  | cons x names ih =>
    rw [newNames, ih]
    by_cases hnew : types x = .untyped
    · rw [List.filter_cons_of_pos (by simpa using hnew)]
      by_cases hmem : x ∈ names
      · rw [if_neg (fun h => h.2 hmem), List.nil_append,
          List.dedup_cons_of_mem (List.mem_filter.mpr ⟨hmem, by simpa using hnew⟩)]
      · rw [if_pos ⟨hnew, hmem⟩, List.singleton_append,
          List.dedup_cons_of_notMem (fun h => hmem (List.mem_of_mem_filter h))]
    · rw [if_neg (fun h => hnew h.1), List.nil_append,
        List.filter_cons_of_neg (by simpa using hnew)]

/-- A name that has a type, or stands further right, is not declared here. -/
theorem newNames_cons_of_old {x : String} {names : List String}
    (hold : types x ≠ .untyped ∨ x ∈ names) :
    newNames types (x :: names) = newNames types names := by
  rw [newNames, if_neg (fun h => hold.elim (fun hne => hne h.1) h.2), List.nil_append]

/-- A name that has a type, or gets one further right, is an error here. -/
theorem redeclared_cons_of_old {x : Spanned Token} {xs : List (Spanned Token)}
    (hold : types x.value.lexeme ≠ .untyped ∨ x.value.lexeme ∈ xs.map (·.value.lexeme)) :
    redeclared types type (x :: xs) =
      redeclared types type xs ++ [alreadyDeclared x
        (if x.value.lexeme ∈ xs.map (·.value.lexeme) ∧ types x.value.lexeme = .untyped then type
          else types x.value.lexeme)] := by
  rw [redeclared]
  by_cases huntyped : types x.value.lexeme = .untyped
  · have hagain := hold.resolve_left (not_not_intro huntyped)
    rw [if_neg (not_not_intro huntyped), if_pos hagain, if_pos ⟨hagain, huntyped⟩]
  · rw [if_pos huntyped, if_neg (fun h => huntyped h.2)]

/-- **Each occurrence of a name declares it or is an error.** -/
theorem length_redeclared (types : String → DataType) (type : DataType)
    (xs : List (Spanned Token)) :
    (redeclared types type xs).length + (newNames types (xs.map (·.value.lexeme))).length =
      xs.length := by
  induction xs with
  | nil => rfl
  | cons x xs ih =>
    rw [redeclared, List.map_cons, newNames, List.length_append, List.length_append,
      List.length_cons]
    by_cases hnew : types x.value.lexeme = .untyped
    · by_cases hmem : x.value.lexeme ∈ xs.map (·.value.lexeme)
      · rw [if_neg (not_not_intro hnew), if_pos hmem, if_neg (fun h => h.2 hmem)]
        simp only [List.length_singleton, List.length_nil]
        omega
      · rw [if_neg (not_not_intro hnew), if_neg hmem, if_pos ⟨hnew, hmem⟩]
        simp only [List.length_singleton, List.length_nil]
        omega
    · rw [if_pos hnew, if_neg (fun h => hnew h.1)]
      simp only [List.length_singleton, List.length_nil]
      omega

/-! ## Declaring names from the right -/

/-- **A registry in which names got a type**, as far as they had none. -/
def Registry.Typed (r r' : Registry) (names : List String) (type : DataType) : Prop :=
  ∀ lexeme, r'.get? lexeme = (r.get? lexeme).map fun t =>
    if lexeme ∈ names ∧ t.type = .untyped then { t with type := type } else t

/-- What is recorded when errors are reported: as many as there is room for. -/
def recording (before : Array Diagnostic) (found : List Diagnostic) : Array Diagnostic :=
  before ++ (found.take (Limits.semanticErrors - before.size)).toArray

/-- **The names of a list were declared**, from its end on. -/
structure ActionContext.Enrols (c : ActionContext) (xs : List (Spanned Token))
    (c' : ActionContext) : Prop where
  typed : c.session.registry.Typed c'.session.registry (xs.map (·.value.lexeme)) c.work.pendingType
  work_eq : c'.work =
    { c.work with
      pendingNames :=
        newNames c.session.registry.typeOf (xs.map (·.value.lexeme)) ++ c.work.pendingNames
      errorCount :=
        c.work.errorCount +
          (redeclared c.session.registry.typeOf c.work.pendingType xs).length
      diagnostics :=
        recording c.work.diagnostics
          (redeclared c.session.registry.typeOf c.work.pendingType xs) }

namespace Registry

variable {r r' r'' : Registry} {names : List String}

/-- No name got a type. -/
theorem Typed.nil (r : Registry) (type : DataType) : r.Typed r [] type := by
  intro lexeme
  cases r.get? lexeme <;> simp

/-- The types that names have got. -/
theorem Typed.typeOf_eq (h : r.Typed r' names type) {lexeme : String} (hknown : r.Knows lexeme) :
    r'.typeOf lexeme =
      if lexeme ∈ names ∧ r.typeOf lexeme = .untyped then type else r.typeOf lexeme := by
  obtain ⟨entry, hentry, -⟩ := hknown
  rw [typeOf, h lexeme, typeOf, hentry]
  simp only [Option.map_some]
  split <;> rfl

/-- Names stay names. -/
theorem Typed.knows (h : r.Typed r' names type) {lexeme : String} (hknown : r.Knows lexeme) :
    r'.Knows lexeme := by
  obtain ⟨entry, hentry, hkind⟩ := hknown
  refine ⟨_, by rw [h lexeme, hentry]; rfl, ?_⟩
  dsimp only
  split <;> exact hkind

/-- A name that has a type adds nothing. -/
theorem Typed.cons_of_typed (h : r.Typed r' names type) {x : String}
    (htyped : r.typeOf x ≠ .untyped ∨ x ∈ names) : r.Typed r' (x :: names) type := by
  intro lexeme
  rw [h lexeme]
  cases hentry : r.get? lexeme with
  | none => rfl
  | some t =>
    simp only [Option.map_some, List.mem_cons]
    by_cases heq : lexeme = x
    · subst heq
      rcases htyped with htyped | hmem
      · have hne : t.type ≠ .untyped := by rwa [typeOf, hentry] at htyped
        rw [if_neg (fun h => hne h.2), if_neg (fun h => hne h.2)]
      · simp only [hmem, or_true]
    · simp only [heq, false_or]

/-- A name without a type gets one. -/
theorem Typed.cons_of_new (h : r.Typed r' names type) {x : String}
    (hset : r'.setType x type = .ok r'') (hnew : r.typeOf x = .untyped) (hmem : x ∉ names) :
    r.Typed r'' (x :: names) type := by
  obtain ⟨t, ht, -, hget⟩ := setType_eq_ok hset
  intro lexeme
  rw [hget]
  by_cases heq : x = lexeme
  · subst heq
    rw [if_pos rfl]
    cases hentry : r.get? x with
    | none =>
      rw [h x, hentry] at ht
      cases ht
    | some u =>
      have huntyped : u.type = .untyped := by rwa [typeOf, hentry] at hnew
      rw [h x, hentry, Option.map_some, if_neg (fun h => hmem h.1)] at ht
      obtain rfl := Option.some.inj ht
      rw [Option.map_some, if_pos ⟨List.mem_cons_self, huntyped⟩]
  · rw [if_neg heq, h lexeme]
    simp only [List.mem_cons, Ne.symm heq, false_or]

end Registry

/-- One more error is recorded if there is room for it. -/
theorem recording_concat (before : Array Diagnostic) (found : List Diagnostic) (d : Diagnostic) :
    recording before (found ++ [d]) =
      if (recording before found).size < Limits.semanticErrors then
        (recording before found).push d
      else recording before found := by
  have hsize : (recording before found).size =
      before.size + min (Limits.semanticErrors - before.size) found.length := by
    simp [recording]
  rw [hsize]
  unfold recording
  by_cases hroom : found.length < Limits.semanticErrors - before.size
  · rw [if_pos (by omega), List.take_of_length_le (by simp; omega),
      List.take_of_length_le (by omega)]
    simp
  · by_cases hfull : Limits.semanticErrors ≤ before.size
    · rw [if_neg (by omega), Nat.sub_eq_zero_of_le hfull]
      rfl
    · rw [if_neg (by omega), List.take_append_of_le_length (by omega)]

namespace ActionContext

variable {c c' c'' : ActionContext} {x : Spanned Token} {xs : List (Spanned Token)}

/-- Nothing was declared. -/
theorem Enrols.nil (c : ActionContext) : c.Enrols [] c := by
  refine ⟨.nil _ _, ?_⟩
  simp [newNames, redeclared, recording]

/-- Notes do not matter. -/
theorem Enrols.note (h : c.Enrols xs c') (n : Note) : c.Enrols xs (c'.note n) :=
  ⟨h.typed, h.work_eq⟩

/-- **One more name is declared**, in front of those that were: it is an error if the name had a
type before, or if it stands among the others, and otherwise it is new. -/
theorem Enrols.cons (h : c.Enrols xs c') (hpending : c.work.pendingType ≠ .untyped)
    (hknown : c.session.registry.Knows x.value.lexeme) :
    ∃ c'', c'.declare x.value x.span.start = .ok c'' ∧ c.Enrols (x :: xs) c'' := by
  have htype := h.typed.typeOf_eq hknown
  have hpending' : c'.work.pendingType = c.work.pendingType := by rw [h.work_eq]
  obtain ⟨c'', hdeclare⟩ := exists_declare x.span.start (h.typed.knows hknown)
  refine ⟨c'', hdeclare, ?_⟩
  rcases declare_eq_ok hdeclare with ⟨htyped, rfl⟩ | ⟨huntyped, hnew⟩
  · -- the name has a type already: its own, or that of the declaration
    obtain ⟨journal, hreport⟩ := c'.report_eq .redeclaration
      ("Variable '" ++ x.value.lexeme ++ "' already declared as "
        ++ (c'.session.registry.typeOf x.value.lexeme).text) x.span.start x.value.lexeme
    have hmem : c.session.registry.typeOf x.value.lexeme ≠ .untyped ∨
        x.value.lexeme ∈ xs.map (·.value.lexeme) := by
      by_contra hneither
      rw [not_or, not_not] at hneither
      rw [htype, if_neg (fun h => hneither.2 h.1)] at htyped
      exact htyped hneither.1
    rw [hreport]
    refine ⟨h.typed.cons_of_typed hmem, ?_⟩
    rw [redeclared_cons_of_old hmem, ← htype, List.map_cons, newNames_cons_of_old hmem,
      recording_concat, List.length_append, List.length_singleton]
    simp only [h.work_eq]
    rfl
  · -- the name has no type, so it gets that of the declaration
    rw [hpending'] at hnew
    obtain ⟨-, hset⟩ := hnew.resolve_right fun hnone => hpending hnone.1
    obtain ⟨registry, hregistry, rfl⟩ := setPendingType_eq_ok hset
    rw [hpending'] at hregistry
    have hold : c.session.registry.typeOf x.value.lexeme = .untyped ∧
        x.value.lexeme ∉ xs.map (·.value.lexeme) := by
      rw [htype] at huntyped
      split at huntyped
      · exact absurd huntyped hpending
      · next hneither =>
        exact ⟨huntyped, fun hmem => hneither ⟨hmem, huntyped⟩⟩
    refine ⟨h.typed.cons_of_new hregistry hold.1 hold.2, ?_⟩
    rw [List.map_cons, newNames, if_pos hold, redeclared, if_neg (not_not_intro hold.1),
      if_neg hold.2, List.append_nil]
    simp only [h.work_eq]
    rfl

end ActionContext

/-! ## Reducing a list -/

/-- The last name of a list. -/
def lastNameRule : Rule := ⟨8, "L", ["id"]⟩

/-- A name in front of others. -/
def nameRule : Rule := ⟨7, "L", ["id", "vir", "L"]⟩

/-- A type, its names and the end of the declaration. -/
def declarationRule : Rule := ⟨6, "D", ["TIPO", "L", "pt_v"]⟩

/-- A name, and others behind commas. -/
def listTokens (first : Spanned Token) (more : List (Spanned Token × Spanned Token)) :
    List (Spanned Token) :=
  first :: more.flatMap fun other => [other.1, other.2]

/-- The names of a list. -/
def listNames (first : Spanned Token) (more : List (Spanned Token × Spanned Token)) :
    List (Spanned Token) :=
  first :: more.map Prod.snd

/-- **The reductions of a list**, from its end on. -/
def listOrders (more : Nat) (p : Position) : List Executor.Order :=
  .reduce lastNameRule p :: List.replicate more (.reduce nameRule p)

/-- The reduction of a name declares it. -/
theorem perform_name (rule : Rule) (hrule : rule.number = 7 ∨ rule.number = 8) (p : Position)
    {x : Spanned Token} (others : List (Spanned Token)) {c c' : ActionContext}
    (hdeclare : c.declare x.value x.span.start = .ok c') :
    Executor.perform mgolActions ⟨rule, x :: others, p⟩ c =
      (.ok (.ofNonterminal rule.left), c') := by
  have haction : mgolActions rule.number = some SemanticAction.declareIdentifier := by
    rcases hrule with h | h <;> rw [h] <;> rfl
  have hdeclared : SemanticAction.declareIdentifier ⟨rule, x :: others, p⟩ c =
      (.ok (.ofNonterminal rule.left), c') := by
    unfold SemanticAction.declareIdentifier Reduction.withToken
    simp only [Reduction.token, Reduction.positionOf, List.getElem?_cons_zero, hdeclare]
    rfl
  simp only [Executor.perform, haction, hdeclared]

/-- **A list is reduced** to one value, and its names are declared from the last one on. -/
theorem obeyAll_listOrders (values : Stack (Spanned Token)) {c₀ : ActionContext}
    (hpending : c₀.work.pendingType ≠ .untyped) (p : Position)
    (first : Spanned Token) (more : List (Spanned Token × Spanned Token))
    (hknown : ∀ x ∈ listNames first more, c₀.session.registry.Knows x.value.lexeme)
    (base : List (Spanned Token))
    (hroom : ((listTokens first more).reverse ++ base).length ≤ values.capacity) :
    ∃ v c, Executor.obeyAll (listOrders more.length p)
        (⟨mgolActions, values.withItems ((listTokens first more).reverse ++ base), c₀.work⟩,
          c₀.session) = .ok (⟨mgolActions, values.withItems (v :: base), c.work⟩, c.session) ∧
      c₀.Enrols (listNames first more) c := by
  induction more generalizing first base with
  | nil =>
    obtain ⟨c, hdeclare, henrols⟩ := (ActionContext.Enrols.nil c₀).cons hpending
      (hknown first List.mem_cons_self)
    have hperform := perform_name lastNameRule (.inr rfl) p [] hdeclare
    have hreduce := Executor.obey_reduce (show first :: base = [first].reverse ++ base from rfl) rfl
      (List.cons_ne_nil _ _) hroom hperform
    exact ⟨_, c.note (.actionRun 8 "L"), Executor.obeyAll_singleton hreduce, henrols.note _⟩
  | cons other more ih =>
    obtain ⟨comma, x⟩ := other
    have hitems : (listTokens first ((comma, x) :: more)).reverse ++ base =
        (listTokens x more).reverse ++ comma :: first :: base := by
      simp [listTokens]
    rw [hitems] at hroom ⊢
    obtain ⟨v, c, hrest, henrols⟩ := ih x (fun y hy => hknown y (List.mem_cons_of_mem first hy))
      (comma :: first :: base) hroom
    -- the name in front is declared after all the others
    obtain ⟨c', hdeclare, henrols'⟩ := henrols.cons hpending (hknown first List.mem_cons_self)
    have hperform := perform_name nameRule (.inl rfl) p [comma, v] hdeclare
    have horders : listOrders ((comma, x) :: more).length p =
        listOrders more.length p ++ [.reduce nameRule p] := by
      rw [listOrders, listOrders, List.length_cons, List.replicate_succ', List.cons_append]
    have hwithin : (v :: comma :: first :: base).length ≤ values.capacity := by
      simp only [listTokens, List.length_append, List.length_reverse, List.length_cons] at hroom ⊢
      omega
    have hreduce := Executor.obey_reduce
      (show v :: comma :: first :: base = [first, comma, v].reverse ++ base from rfl) rfl
      (List.cons_ne_nil _ _) hwithin hperform
    rw [horders]
    exact ⟨_, c'.note (.actionRun 7 "L"),
      Executor.obeyAll_append hrest (Executor.obeyAll_singleton hreduce), henrols'.note _⟩

/-! ## Whole declarations -/

/-- **What a parser orders for a declaration**: its type is shifted and reduced, then its names are
shifted from left to right and reduced from right to left, and the end of the declaration comes
last. -/
def declarationOrders (rule : Rule) (keyword first : Spanned Token)
    (more : List (Spanned Token × Spanned Token)) (semicolon : Spanned Token) (p q r : Position) :
    List Executor.Order :=
  [.shift keyword] ++ [.reduce rule p] ++ (listTokens first more).map .shift ++
    listOrders more.length q ++ [.shift semicolon] ++ [.reduce declarationRule r]

/-- The statement that declares names, if there are any. -/
def Target.CodeBuffer.declaring (code : CodeBuffer) (type : DataType) (names : List String) :
    CodeBuffer :=
  if names = [] then code else code.emit (.declare type names)

/-- A keyword that spells a type names one. -/
theorem keywordType_ne_untyped {word : Keyword}
    (hword : word.spelling ∈ ["inteiro", "real", "literal"]) :
    SemanticAction.keywordType (.keyword word) ≠ .untyped := by
  revert hword
  cases word <;> decide

/-- A type keyword has a rule of its own, and names a type. -/
theorem typeRule_spec {rule : Rule} (hrule : rule ∈ RuleSet.mgol.others)
    (hleft : rule.left = "TIPO") {word : Keyword} (hright : rule.right = [word.spelling]) :
    mgolActions rule.number = some SemanticAction.declaredType ∧
      SemanticAction.keywordType (.keyword word) ≠ .untyped := by
  have hrules : ∀ rule ∈ RuleSet.mgol.others, rule.left = "TIPO" →
      rule ∈ [⟨9, "TIPO", ["inteiro"]⟩, ⟨10, "TIPO", ["real"]⟩, ⟨11, "TIPO", ["literal"]⟩] := by
    decide
  have hmem := hrules rule hrule hleft
  simp only [List.mem_cons, List.not_mem_nil, or_false] at hmem
  rcases hmem with rfl | rfl | rfl
  all_goals
    refine ⟨rfl, keywordType_ne_untyped ?_⟩
    rw [← List.singleton_inj.mp hright]
    decide

/-- A list with `n` commas has a name more than commas. -/
theorem length_listTokens (first : Spanned Token) (more : List (Spanned Token × Spanned Token)) :
    (listTokens first more).length = 2 * more.length + 1 := by
  have hmore : (more.flatMap fun other => [other.1, other.2]).length = 2 * more.length := by
    induction more with
    | nil => rfl
    | cons other more ih =>
      rw [List.flatMap_cons, List.length_append, ih, List.length_cons, List.length_cons,
        List.length_cons, List.length_nil]
      omega
  rw [listTokens, List.length_cons, hmore]

/-- The reduction of a type begins a declaration. -/
theorem perform_type {rule : Rule}
    (hrule : mgolActions rule.number = some SemanticAction.declaredType)
    (p : Position) {keyword : Spanned Token} {word : Keyword}
    (hkeyword : keyword.value.kind = .keyword word) (c : ActionContext) :
    Executor.perform mgolActions ⟨rule, [keyword], p⟩ c =
      (.ok ⟨.nonterminal, keyword.value.lexeme, SemanticAction.keywordType (.keyword word)⟩,
        { c with work :=
            { c.work with pendingType := SemanticAction.keywordType (.keyword word) } }) := by
  rw [← hkeyword]
  simp only [Executor.perform, hrule]
  rfl

/-- The reduction of a declaration writes the names that it has declared. -/
theorem perform_declaration (p : Position) {typed list semicolon : Spanned Token}
    (htyped : typed.value.type ≠ .untyped) (c : ActionContext) :
    Executor.perform mgolActions ⟨declarationRule, [typed, list, semicolon], p⟩ c =
      (.ok (.ofNonterminal "D"),
        { c with work :=
            { c.work with
              code := c.work.code.declaring typed.value.type c.work.pendingNames
              pendingType := .untyped, pendingNames := [] } }) := by
  show SemanticAction.declaration _ c = _
  unfold SemanticAction.declaration Reduction.withToken CodeBuffer.declaring
  simp only [Reduction.token, List.getElem?_cons_zero, htyped, false_or, List.isEmpty_iff]
  split
  · rfl
  · rfl

/-- **A keyword becomes a type**, which is the one that is declared from then on. -/
theorem obeyAll_type (values : Stack (Spanned Token)) {rule : Rule}
    (hrule : mgolActions rule.number = some SemanticAction.declaredType) (harity : rule.arity = 1)
    (p : Position) {keyword : Spanned Token} {word : Keyword}
    (hkeyword : keyword.value.kind = .keyword word) (c : ActionContext)
    (base : List (Spanned Token)) (hroom : base.length < values.capacity) :
    ∃ typed : Spanned Token, typed.value.type = SemanticAction.keywordType (.keyword word) ∧
      Executor.obeyAll ([.shift keyword] ++ [.reduce rule p])
          (⟨mgolActions, values.withItems base, c.work⟩, c.session) =
        .ok (⟨mgolActions, values.withItems (typed :: base),
            { c.work with pendingType := SemanticAction.keywordType (.keyword word) }⟩,
          c.session.note (.actionRun rule.number keyword.value.lexeme)) :=
  ⟨_, rfl, Executor.obeyAll_append
    (Executor.obeyAll_singleton (Executor.obey_shift keyword hroom))
    (Executor.obeyAll_singleton (Executor.obey_reduce
      (show keyword :: base = [keyword].reverse ++ base from rfl) harity.symm
      (List.cons_ne_nil _ _) hroom (perform_type hrule p hkeyword c)))⟩

/-- **A declaration ends**: the names that were declared are written, and nothing is pending. -/
theorem obeyAll_end (values : Stack (Spanned Token)) (p : Position)
    {typed : Spanned Token} {type : DataType} (htyped : typed.value.type = type)
    (htype : type ≠ .untyped) (list semicolon : Spanned Token) (c : ActionContext)
    (base : List (Spanned Token)) (hroom : base.length + 3 ≤ values.capacity) :
    ∃ v, Executor.obeyAll ([.shift semicolon] ++ [.reduce declarationRule p])
        (⟨mgolActions, values.withItems (list :: typed :: base), c.work⟩, c.session) =
      .ok (⟨mgolActions, values.withItems (v :: base),
          { c.work with
            code := c.work.code.declaring type c.work.pendingNames
            pendingType := .untyped, pendingNames := [] }⟩,
        c.session.note (.actionRun declarationRule.number "D")) := by
  subst htyped
  exact ⟨_, Executor.obeyAll_append
    (Executor.obeyAll_singleton (Executor.obey_shift semicolon hroom))
    (Executor.obeyAll_singleton (Executor.obey_reduce
      (show semicolon :: list :: typed :: base = [typed, list, semicolon].reverse ++ base from rfl)
      rfl (List.cons_ne_nil _ _) hroom (perform_declaration p htype c)))⟩

/-- **Declaration lists of any length.** Take an executor with the actions of MGol and room for the
list, no names pending, and any list of names that the registry knows: some may have a type already,
and some may stand in the list more than once.

The orders of the declaration are obeyed. Of the names in the list, exactly those that had no type
get the type of the keyword, and no other entry of the registry changes. Every other occurrence is
reported as a redeclaration, from the end of the list on; together with the new names these are all
occurrences. The new names are declared in one line, each once, in the order of their last
occurrences in the list, and there is no line without them. Afterwards neither a type nor names are
pending, and one value stands on the stack for the declaration. -/
theorem declaration_list_declares (e : Executor) (session : Session)
    (hactions : e.actions = mgolActions) (hpending : e.work.pendingNames = []) (rule : Rule)
    (hrule : rule ∈ RuleSet.mgol.others) (hleft : rule.left = "TIPO") (word : Keyword)
    (hright : rule.right = [word.spelling]) (keyword : Spanned Token)
    (hkeyword : keyword.value.kind = .keyword word) (first : Spanned Token)
    (more : List (Spanned Token × Spanned Token)) (semicolon : Spanned Token)
    (hknown : ∀ x ∈ listNames first more, session.registry.Knows x.value.lexeme)
    (hroom : e.values.items.length + max 3 (2 * (more.length + 1)) ≤ e.values.capacity)
    (p q r : Position) :
    let type := SemanticAction.keywordType (.keyword word)
    let xs := listNames first more
    let names := xs.map (·.value.lexeme)
    let new := newNames session.registry.typeOf names
    let found := redeclared session.registry.typeOf type xs
    (∀ rule ∈ [lastNameRule, nameRule, declarationRule], rule ∈ RuleSet.mgol.others) ∧
    ∃ e' session' v,
      Executor.obeyAll (declarationOrders rule keyword first more semicolon p q r) (e, session) =
        .ok (e', session') ∧
      session.registry.Typed session'.registry names type ∧
      e'.work =
        { e.work with
          code := e.work.code.declaring type new
          pendingType := .untyped
          pendingNames := []
          errorCount := e.work.errorCount + found.length
          diagnostics := recording e.work.diagnostics found } ∧
      found.length + new.length = xs.length ∧
      new = (names.filter fun x => session.registry.typeOf x = .untyped).dedup ∧
      e'.values.items = v :: e.values.items := by
  intro type xs names new found
  refine ⟨by decide, ?_⟩
  obtain ⟨haction, htype⟩ := typeRule_spec hrule hleft hright
  obtain ⟨actions, values, work⟩ := e
  obtain rfl : actions = mgolActions := hactions
  have hvalues : values = values.withItems values.items := Stack.eq_of_items rfl rfl
  have hlength := length_listTokens first more
  have harity : rule.arity = 1 := by rw [Rule.arity, hright]; rfl
  simp only at hpending hroom
  let c₀ : ActionContext :=
    ⟨{ work with pendingType := type }, session.note (.actionRun rule.number keyword.value.lexeme)⟩
  obtain ⟨typed, htyped, htypeOrders⟩ :=
    obeyAll_type values haction harity p hkeyword ⟨work, session⟩ values.items (by omega)
  -- the names come onto the stack, and are declared one after the other
  have hlistShift : Executor.obeyAll ((listTokens first more).map .shift)
      (⟨mgolActions, values.withItems (typed :: values.items), c₀.work⟩, c₀.session) =
        .ok (⟨mgolActions,
          values.withItems ((listTokens first more).reverse ++ typed :: values.items), c₀.work⟩,
          c₀.session) :=
    Executor.obeyAll_shift _ (by rw [List.length_cons, hlength]; omega)
  have hlistRoom : ((listTokens first more).reverse ++ typed :: values.items).length ≤
      values.capacity := by
    rw [List.length_append, List.length_reverse, List.length_cons, hlength]
    omega
  have hbegun : c₀.work.pendingType ≠ .untyped := htype
  obtain ⟨list, c, hlistReduce, henrols⟩ :=
    obeyAll_listOrders values hbegun q first more hknown (typed :: values.items) hlistRoom
  obtain ⟨v, hendOrders⟩ :=
    obeyAll_end values r htyped htype list semicolon c values.items (by omega)
  have hall := Executor.obeyAll_append (Executor.obeyAll_append (Executor.obeyAll_append
    htypeOrders hlistShift) hlistReduce) hendOrders
  rw [← hvalues, ← List.append_assoc] at hall
  refine ⟨_, _, _, hall, henrols.typed, ?_, length_redeclared _ _ _, newNames_eq_dedup _ _, rfl⟩
  have hnames : c.work.pendingNames = new := by
    rw [henrols.work_eq]
    show new ++ work.pendingNames = new
    rw [hpending, List.append_nil]
  simp only [hnames]
  rw [henrols.work_eq]
  rfl

/-- A registry with two names, and a third one that was declared before. -/
def someNames : Registry :=
  ((Registry.reserved.put ⟨.identifier, "A", .untyped⟩).put ⟨.identifier, "B", .untyped⟩).put
    ⟨.identifier, "C", .real⟩

/-- A name where the source starts. -/
def nameAtStart (lexeme : String) : Spanned Token :=
  ⟨⟨.identifier, lexeme, .untyped⟩, .empty .start⟩

/-- In a list of four names, one stands twice and one has a type: two are declared, the one that
stands twice behind the other, and two errors are reported. -/
theorem declaration_list_declares_repeated :
    let comma : Spanned Token := ⟨⟨.comma, ",", .untyped⟩, .empty .start⟩
    ∃ e session,
      Executor.obeyAll
          (declarationOrders ⟨9, "TIPO", ["inteiro"]⟩ ⟨.ofKeyword .inteiro, .empty .start⟩
            (nameAtStart "A")
            [(comma, nameAtStart "B"), (comma, nameAtStart "A"), (comma, nameAtStart "C")]
            ⟨⟨.semicolon, ";", .untyped⟩, .empty .start⟩ .start .start .start)
          (.mgol 8, ⟨someNames, {}⟩) = .ok (e, session) ∧
        e.work.code.lines.toList = [⟨0, .statement (.declare .integer ["B", "A"])⟩] ∧
        e.work.errorCount = 2 ∧
        session.registry.typeOf "A" = .integer ∧ session.registry.typeOf "C" = .real := by
  intro comma
  have hknows : ∀ x ∈ listNames (nameAtStart "A") [(comma, nameAtStart "B"),
      (comma, nameAtStart "A"), (comma, nameAtStart "C")], someNames.Knows x.value.lexeme := by
    intro x hx
    have hentry : (someNames.get? x.value.lexeme).map Token.kind = some .identifier := by
      revert x
      decide +kernel
    obtain ⟨entry, hget, hkind⟩ := Option.map_eq_some_iff.mp hentry
    exact ⟨entry, hget, hkind⟩
  obtain ⟨-, e, session, v, hrun, htyped, hwork, -⟩ :=
    declaration_list_declares (.mgol 8) ⟨someNames, {}⟩ rfl rfl ⟨9, "TIPO", ["inteiro"]⟩ (by decide)
      rfl .inteiro rfl ⟨.ofKeyword .inteiro, .empty .start⟩ rfl (nameAtStart "A")
      [(comma, nameAtStart "B"), (comma, nameAtStart "A"), (comma, nameAtStart "C")]
      ⟨⟨.semicolon, ";", .untyped⟩, .empty .start⟩ hknows (by decide) .start .start .start
  refine ⟨e, session, hrun, ?_, ?_, ?_, ?_⟩
  · rw [hwork]
    decide +kernel
  · rw [hwork]
    decide +kernel
  · refine (htyped.typeOf_eq (hknows (nameAtStart "A") (by simp [listNames]))).trans ?_
    decide +kernel
  · refine (htyped.typeOf_eq (hknows (nameAtStart "C") (by simp [listNames]))).trans ?_
    decide +kernel

end Mgol
