import Mgol.Proofs.Scanner.Reference
import Mgol.Proofs.Semantics.Parts

/-! # Where names get their types

A name gets a type when it is reduced in a declaration, and only if it has none. No other action
touches the registry, and the type of the declaration in progress changes at its keyword and at its
end alone.

* **`Registry.Grows`** — entries stay in their classes, and types stay once they are given.
* **`Registry.Enters`** — new names have no types.
* **`Registry.Reserves`** — the reserved words are there, without types.
* **`ActionContext.Steady`** — neither the registry nor the pending type changes.
* **`Reduction.Typing`, `typing_of_perform`** — what a reduction does to types. -/

namespace Mgol

/-! ## Registries that grow -/

namespace Registry

variable {r r' r'' : Registry}

/-- **A registry that has grown**: every entry is there in its class, with the type it had. One
without a type may have got one. -/
def Grows (r r' : Registry) : Prop :=
  ∀ lexeme t, r.get? lexeme = some t →
    ∃ type, r'.get? lexeme = some { t with type := type } ∧ (t.type ≠ .untyped → type = t.type)

/-- What stays as it is has grown. -/
theorem Extends.grows (h : r.Extends r') : r.Grows r' :=
  fun lexeme t ht => ⟨t.type, h lexeme t ht, fun _ => rfl⟩

/-- A registry grows twice. -/
theorem Grows.trans (h : r.Grows r') (h' : r'.Grows r'') : r.Grows r'' := by
  intro lexeme t ht
  obtain ⟨type, hget, htype⟩ := h lexeme t ht
  obtain ⟨type', hget', htype'⟩ := h' lexeme _ hget
  refine ⟨type', hget', fun htyped => ?_⟩
  have hsame := htype htyped
  rw [htype' (by simpa only [hsame] using htyped), hsame]

/-- **Names were entered without types**; what was there stays. -/
structure Enters (r r' : Registry) : Prop where
  kept : r.Extends r'
  types_eq : r'.typeOf = r.typeOf

/-- Nothing was entered. -/
theorem Enters.refl (r : Registry) : r.Enters r := ⟨fun _ _ h => h, rfl⟩

/-- Names are entered twice. -/
theorem Enters.trans (h : r.Enters r') (h' : r'.Enters r'') : r.Enters r'' :=
  ⟨fun lexeme t ht => h'.kept lexeme t (h.kept lexeme t ht), h'.types_eq.trans h.types_eq⟩

/-- A type that is set where there was none lets the registry grow. -/
theorem grows_setType {lexeme : String} {type : DataType} (h : r.setType lexeme type = .ok r')
    (hnew : r.typeOf lexeme = .untyped) : r.Grows r' := by
  obtain ⟨t, ht, _, hget⟩ := setType_eq_ok h
  intro other u hu
  rw [hget]
  by_cases heq : lexeme = other
  · subst heq
    obtain rfl := Option.some.inj (ht.symm.trans hu)
    have huntyped : t.type = .untyped := by rwa [typeOf, ht] at hnew
    exact ⟨type, if_pos rfl, fun htyped => absurd huntyped htyped⟩
  · exact ⟨u.type, by rw [if_neg heq, hu], fun _ => rfl⟩

/-- Setting a type changes that of one lexeme. -/
theorem typeOf_setType {lexeme : String} {type : DataType} (h : r.setType lexeme type = .ok r')
    (other : String) :
    r'.typeOf other = if lexeme = other then type else r.typeOf other := by
  obtain ⟨t, _, _, hget⟩ := setType_eq_ok h
  unfold typeOf
  rw [hget]
  by_cases heq : lexeme = other
  · rw [if_pos heq, if_pos heq]
  · rw [if_neg heq, if_neg heq]

/-- **The reserved words are there**, each under its spelling and without a type. -/
def Reserves (r : Registry) : Prop :=
  ∀ word : Keyword, r.get? word.spelling = some (.ofKeyword word)

/-- The reserved words are there at first. -/
theorem reserves_reserved : reserved.Reserves := by
  intro word
  rw [holds_reserved]
  cases word <;> decide

/-- The reserved words stay while entries stay. -/
theorem Reserves.of_extends (h : r.Reserves) (he : r.Extends r') : r'.Reserves :=
  fun word => he _ _ (h word)

/-- No reserved word gets a type. -/
theorem Reserves.setType (h : r.Reserves) {lexeme : String} {type : DataType}
    (hset : r.setType lexeme type = .ok r') : r'.Reserves := by
  obtain ⟨t, ht, hkind, hget⟩ := setType_eq_ok hset
  intro word
  have hother : lexeme ≠ word.spelling := by
    rintro rfl
    obtain rfl := Option.some.inj ((h word).symm.trans ht)
    exact hkind word rfl
  rw [hget, if_neg hother]
  exact h word

end Registry

/-! ## Actions that leave types alone -/

namespace ActionContext

variable {c c' c'' : ActionContext}

/-- **A steady context**: neither the registry nor the pending type changes. -/
structure Steady (c c' : ActionContext) : Prop where
  registry_eq : c'.session.registry = c.session.registry
  pending_eq : c'.work.pendingType = c.work.pendingType

/-- What stays as it is is steady. -/
theorem Steady.refl (c : ActionContext) : c.Steady c := ⟨rfl, rfl⟩

/-- What is steady twice is steady. -/
theorem Steady.trans (h : c.Steady c') (h' : c'.Steady c'') : c.Steady c'' :=
  ⟨h'.registry_eq.trans h.registry_eq, h'.pending_eq.trans h.pending_eq⟩

/-- A report touches no type. -/
theorem steady_report (c : ActionContext) (code : Code) (message : String) (p : Position)
    (lexeme : String) : c.Steady (c.report code message p lexeme) := by
  obtain ⟨journal, heq⟩ := c.report_eq code message p lexeme
  rw [heq]
  exact ⟨rfl, rfl⟩

/-- Parts of any action touch no type. -/
theorem Plain.steady {r : Reduction} (h : Plain r c c') : c.Steady c' := by
  cases h with
  | reported code message i lexeme => exact c.steady_report _ _ _ _
  | written s => exact ⟨rfl, rfl⟩
  | reserved kind => exact ⟨rfl, rfl⟩
  | kept comparison => exact ⟨rfl, rfl⟩

end ActionContext

namespace SemanticAction

open ActionContext

/-- **Actions outside declarations leave types alone.** -/
theorem steady_action {n : Nat} {action : SemanticAction} (haction : mgolActions n = some action)
    (hn : n ∉ [6, 7, 8, 9, 10, 11]) (r : Reduction) (c : ActionContext) :
    c.Steady (action r c).2 := by
  by_cases hblock : n ∈ [25, 26, 33, 34]
  · obtain ⟨code, lastRelational, openLoops, heq⟩ := onBlocks_action haction hblock r c
    rw [heq]
    exact ⟨rfl, rfl⟩
  · exact of_parts (computes_action haction hn hblock r c) Steady.refl Steady.trans Plain.steady

end SemanticAction

/-! ## Declarations -/

/-- **What a reduction does to types.** A name without a type gets the pending one; a keyword makes
its type the pending one, and the end of the declaration makes an end of that. -/
inductive Reduction.Typing (r : Reduction) (c : ActionContext) (v : Token) (c' : ActionContext) :
    Prop
  | steady (other : r.rule.number ∉ [6, 9, 10, 11]) (same : c.Steady c')
  | named {id : Spanned Token} (number : r.rule.number = 7 ∨ r.rule.number = 8)
      (first : r.values[0]? = some id)
      (new : c.session.registry.typeOf id.value.lexeme = .untyped)
      (set : c.session.registry.setType id.value.lexeme c.work.pendingType =
        .ok c'.session.registry)
      (pending_eq : c'.work.pendingType = c.work.pendingType)
  | begun {keyword : Spanned Token} (number : r.rule.number ∈ [9, 10, 11])
      (first : r.values[0]? = some keyword)
      (value : v = ⟨.nonterminal, keyword.value.lexeme,
        SemanticAction.keywordType keyword.value.kind⟩)
      (registry_eq : c'.session.registry = c.session.registry)
      (pending_eq : c'.work.pendingType = v.type)
  | ended (number : r.rule.number = 6) (registry_eq : c'.session.registry = c.session.registry)

open SemanticAction

/-- A name in a declaration gets the pending type, unless it has one or there is none. -/
theorem typing_of_declareIdentifier {r : Reduction} {c c' : ActionContext} {v : Token}
    (hnumber : r.rule.number = 7 ∨ r.rule.number = 8)
    (h : declareIdentifier r c = (.ok v, c')) : r.Typing c v c' := by
  have hother : r.rule.number ∉ [6, 9, 10, 11] := by
    rcases hnumber with hnumber | hnumber <;> rw [hnumber] <;> decide
  obtain ⟨id, hfirst, hnext⟩ := Reduction.withToken_eq_ok h
  split at hnext
  · cases hnext
  · next c₁ hdeclare =>
    obtain ⟨-, rfl⟩ := Prod.mk.inj hnext
    rcases ActionContext.declare_eq_ok hdeclare with ⟨-, rfl⟩ | ⟨hnew, ⟨-, htyped⟩ | ⟨-, rfl⟩⟩
    · exact .steady hother (c.steady_report _ _ _ _)
    · obtain ⟨registry, hset, rfl⟩ := ActionContext.setPendingType_eq_ok htyped
      exact .named hnumber hfirst hnew hset rfl
    · exact .steady hother (.refl c₁)

/-- A type keyword makes its type the pending one. -/
theorem typing_of_declaredType {r : Reduction} {c c' : ActionContext} {v : Token}
    (hnumber : r.rule.number ∈ [9, 10, 11]) (h : declaredType r c = (.ok v, c')) :
    r.Typing c v c' := by
  obtain ⟨keyword, hfirst, hnext⟩ := Reduction.withToken_eq_ok h
  obtain ⟨hv, rfl⟩ := Prod.mk.inj hnext
  obtain rfl := Except.ok.inj hv
  exact .begun hnumber hfirst rfl rfl rfl

/-- **What the actions of MGol do to types.** -/
theorem typing_of_perform {r : Reduction} {c c' : ActionContext} {v : Token}
    (h : Executor.perform mgolActions r c = (.ok v, c')) : r.Typing c v c' := by
  unfold Executor.perform at h
  by_cases hn : r.rule.number ∈ [6, 7, 8, 9, 10, 11]
  · simp only [List.mem_cons, List.not_mem_nil, or_false] at hn
    rcases hn with hn | hn | hn | hn | hn | hn
    all_goals
      rw [hn] at h
      dsimp only [mgolActions] at h
    · obtain ⟨declared, _, hnext⟩ := Reduction.withToken_eq_ok h
      obtain ⟨-, rfl⟩ := Prod.mk.inj hnext
      refine .ended hn ?_
      split
      · rfl
      · rfl
    · exact typing_of_declareIdentifier (.inl hn) h
    · exact typing_of_declareIdentifier (.inr hn) h
    · exact typing_of_declaredType (by rw [hn]; decide) h
    · exact typing_of_declaredType (by rw [hn]; decide) h
    · exact typing_of_declaredType (by rw [hn]; decide) h
  · have hother : r.rule.number ∉ [6, 9, 10, 11] := fun hmem => hn (by
      revert hmem
      simp only [List.mem_cons, List.not_mem_nil, or_false]
      omega)
    cases haction : mgolActions r.rule.number with
    | none =>
      rw [haction] at h
      obtain ⟨-, rfl⟩ := Prod.mk.inj h
      exact .steady hother (.refl c)
    | some action =>
      rw [haction] at h
      have hsteady := steady_action haction hn r c
      simp only at h
      rw [h] at hsteady
      exact .steady hother hsteady

namespace Reduction.Typing

variable {r : Reduction} {c c' : ActionContext} {v : Token}

/-- The registry stays as it is, or one name gets the pending type. -/
theorem registry_cases (h : r.Typing c v c') :
    c'.session.registry = c.session.registry ∨
      ∃ id, (r.rule.number = 7 ∨ r.rule.number = 8) ∧ r.values[0]? = some id ∧
        c.session.registry.typeOf id.value.lexeme = .untyped ∧
        c.session.registry.setType id.value.lexeme c.work.pendingType =
          .ok c'.session.registry := by
  cases h with
  | steady other same => exact .inl same.registry_eq
  | named number first new set => exact .inr ⟨_, number, first, new, set⟩
  | begun number first value registry_eq => exact .inl registry_eq
  | ended number registry_eq => exact .inl registry_eq

/-- The words of the registry stay. -/
theorem sameWords (h : r.Typing c v c') :
    c.session.registry.SameWords c'.session.registry := by
  rcases h.registry_cases with heq | ⟨id, _, _, _, hset⟩
  · rw [heq]
    exact .refl _
  · exact Registry.sameWords_setType hset

/-- The registry grows. -/
theorem grows (h : r.Typing c v c') : c.session.registry.Grows c'.session.registry := by
  rcases h.registry_cases with heq | ⟨id, _, _, hnew, hset⟩
  · rw [heq]
    exact (Registry.Enters.refl _).kept.grows
  · exact Registry.grows_setType hset hnew

/-- The reserved words stay. -/
theorem reserves (h : r.Typing c v c') (hc : c.session.registry.Reserves) :
    c'.session.registry.Reserves := by
  rcases h.registry_cases with heq | ⟨id, _, _, _, hset⟩
  · rw [heq]
    exact hc
  · exact hc.setType hset

/-- **A type changes only for a name that is reduced in a declaration.** -/
theorem types (h : r.Typing c v c') (lexeme : String) :
    c'.session.registry.typeOf lexeme = c.session.registry.typeOf lexeme ∨
      ∃ id, (r.rule.number = 7 ∨ r.rule.number = 8) ∧ r.values[0]? = some id ∧
        id.value.lexeme = lexeme ∧ c.session.registry.typeOf lexeme = .untyped ∧
        c'.session.registry.typeOf lexeme = c.work.pendingType := by
  rcases h.registry_cases with heq | ⟨id, hnumber, hfirst, hnew, hset⟩
  · rw [heq]
    exact .inl rfl
  · have htype := Registry.typeOf_setType hset lexeme
    by_cases hname : id.value.lexeme = lexeme
    · rw [if_pos hname] at htype
      exact .inr ⟨id, hnumber, hfirst, hname, hname ▸ hnew, htype⟩
    · rw [if_neg hname] at htype
      exact .inl htype

end Reduction.Typing

end Mgol
