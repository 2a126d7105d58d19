import Mgol.Proofs.Scanner.Scan
import Mgol.Proofs.Semantics.Parts

/-! # What an executor reports

An executor counts every error that its actions report, and records the first ones up to a limit.
Whatever it is asked to do, the record and the count stay in step, and no error is forgotten.

* **`ActionContext.Routine`, `SemanticAction.routine`** — what every report and every declaration
  keeps is kept by every action, on any values at all.
* **`SemanticState.Reports`** — the errors reported so far, recorded or not.
* **`Executor.Call`, `Executor.Reaches`** — what an executor can be asked to do, and what comes of
  it.
* **`Executor.Reaches.reports`** — the errors reported by any number of calls. -/

namespace Mgol

/-! ## What actions are made of -/

/-- **A relation that all parts of an action keep**: reports, declarations that succeed, and work
that touches neither the session nor the errors. -/
structure ActionContext.Routine (R : ActionContext → ActionContext → Prop) : Prop where
  trans : ∀ {c c' c''}, R c c' → R c' c'' → R c c''
  report : ∀ c code message p lexeme, R c (c.report code message p lexeme)
  declare : ∀ {c c' lexeme}, c.setPendingType lexeme = .ok c' → R c c'
  work : ∀ {c c' : ActionContext}, c'.session = c.session →
    c'.work.diagnostics = c.work.diagnostics → c'.work.errorCount = c.work.errorCount → R c c'

namespace ActionContext.Routine

variable {R : ActionContext → ActionContext → Prop}

/-- A context is kept as it is. -/
theorem refl (h : Routine R) (c : ActionContext) : R c c := h.work rfl rfl rfl

/-- **What actions are made of keeps the relation.** -/
theorem of_does (h : Routine R) {r : Reduction} {c c' : ActionContext} (hdoes : c.Does r c') :
    R c c' := by
  refine of_parts hdoes h.refl h.trans ?_
  intro c c' hpart
  cases hpart with
  | plain part =>
    cases part with
    | reported code message i lexeme => exact h.report c code message _ lexeme
    | written s => exact h.work rfl rfl rfl
    | reserved kind => exact h.work rfl rfl rfl
    | kept comparison => exact h.work rfl rfl rfl
  | typed set => exact h.declare set
  | pending type names => exact h.work rfl rfl rfl

end ActionContext.Routine

namespace SemanticAction

variable {R : ActionContext → ActionContext → Prop}

/-- **What reports and declarations keep, every action of MGol keeps**, whatever the reduction. -/
theorem routine (h : ActionContext.Routine R) {n : Nat} {action : SemanticAction}
    (haction : mgolActions n = some action) (r : Reduction) (c : ActionContext) :
    R c (action r c).2 := by
  by_cases hblock : n ∈ [25, 26, 33, 34]
  · obtain ⟨code, lastRelational, openLoops, heq⟩ := onBlocks_action haction hblock r c
    rw [heq]
    exact h.work rfl rfl rfl
  · exact h.of_does (does_action haction hblock r c)

end SemanticAction

/-! ## Reports -/

/-- **The errors reported so far**: all of them are counted, and the first ones are recorded. -/
structure SemanticState.Reports (w : SemanticState) (all : List Diagnostic) : Prop where
  counted : w.errorCount = all.length
  recorded : w.diagnostics.toList = all.take Limits.semanticErrors
  semantic : ∀ d ∈ all, d.kind = .semantic

/-- The record is as long as the count, up to the limit. -/
theorem SemanticState.Reports.size_eq {w : SemanticState} {all : List Diagnostic}
    (h : w.Reports all) : w.diagnostics.size = min w.errorCount Limits.semanticErrors := by
  rw [← Array.length_toList, h.recorded, List.length_take, h.counted, Nat.min_comm]

namespace ActionContext

/-- **A context with more errors reported.** -/
def Adds (c c' : ActionContext) (found : List Diagnostic) : Prop :=
  ∀ all, c.work.Reports all → c'.work.Reports (all ++ found)

/-- Nothing is added where the errors stay as they are. -/
theorem Adds.of_eq {c c' : ActionContext} (hdiagnostics : c'.work.diagnostics = c.work.diagnostics)
    (hcount : c'.work.errorCount = c.work.errorCount) : c.Adds c' [] := by
  intro all h
  rw [List.append_nil]
  exact ⟨hcount.trans h.counted, by rw [hdiagnostics, h.recorded], h.semantic⟩

/-- One error after the other. -/
theorem Adds.trans {c c' c'' : ActionContext} {found found' : List Diagnostic}
    (h : c.Adds c' found) (h' : c'.Adds c'' found') : c.Adds c'' (found ++ found') := by
  intro all hall
  rw [← List.append_assoc]
  exact h' _ (h _ hall)

/-- The diagnostic of an error of the program. -/
def fault (code : Code) (message : String) (p : Position) (lexeme : String) : Diagnostic :=
  { kind := .semantic, code, message, position := p, lexeme := some lexeme }

/-- **A report adds its error**: it is counted, and recorded below the limit. -/
theorem adds_report (c : ActionContext) (code : Code) (message : String) (p : Position)
    (lexeme : String) :
    c.Adds (c.report code message p lexeme) [fault code message p lexeme] := by
  intro all h
  have hsize := h.size_eq
  have hcounted := h.counted
  obtain ⟨journal, heq⟩ := c.report_eq code message p lexeme
  rw [heq]
  refine ⟨by rw [List.length_append, ← hcounted]; rfl, ?_, ?_⟩
  · by_cases hroom : c.work.diagnostics.size < Limits.semanticErrors
    · -- below the limit everything was recorded so far
      have hall : all.length < Limits.semanticErrors := by omega
      rw [if_pos hroom, Array.toList_push, h.recorded, List.take_of_length_le (by omega),
        List.take_of_length_le (by rw [List.length_append, List.length_singleton]; omega)]
      rfl
    · have hall : Limits.semanticErrors ≤ all.length := by omega
      rw [if_neg hroom, h.recorded, List.take_append_of_le_length hall]
  · intro d hd
    rcases List.mem_append.mp hd with hd | hd
    · exact h.semantic d hd
    · rw [List.mem_singleton.mp hd]
      rfl

/-- Whatever actions are made of adds errors to those reported. -/
theorem routine_adds : Routine fun c c' => ∃ found, c.Adds c' found where
  trans := fun ⟨found, h⟩ ⟨found', h'⟩ => ⟨found ++ found', h.trans h'⟩
  report c code message p lexeme := ⟨_, c.adds_report code message p lexeme⟩
  declare := by
    intro c c' lexeme hset
    obtain ⟨registry, -, rfl⟩ := setPendingType_eq_ok hset
    exact ⟨[], .of_eq rfl rfl⟩
  work := fun _ hdiagnostics hcount => ⟨[], .of_eq hdiagnostics hcount⟩

/-- Whatever actions are made of changes no word of the registry. -/
theorem routine_sameWords : Routine fun c c' => c.session.registry.SameWords c'.session.registry where
  trans := fun h h' lexeme => (h lexeme).trans (h' lexeme)
  report c code message p lexeme := by
    obtain ⟨journal, heq⟩ := c.report_eq code message p lexeme
    rw [heq]
    exact .refl _
  declare := by
    intro c c' lexeme hset
    obtain ⟨registry, hregistry, rfl⟩ := setPendingType_eq_ok hset
    exact Registry.sameWords_setType hregistry
  work := by
    intro c c' hsession _ _
    rw [hsession]
    exact .refl _

end ActionContext

/-! ## Calls -/

namespace Executor

/-- **What an executor can be asked to do.** -/
inductive Call where
  | shift (t : Spanned Token)
  | reduce (rule : Rule) (p : Position) (session : Session)
  | truncate (n : Nat)

/-- The executor that a call leaves, whether it succeeds or not. -/
def after (e : Executor) : Call → Executor
  | .shift t =>
    match e.shift t with
    | .ok e' => e'
    | .error _ => e
  | .reduce rule p session => (e.reduce rule p session).2.1
  | .truncate n => e.truncate n

/-- **The executor after one call after the other.** -/
def afterAll (e : Executor) (calls : List Call) : Executor := calls.foldl after e

/-- **An executor that some calls lead to.** -/
def Reaches (e e' : Executor) : Prop := ∃ calls : List Call, e' = e.afterAll calls

/-- No call is needed to stay. -/
theorem Reaches.refl (e : Executor) : e.Reaches e := ⟨[], rfl⟩

/-- One more call. -/
theorem Reaches.after {e e' : Executor} (h : e.Reaches e') (call : Call) :
    e.Reaches (e'.after call) := by
  obtain ⟨calls, rfl⟩ := h
  refine ⟨calls ++ [call], ?_⟩
  rw [afterAll, afterAll, List.foldl_append]
  rfl

/-- What an action keeps is kept by the reduction. -/
theorem routine_reduce {R : ActionContext → ActionContext → Prop} (h : ActionContext.Routine R)
    {e : Executor} (hactions : e.actions = mgolActions) (rule : Rule) (p : Position)
    (session : Session) :
    (e.reduce rule p session).2.1.actions = mgolActions ∧
      ∃ c, R ⟨e.work, session⟩ c ∧ (e.reduce rule p session).2.1.work = c.work ∧
        (e.reduce rule p session).2.2.registry = c.session.registry := by
  obtain ⟨actions, values, work⟩ := e
  obtain rfl : actions = mgolActions := hactions
  unfold reduce
  simp only
  split
  · exact ⟨rfl, _, h.refl _, rfl, rfl⟩
  · next taken values' _ =>
    -- with an action or without, the context it leaves is the one that the executor keeps
    have hperform : R ⟨work, session⟩ (perform mgolActions ⟨rule, taken, p⟩ ⟨work, session⟩).2 := by
      unfold perform
      split
      · next action haction => exact SemanticAction.routine h haction _ _
      · exact h.refl _
    generalize perform mgolActions ⟨rule, taken, p⟩ ⟨work, session⟩ = result at hperform ⊢
    obtain ⟨⟨e⟩ | ⟨v⟩, c⟩ := result
    · exact ⟨rfl, c, hperform, rfl, rfl⟩
    · unfold complete
      simp only
      split
      · exact ⟨rfl, c, hperform, rfl, rfl⟩
      · exact ⟨rfl, c, hperform, rfl, rfl⟩

/-- A call keeps the actions of MGol and adds errors to those reported. -/
theorem reports_after {e : Executor} (hactions : e.actions = mgolActions) {all : List Diagnostic}
    (h : e.work.Reports all) (call : Call) :
    (e.after call).actions = mgolActions ∧ ∃ found, (e.after call).work.Reports (all ++ found) := by
  cases call with
  | shift t =>
    rw [← List.append_nil all] at h
    simp only [after, shift]
    cases e.values.push t with
    | ok values => exact ⟨hactions, [], h⟩
    | error err => exact ⟨hactions, [], h⟩
  | reduce rule p session =>
    obtain ⟨hkept, c, ⟨found, hadds⟩, hwork, _⟩ :=
      routine_reduce ActionContext.routine_adds hactions rule p session
    refine ⟨hkept, found, ?_⟩
    rw [after, hwork]
    exact hadds all h
  | truncate n =>
    rw [← List.append_nil all] at h
    exact ⟨hactions, [], h⟩

/-- **Calls add errors to those reported**, however many they are. -/
theorem Reaches.reports {e e' : Executor} (h : e.Reaches e') (hactions : e.actions = mgolActions)
    {all : List Diagnostic} (hall : e.work.Reports all) :
    e'.actions = mgolActions ∧ ∃ found, e'.work.Reports (all ++ found) := by
  obtain ⟨calls, rfl⟩ := h
  induction calls generalizing e all with
  | nil => exact ⟨hactions, [], by rw [List.append_nil]; exact hall⟩
  | cons call calls ih =>
    obtain ⟨hkept, found, hfound⟩ := reports_after hactions hall call
    obtain ⟨hkept', found', hfound'⟩ := ih hkept hfound
    exact ⟨hkept', found ++ found', by rw [← List.append_assoc]; exact hfound'⟩

/-- At first nothing is reported. -/
theorem reports_mgol (capacity : Nat) : (mgol capacity).work.Reports [] :=
  ⟨rfl, rfl, by simp⟩

/-- **What an executor with the actions of MGol has reported.** -/
theorem Reaches.reports_of_mgol {capacity : Nat} {e : Executor} (h : (mgol capacity).Reaches e) :
    e.actions = mgolActions ∧ ∃ all, e.work.Reports all := by
  obtain ⟨hactions, all, hall⟩ := h.reports rfl (reports_mgol capacity)
  exact ⟨hactions, [] ++ all, hall⟩

/-- **Errors are never forgotten**: their count does not fall. -/
theorem Reaches.errorCount_le {e e' : Executor} (h : e.Reaches e')
    (hactions : e.actions = mgolActions) {all : List Diagnostic} (hall : e.work.Reports all) :
    e.errorCount ≤ e'.errorCount := by
  obtain ⟨_, found, hfound⟩ := h.reports hactions hall
  rw [errorCount, errorCount, hall.counted, hfound.counted, List.length_append]
  exact Nat.le_add_right _ _

/-- There is a program exactly if no error was reported. -/
theorem program?_isSome_iff (e : Executor) : e.program?.isSome = true ↔ e.errorCount = 0 := by
  unfold program? hasErrors
  by_cases hpos : 0 < e.errorCount
  · rw [if_pos (decide_eq_true hpos)]
    exact ⟨nofun, fun h => absurd h (Nat.ne_of_gt hpos)⟩
  · rw [if_neg (by rwa [decide_eq_true_eq])]
    exact ⟨fun _ => Nat.eq_zero_of_not_pos hpos, fun _ => rfl⟩

end Executor

end Mgol
