import Mgol.Proofs.Meaning.Phrase
import Mgol.Proofs.Semantics.Tally
import Mgol.Proofs.Typing.Faults

/-! # Surveys

What was read of a program, and what was found wrong with it on the way. Of the context of a
semantic action only the types of names, the type of the declaration in progress and the errors
matter for this, and all that an action does to them is done by looking names up, declaring names
and reporting.

* **`Survey`** — the words read so far, the types of names, and the faults found.
* **`ActionContext.Shows`** — a context that shows a survey: its errors are the faults.
* **`ActionContext.Shows.lookup`, `ActionContext.Shows.declare`, `ActionContext.Shows.operands`** —
  what actions are made of, on a context that shows a survey.
* **`Survey.declared_program`** — after its declarations a program has given its names their types,
  and found those that are declared again. -/

namespace Mgol

open Target Ast

/-- **A survey** of what was read of a program. -/
structure Survey where
  read : List Word
  types : String → DataType
  pendingType : DataType
  found : List Fault

namespace Survey

/-- The survey at the beginning of a program. -/
def blank : Survey := ⟨[], fun _ => .untyped, .untyped, []⟩

/-- The survey with more words read and more faults found. -/
def note (s : Survey) (words : List Word) (faults : List Fault) : Survey :=
  { s with read := s.read ++ words, found := s.found ++ faults }

@[simp] theorem note_nil (s : Survey) : s.note [] [] = s := by simp [note]

@[simp] theorem note_note (s : Survey) (words words' : List Word) (faults faults' : List Fault) :
    (s.note words faults).note words' faults' = s.note (words ++ words') (faults ++ faults') := by
  simp [note]

/-- More words without a fault. -/
theorem note_words (s : Survey) (words : List Word) :
    s.note words [] = { s with read := s.read ++ words } := by simp [note]

@[simp] theorem types_note (s : Survey) (words : List Word) (faults : List Fault) :
    (s.note words faults).types = s.types := rfl

@[simp] theorem pendingType_note (s : Survey) (words : List Word) (faults : List Fault) :
    (s.note words faults).pendingType = s.pendingType := rfl

@[simp] theorem read_note (s : Survey) (words : List Word) (faults : List Fault) :
    (s.note words faults).read = s.read ++ words := rfl

@[simp] theorem found_note (s : Survey) (words : List Word) (faults : List Fault) :
    (s.note words faults).found = s.found ++ faults := rfl

/-- The survey after a name was declared at a place: the name gets the type of the declaration,
unless it has one. -/
def enter (type : DataType) (s : Survey) (e : String × Nat) : Survey :=
  { s with
    types := fun x => if x = e.1 ∧ s.types x = .untyped then type else s.types x
    found := s.found ++ if s.types e.1 = .untyped then [] else [⟨.redeclaration, e.2, e.1⟩] }

/-- A name without a type gets that of the declaration. -/
theorem enter_of_new {s : Survey} {x : String} (h : s.types x = .untyped) (type : DataType)
    (i : Nat) :
    s.enter type (x, i) = { s with types := fun y => if y = x then type else s.types y } := by
  unfold enter
  congr 1
  · funext y
    by_cases hy : y = x
    · subst hy
      simp [h]
    · simp [hy]
  · simp [h]

/-- A name that has a type is found, and keeps it. -/
theorem enter_of_known {s : Survey} {x : String} (h : s.types x ≠ .untyped) (type : DataType)
    (i : Nat) : s.enter type (x, i) = s.note [] [⟨.redeclaration, i, x⟩] := by
  unfold enter note
  congr 1
  · simp
  · funext y
    by_cases hy : y = x
    · subst hy
      simp [h]
    · simp [hy]
  · simp [h]

/-- **The survey after a declaration.** -/
def declare (s : Survey) (d : Declaration) : Survey :=
  { (nameEntries (s.read.length + 1) d.names).foldl (enter d.type) s with
    read := s.read ++ d.words, pendingType := .untyped }

/-! ## Declarations -/

/-- What was read, and what is declared next, do not matter for names that are declared. -/
theorem foldl_enter_with (type : DataType) (es : List (String × Nat)) (s : Survey)
    (read : List Word) (pendingType : DataType) :
    es.foldl (enter type) { s with read := read, pendingType := pendingType } =
      { es.foldl (enter type) s with read := read, pendingType := pendingType } := by
  induction es generalizing s with
  | nil => rfl
  | cons e es ih => exact ih (enter type s e)

/-- Declaring names begins no declaration. -/
theorem pendingType_foldl_enter (type : DataType) (es : List (String × Nat)) (s : Survey) :
    (es.foldl (enter type) s).pendingType = s.pendingType := by
  induction es generalizing s with
  | nil => rfl
  | cons e es ih => exact ih (enter type s e)

/-- **What declaring names of one type does**: those without a type get it, and those that have a
type are found. -/
theorem foldl_enter {type : DataType} (htype : type ≠ .untyped) (es : List (String × Nat))
    {s : Survey} {seen : List String} (hseen : ∀ x, x ∈ seen ↔ s.types x ≠ .untyped) :
    (∀ x, (es.foldl (enter type) s).types x =
      if s.types x = .untyped then (if x ∈ es.map Prod.fst then type else .untyped)
      else s.types x) ∧
    (es.foldl (enter type) s).found = s.found ++ repeats seen es := by
  induction es generalizing s seen with
  | nil =>
    refine ⟨fun x => ?_, by simp [repeats]⟩
    by_cases hx : s.types x = .untyped <;> simp [hx]
  | cons e es ih =>
    obtain ⟨y, i⟩ := e
    by_cases hnew : s.types y = .untyped
    · -- a new name gets the type
      have hy : y ∉ seen := fun hmem => (hseen y).mp hmem hnew
      rw [List.foldl_cons, enter_of_new hnew, repeats, if_neg hy]
      have hseen' : ∀ x, x ∈ y :: seen ↔
          Survey.types { s with types := fun x => if x = y then type else s.types x } x ≠
            .untyped := by
        intro x
        by_cases hxy : x = y <;> simp [hxy, htype, hseen x]
      obtain ⟨htypes, hfound⟩ := ih hseen'
      refine ⟨fun x => ?_, hfound⟩
      rw [htypes x]
      by_cases hxy : x = y
      · subst hxy
        simp [hnew, htype]
      · simp only [List.map_cons, List.mem_cons, hxy, false_or, if_false]
    · -- a name with a type is found again
      have hy : y ∈ seen := (hseen y).mpr hnew
      rw [List.foldl_cons, enter_of_known hnew, repeats, if_pos hy, ← List.append_assoc]
      have hseen' : ∀ x, x ∈ y :: seen ↔
          (s.note [] [⟨.redeclaration, i, y⟩]).types x ≠ .untyped := by
        intro x
        rw [types_note, ← hseen x, List.mem_cons]
        exact ⟨fun hx => hx.elim (fun hxy => hxy ▸ hy) id, .inr⟩
      obtain ⟨htypes, hfound⟩ := ih hseen'
      refine ⟨fun x => ?_, hfound⟩
      rw [htypes x, types_note]
      by_cases hxy : x = y
      · subst hxy
        simp [hnew]
      · simp only [List.map_cons, List.mem_cons, hxy, false_or]

/-- The names with entries are the names. -/
theorem mem_nameEntries {i : Nat} {names : List Name} {x : String} :
    x ∈ (nameEntries i names).map Prod.fst ↔ x ∈ names.map Name.text := by
  rw [← List.count_pos_iff, count_nameEntries, List.count_pos_iff]

/-- Declarations are read. -/
theorem read_foldl_declare (declarations : List Declaration) (s : Survey) :
    (declarations.foldl declare s).read = s.read ++ declarations.flatMap Declaration.words := by
  induction declarations generalizing s with
  | nil => simp
  | cons d declarations ih =>
    rw [List.foldl_cons, ih, List.flatMap_cons, ← List.append_assoc]
    rfl

/-- **What declarations do**, whatever was declared before. -/
theorem foldl_declare (declarations : List Declaration) {s : Survey} {seen : List String}
    (hseen : ∀ x, x ∈ seen ↔ s.types x ≠ .untyped) :
    (∀ x, (declarations.foldl declare s).types x =
      if s.types x = .untyped then givenBy declarations x else s.types x) ∧
    (declarations.foldl declare s).found =
      s.found ++ repeats seen (entries s.read.length declarations) := by
  induction declarations generalizing s seen with
  | nil =>
    refine ⟨fun x => ?_, by simp [entries, repeats]⟩
    by_cases hx : s.types x = .untyped <;> simp [hx, givenBy]
  | cons d declarations ih =>
    let es := nameEntries (s.read.length + 1) d.names
    obtain ⟨htypes, hfound⟩ := foldl_enter d.typed es hseen
    have hdeclared : (s.declare d).types = (es.foldl (enter d.type) s).types := rfl
    have hseen' : ∀ x, x ∈ (es.map Prod.fst).reverse ++ seen ↔
        (s.declare d).types x ≠ .untyped := by
      intro x
      rw [hdeclared, htypes x, List.mem_append, List.mem_reverse, hseen x]
      by_cases hx : s.types x = .untyped
      · by_cases hmem : x ∈ es.map Prod.fst <;> simp [hx, hmem, d.typed]
      · simp [hx]
    obtain ⟨htypes', hfound'⟩ := ih hseen'
    rw [List.foldl_cons]
    refine ⟨fun x => ?_, ?_⟩
    · have hnames : x ∈ es.map Prod.fst ↔ x ∈ d.names.map Name.text := mem_nameEntries
      simp only [htypes' x, hdeclared, htypes x, givenBy_cons, hnames]
      by_cases hx : s.types x = .untyped
      · by_cases hmem : x ∈ d.names.map Name.text
        · simp only [hx, hmem, if_true, d.typed, if_false]
        · simp only [hx, hmem, if_true, if_false]
      · simp only [hx, if_false]
    · have hplace : (s.declare d).read.length = s.read.length + d.words.length := by
        simp [declare]
      rw [hfound', hplace, entries, repeats_append, ← List.append_assoc]
      exact congrArg (· ++ _) hfound

/-- **What the declarations of a program do**: names have the types that the program gives them, and
those that were declared before are found. -/
theorem declared_program (p : Program) (words : List Word) (hwords : words.length = 2) :
    let s := p.declarations.foldl declare (blank.note words [])
    s.types = p.given ∧ s.found = p.redeclarations ∧
      s.read = words ++ p.declarations.flatMap Declaration.words := by
  have hblank : ∀ x : String, x ∈ ([] : List String) ↔
      (blank.note words []).types x ≠ .untyped := by
    intro x
    simp [blank]
  obtain ⟨htypes, hfound⟩ := foldl_declare p.declarations hblank
  refine ⟨funext fun x => ?_, ?_, read_foldl_declare p.declarations _⟩
  · rw [htypes x]
    rfl
  · rw [hfound]
    simp [blank, hwords, Program.redeclarations]

end Survey

/-! ## Contexts that show a survey -/

/-- What a diagnostic says: its code, its place and its lexeme. -/
def Diagnostic.point (d : Diagnostic) : Code × Option Position × Option String :=
  (d.code, some d.position, d.lexeme)

/-- What a fault says, where words have their places. -/
def Ast.Fault.point (place : Nat → Option Position) (f : Fault) :
    Code × Option Position × Option String :=
  (f.code, place f.word, some f.about)

namespace ActionContext

variable {place : Nat → Option Position} {c c' : ActionContext} {s : Survey} {i : Nat}
  {p : Position}

/-- **A context that shows a survey**: names have their types, and the errors reported so far are
the faults that were found. -/
structure Shows (place : Nat → Option Position) (c : ActionContext) (s : Survey) : Prop where
  types_eq : c.session.registry.typeOf = s.types
  pending_eq : c.work.pendingType = s.pendingType
  reports : ∃ all, c.work.Reports all ∧
    all.map Diagnostic.point = s.found.map (Fault.point place)

namespace Shows

/-- A context with the same errors. -/
theorem change (h : c.Shows place s) {s' : Survey} (htypes : c'.session.registry.typeOf = s'.types)
    (hpending : c'.work.pendingType = s'.pendingType) (hfound : s'.found = s.found)
    (hdiagnostics : c'.work.diagnostics = c.work.diagnostics)
    (hcount : c'.work.errorCount = c.work.errorCount) : c'.Shows place s' := by
  obtain ⟨all, hall, hpoints⟩ := h.reports
  refine ⟨htypes, hpending, all, ?_, by rw [hpoints, hfound]⟩
  exact ⟨hcount.trans hall.counted, by rw [hdiagnostics, hall.recorded], hall.semantic⟩

/-- Work on the program does not show. -/
theorem work (h : c.Shows place s) (hregistry : c'.session.registry = c.session.registry)
    (hpending : c'.work.pendingType = c.work.pendingType)
    (hdiagnostics : c'.work.diagnostics = c.work.diagnostics)
    (hcount : c'.work.errorCount = c.work.errorCount) : c'.Shows place s :=
  h.change (by rw [hregistry, h.types_eq]) (hpending.trans h.pending_eq) rfl hdiagnostics hcount

/-- A statement that is written if there is a type does not show. -/
theorem emitTyped (h : c.Shows place s) (type : DataType) (statement : Statement) :
    (if type = .untyped then c else c.emit statement).Shows place s := by
  split
  · exact h
  · exact h.work rfl rfl rfl rfl

/-- The end of a loop does not show. -/
theorem leaveLoop (h : c.Shows place s) : (SemanticAction.leaveLoop c).Shows place s := by
  unfold SemanticAction.leaveLoop
  split
  · exact h
  · split
    · exact h.work rfl rfl rfl rfl
    · exact h.work rfl rfl rfl rfl

/-- **A report shows as a fault.** -/
theorem report (h : c.Shows place s) (hplace : place i = some p) (code : Code) (message : String)
    (lexeme : String) :
    (c.report code message p lexeme).Shows place (s.note [] [⟨code, i, lexeme⟩]) := by
  have hsame : (c.report code message p lexeme).session.registry = c.session.registry ∧
      (c.report code message p lexeme).work.pendingType = c.work.pendingType := by
    obtain ⟨journal, heq⟩ := c.report_eq code message p lexeme
    rw [heq]
    exact ⟨rfl, rfl⟩
  obtain ⟨all, hall, hpoints⟩ := h.reports
  refine ⟨by rw [hsame.1, h.types_eq]; rfl, by rw [hsame.2, h.pending_eq]; rfl, _,
    c.adds_report code message p lexeme all hall, ?_⟩
  rw [List.map_append, hpoints, Survey.found_note, List.map_append]
  simp [Diagnostic.point, Fault.point, fault, hplace]

/-- **A name that is looked up** has its type, and is a fault without one. -/
theorem lookup (h : c.Shows place s) (hplace : place i = some p) {id : Token} {type : DataType}
    (hlookup : c.lookup id p = (type, c')) :
    type = s.types id.lexeme ∧ c'.Shows place (s.note [] (undeclared s.types i id.lexeme)) := by
  have htype : c.session.registry.typeOf id.lexeme = s.types id.lexeme := by rw [h.types_eq]
  unfold ActionContext.lookup at hlookup
  simp only [htype] at hlookup
  unfold undeclared
  split at hlookup
  · next huntyped =>
    obtain ⟨rfl, rfl⟩ := Prod.mk.inj hlookup
    rw [if_pos huntyped]
    exact ⟨rfl, h.report hplace _ _ _⟩
  · next htyped =>
    obtain ⟨rfl, rfl⟩ := Prod.mk.inj hlookup
    rw [if_neg htyped, Survey.note_nil]
    exact ⟨rfl, h⟩

/-- **A name that is declared** gets the type of the declaration, or is found again. -/
theorem declare (h : c.Shows place s) (hplace : place i = some p) {id : Token}
    (hdeclare : c.declare id p = .ok c') :
    c'.Shows place (s.enter s.pendingType (id.lexeme, i)) := by
  have htype : c.session.registry.typeOf id.lexeme = s.types id.lexeme := by rw [h.types_eq]
  rcases ActionContext.declare_eq_ok hdeclare with
    ⟨hknown, rfl⟩ | ⟨hnew, ⟨-, hset⟩ | ⟨hpending, rfl⟩⟩
  · rw [htype] at hknown ⊢
    rw [Survey.enter_of_known hknown]
    exact h.report hplace _ _ _
  · rw [htype] at hnew
    rw [Survey.enter_of_new hnew]
    obtain ⟨registry, hregistry, rfl⟩ := ActionContext.setPendingType_eq_ok hset
    obtain ⟨t, _, _, hget⟩ := Registry.setType_eq_ok hregistry
    refine h.change (funext fun x => ?_) h.pending_eq rfl rfl rfl
    simp only [Registry.typeOf, hget]
    by_cases heq : id.lexeme = x
    · rw [if_pos heq, if_pos heq.symm]
      exact h.pending_eq
    · rw [if_neg heq, if_neg (Ne.symm heq)]
      exact congrFun h.types_eq x
  · -- without a type to give, the name stays without one
    rw [htype] at hnew
    rw [Survey.enter_of_new hnew]
    refine h.change (funext fun x => ?_) h.pending_eq rfl rfl rfl
    show c'.session.registry.typeOf x = if x = id.lexeme then s.pendingType else s.types x
    rw [h.types_eq]
    by_cases hx : x = id.lexeme
    · rw [if_pos hx, hx, hnew, ← h.pending_eq, hpending]
    · rw [if_neg hx]

/-- **Two operands**: without one type in common there is no value, and a mismatch of their types is
a fault; otherwise the operation goes on. -/
theorem operands (h : c.Shows place s) {rule : Rule} {at_ : Position} {v₀ v₁ v₂ : Spanned Token}
    (hplace : place i = some v₀.span.start)
    {next : Token → Token → Token → ActionContext → ActionResult} {v : Token}
    (hperform : SemanticAction.withOperands ⟨rule, [v₀, v₁, v₂], at_⟩ c next = (.ok v, c')) :
    ((v₀.value.type = .untyped ∨ v₀.value.type ≠ v₂.value.type) ∧ v.type = .untyped ∧
        c'.Shows place
          (s.note [] (mismatch i v₀.value.type v₂.value.type v₁.value.lexeme))) ∨
      (v₀.value.type ≠ .untyped ∧ v₀.value.type = v₂.value.type ∧
        next v₀.value v₁.value v₂.value c = (.ok v, c')) := by
  unfold SemanticAction.withOperands at hperform
  rw [SemanticAction.withToken_zero, SemanticAction.withToken_one, SemanticAction.withToken_two]
    at hperform
  unfold mismatch
  split at hperform
  · next huntyped =>
    obtain ⟨hv, rfl⟩ := Prod.mk.inj hperform
    obtain rfl := Except.ok.inj hv
    have hsilent : ¬(v₀.value.type ≠ .untyped ∧ v₂.value.type ≠ .untyped ∧
        v₀.value.type ≠ v₂.value.type) := by
      rintro ⟨hleft, hright, _⟩
      exact huntyped.elim hleft hright
    rw [if_neg hsilent, Survey.note_nil]
    refine .inl ⟨?_, rfl, h⟩
    by_cases hleft : v₀.value.type = .untyped
    · exact .inl hleft
    · exact .inr fun heq => huntyped.elim hleft (fun hright => hleft (heq.trans hright))
  · next htyped =>
    obtain ⟨hleft, hright⟩ := not_or.mp htyped
    split at hperform
    · next hdiffer =>
      obtain ⟨hv, rfl⟩ := Prod.mk.inj hperform
      obtain rfl := Except.ok.inj hv
      rw [if_pos ⟨hleft, hright, hdiffer⟩]
      exact .inl ⟨.inr hdiffer, rfl, h.report hplace _ _ _⟩
    · next hsame => exact .inr ⟨hleft, not_not.mp hsame, hperform⟩

end Shows

end ActionContext

end Mgol
