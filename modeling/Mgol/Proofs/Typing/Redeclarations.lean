import Mgol.Proofs.Typing.Parse

/-! # Where redeclarations are reported

Declarations are reduced in the order of the source, but the names of one list from its end on. So a
name counts as declared before if it stands in an earlier list, or further right in its own: of a
list that names a new name twice, the last occurrence is the one that is taken, and the first one is
reported.

* **`Ast.Occurrence`, `Ast.Program.occurrences`** — the names of the declarations in the order of
  the source.
* **`Ast.Occurrence.Before`, `Ast.mem_repeats_iff`** — the order in which they are declared, and
  what is declared again in it.
* **`Ast.Program.bringsOnce_iff`** — when all of that stands behind an occurrence of its name.
* **`startOf_lt_startOf`** — words begin one behind the other.
* **`redeclarations_reported`** — where a parse reports redeclarations, and when each of them has an
  occurrence of its name in front of it. -/

namespace Mgol

open Ast

namespace Ast

/-! ## Occurrences -/

/-- **A name in a declaration**: the number of its list, and that of its word in the program. -/
@[ext]
structure Occurrence where
  list : Nat
  word : Nat
  name : String
  deriving DecidableEq

/-- The names of a list whose words begin at word `i`. -/
def nameOccurrences (list : Nat) : Nat → List Name → List Occurrence
  | _, [] => []
  | i, x :: rest => ⟨list, i, x.text⟩ :: nameOccurrences list (i + 2) rest

/-- The names of declarations whose words begin at word `i`, where `list` lists stand before. -/
def occurrences : Nat → Nat → List Declaration → List Occurrence
  | _, _, [] => []
  | list, i, d :: rest =>
    nameOccurrences list (i + 1) d.names ++ occurrences (list + 1) (i + d.words.length) rest

/-- **The names that a program declares**, in the order of the source. -/
def Program.occurrences (p : Program) : List Occurrence := Ast.occurrences 0 2 p.declarations

namespace Occurrence

/-- **An occurrence is reduced before another one**: its list ends first, or it stands further right
in the same list. -/
def Before (o o' : Occurrence) : Prop := o.list < o'.list ∨ o.list = o'.list ∧ o'.word < o.word

instance (o o' : Occurrence) : Decidable (o.Before o') :=
  inferInstanceAs (Decidable (o.list < o'.list ∨ o.list = o'.list ∧ o'.word < o.word))

/-- The fault that a name is declared again. -/
def fault (o : Occurrence) : Fault := ⟨.redeclaration, o.word, o.name⟩

end Occurrence

/-- **A name is declared again** by an occurrence of a program. -/
def Program.Redeclares (p : Program) (o : Occurrence) : Prop :=
  ∃ o' ∈ p.occurrences, o'.name = o.name ∧ o'.Before o

instance (p : Program) (o : Occurrence) : Decidable (p.Redeclares o) :=
  inferInstanceAs (Decidable (∃ o' ∈ p.occurrences, o'.name = o.name ∧ o'.Before o))

/-- **No list brings a new name twice**: where two occurrences of a name are in one list, an earlier
list has the name as well. -/
def Program.BringsOnce (p : Program) : Prop :=
  ∀ o ∈ p.occurrences, ∀ o' ∈ p.occurrences, o'.name = o.name → o'.list = o.list →
    o.word < o'.word → ∃ earlier ∈ p.occurrences, earlier.name = o.name ∧ earlier.list < o.list

instance (p : Program) : Decidable p.BringsOnce :=
  inferInstanceAs (Decidable (∀ o ∈ p.occurrences, ∀ o' ∈ p.occurrences, o'.name = o.name →
    o'.list = o.list → o.word < o'.word →
      ∃ earlier ∈ p.occurrences, earlier.name = o.name ∧ earlier.list < o.list))

/-! ## The order of the source -/

/-- The occurrences in a list are those of its names. -/
theorem map_name_nameOccurrences (list i : Nat) (names : List Name) :
    (nameOccurrences list i names).map Occurrence.name = names.map Name.text := by
  induction names generalizing i with
  | nil => rfl
  | cons x names ih => rw [nameOccurrences, List.map_cons, List.map_cons, ih]

/-- The occurrences in declarations are those of their names. -/
theorem map_name_occurrences (list i : Nat) (declarations : List Declaration) :
    (occurrences list i declarations).map Occurrence.name =
      declarations.flatMap fun d => d.names.map Name.text := by
  induction declarations generalizing list i with
  | nil => rfl
  | cons d declarations ih =>
    rw [occurrences, List.map_append, map_name_nameOccurrences, ih, List.flatMap_cons]

/-- A name of a list stands at its word. -/
theorem word_of_mem_nameOccurrences {list i : Nat} {names : List Name} {o : Occurrence}
    (h : o ∈ nameOccurrences list i names) :
    o.list = list ∧ ∃ k, o.word = i + k ∧ (nameWords names)[k]? = some (.identifier, o.name) := by
  induction names generalizing i with
  | nil => cases h
  | cons x names ih =>
    rcases List.mem_cons.mp h with rfl | h
    · refine ⟨rfl, 0, rfl, ?_⟩
      cases names <;> rfl
    · obtain ⟨hlist, k, hword, hname⟩ := ih h
      refine ⟨hlist, k + 2, by omega, ?_⟩
      cases names with
      | nil => cases h
      | cons y names => exact hname

/-- The names of a list stand one behind the other. -/
theorem ordered_nameOccurrences (list i : Nat) (names : List Name) :
    (nameOccurrences list i names).Pairwise fun o o' => o.word < o'.word := by
  induction names generalizing i with
  | nil => exact .nil
  | cons x names ih =>
    refine List.pairwise_cons.mpr ⟨fun o ho => ?_, ih (i + 2)⟩
    obtain ⟨-, k, hword, -⟩ := word_of_mem_nameOccurrences ho
    simp only [hword]
    omega

/-- A name of declarations stands at its word, in one of their lists. -/
theorem word_of_mem_occurrences {list i : Nat} {declarations : List Declaration} {o : Occurrence}
    (h : o ∈ occurrences list i declarations) :
    list ≤ o.list ∧ ∃ k, o.word = i + k ∧
      (declarations.flatMap Declaration.words)[k]? = some (.identifier, o.name) := by
  induction declarations generalizing list i with
  | nil => cases h
  | cons d declarations ih =>
    rw [List.flatMap_cons]
    rcases List.mem_append.mp h with h | h
    · obtain ⟨hlist, k, hword, hname⟩ := word_of_mem_nameOccurrences h
      obtain ⟨hk, -⟩ := List.getElem?_eq_some_iff.mp hname
      refine ⟨Nat.le_of_eq hlist.symm, k + 1, by omega, ?_⟩
      rw [List.getElem?_append_left (by simp [Declaration.words]; omega), Declaration.words,
        List.cons_append, List.getElem?_cons_succ, List.getElem?_append_left hk]
      exact hname
    · obtain ⟨hlist, k, hword, hname⟩ := ih h
      refine ⟨by omega, d.words.length + k, by omega, ?_⟩
      rw [List.getElem?_append_right (Nat.le_add_right _ _), Nat.add_sub_cancel_left]
      exact hname

/-- **The names of declarations stand one behind the other**, list by list. -/
theorem ordered_occurrences (list i : Nat) (declarations : List Declaration) :
    (occurrences list i declarations).Pairwise fun o o' => o.word < o'.word ∧ o.list ≤ o'.list := by
  induction declarations generalizing list i with
  | nil => exact .nil
  | cons d declarations ih =>
    refine List.pairwise_append.mpr ⟨?_, ih _ _, fun o ho o' ho' => ?_⟩
    · refine (ordered_nameOccurrences list (i + 1) d.names).imp_of_mem fun ho ho' hlt => ⟨hlt, ?_⟩
      rw [(word_of_mem_nameOccurrences ho).1, (word_of_mem_nameOccurrences ho').1]
    · obtain ⟨hlist, k, hword, hname⟩ := word_of_mem_nameOccurrences ho
      obtain ⟨hlist', k', hword', -⟩ := word_of_mem_occurrences ho'
      obtain ⟨hk, -⟩ := List.getElem?_eq_some_iff.mp hname
      have hlength : d.words.length = (nameWords d.names).length + 2 := by
        simp [Declaration.words]
      omega

namespace Program

variable {p : Program} {o o' : Occurrence}

/-- A name that a program declares stands at its word. -/
theorem word_of_mem_occurrences (h : o ∈ p.occurrences) :
    p.words[o.word]? = some (.identifier, o.name) := by
  obtain ⟨-, k, hword, hname⟩ := Ast.word_of_mem_occurrences h
  obtain ⟨hk, -⟩ := List.getElem?_eq_some_iff.mp hname
  rw [hword, Nat.add_comm, words, List.append_assoc]
  show (p.declarations.flatMap Declaration.words ++ _)[k]? = _
  rw [List.getElem?_append_left hk]
  exact hname

/-- An occurrence that does not stand further right is in no later list. -/
theorem list_le_list (h : o ∈ p.occurrences) (h' : o' ∈ p.occurrences) (hword : o.word ≤ o'.word) :
    o.list ≤ o'.list := by
  have hordered := List.pairwise_iff_getElem.mp (ordered_occurrences 0 2 p.declarations)
  obtain ⟨i, hi, rfl⟩ := List.getElem_of_mem h
  obtain ⟨j, hj, rfl⟩ := List.getElem_of_mem h'
  rcases Nat.lt_trichotomy i j with hlt | rfl | hgt
  · exact (hordered i j hi hj hlt).2
  · exact Nat.le_refl _
  · exact absurd (hordered j i hj hi hgt).1 (Nat.not_lt.mpr hword)

/-- **The first occurrence of a name** that is declared. -/
theorem exists_first (h : o ∈ p.occurrences) :
    ∃ first ∈ p.occurrences, first.name = o.name ∧
      ∀ o' ∈ p.occurrences, o'.name = o.name → first.word ≤ o'.word := by
  obtain ⟨first, ⟨hfirst, hname⟩, hleast⟩ := (measure Occurrence.word).wf.has_min
    {o' | o' ∈ p.occurrences ∧ o'.name = o.name} ⟨o, h, rfl⟩
  exact ⟨first, hfirst, hname, fun o' ho' hname' => Nat.not_lt.mp (hleast o' ⟨ho', hname'⟩)⟩

end Program

/-! ## The order of reductions -/

/-- The names of declarations in the order in which they are reduced: each list from its end on. -/
def reductions : Nat → Nat → List Declaration → List Occurrence
  | _, _, [] => []
  | list, i, d :: rest =>
    (nameOccurrences list (i + 1) d.names).reverse ++
      reductions (list + 1) (i + d.words.length) rest

/-- What is reduced is what stands in the source. -/
theorem mem_reductions {list i : Nat} {declarations : List Declaration} {o : Occurrence} :
    o ∈ reductions list i declarations ↔ o ∈ occurrences list i declarations := by
  induction declarations generalizing list i with
  | nil => rfl
  | cons d declarations ih =>
    rw [reductions, occurrences, List.mem_append, List.mem_append, List.mem_reverse, ih]

/-- The names of a list are declared from its end on. -/
theorem nameEntries_eq (list i : Nat) (names : List Name) :
    nameEntries i names = (nameOccurrences list i names).reverse.map fun o => (o.name, o.word) := by
  induction names generalizing i with
  | nil => rfl
  | cons x names ih =>
    rw [nameEntries, nameOccurrences, List.reverse_cons, List.map_append, ih]
    rfl

/-- **Names are declared as they are reduced.** -/
theorem entries_eq (list i : Nat) (declarations : List Declaration) :
    entries i declarations = (reductions list i declarations).map fun o => (o.name, o.word) := by
  induction declarations generalizing list i with
  | nil => rfl
  | cons d declarations ih =>
    rw [entries, reductions, List.map_append, nameEntries_eq list, ih]

/-- **Reductions go from list to list**, and from right to left in each of them. -/
theorem ordered_reductions (list i : Nat) (declarations : List Declaration) :
    (reductions list i declarations).Pairwise Occurrence.Before := by
  induction declarations generalizing list i with
  | nil => exact .nil
  | cons d declarations ih =>
    refine List.pairwise_append.mpr ⟨?_, ih _ _, fun o ho o' ho' => ?_⟩
    · rw [List.pairwise_reverse]
      refine (ordered_nameOccurrences list (i + 1) d.names).imp_of_mem fun ho ho' hlt => ?_
      refine .inr ⟨?_, hlt⟩
      rw [(word_of_mem_nameOccurrences ho).1, (word_of_mem_nameOccurrences ho').1]
    · have hlist := (word_of_mem_nameOccurrences (List.mem_reverse.mp ho)).1
      have hlist' := (word_of_mem_occurrences (mem_reductions.mp ho')).1
      exact .inl (by omega)

/-- **What is declared again** where occurrences are declared one after the other: those whose name
was seen, or is that of an occurrence before. -/
theorem mem_repeats_iff {seen : List String} {os : List Occurrence}
    (hordered : os.Pairwise Occurrence.Before) {f : Fault} :
    f ∈ repeats seen (os.map fun o => (o.name, o.word)) ↔
      ∃ o ∈ os, f = o.fault ∧ (o.name ∈ seen ∨ ∃ o' ∈ os, o'.name = o.name ∧ o'.Before o) := by
  induction os generalizing seen with
  | nil => simp [repeats]
  | cons o os ih =>
    obtain ⟨hfirst, hrest⟩ := List.pairwise_cons.mp hordered
    rw [List.map_cons, repeats, List.mem_append, ih hrest]
    constructor
    · rintro (h | ⟨o₁, ho₁, rfl, hseen⟩)
      · split at h
        · next hmem => exact ⟨o, List.mem_cons_self, List.mem_singleton.mp h, .inl hmem⟩
        · cases h
      · refine ⟨o₁, List.mem_cons_of_mem o ho₁, rfl, ?_⟩
        rcases hseen with hmem | ⟨o', ho', hname, hbefore⟩
        · rcases List.mem_cons.mp hmem with hname | hmem
          · exact .inr ⟨o, List.mem_cons_self, hname.symm, hfirst o₁ ho₁⟩
          · exact .inl hmem
        · exact .inr ⟨o', List.mem_cons_of_mem o ho', hname, hbefore⟩
    · rintro ⟨o₁, ho₁, rfl, hseen⟩
      rcases List.mem_cons.mp ho₁ with rfl | ho₁
      · -- nothing comes before the first occurrence, so its name was seen
        left
        have hmem : o₁.name ∈ seen := by
          refine hseen.resolve_right ?_
          rintro ⟨o', ho', -, hbefore⟩
          rcases List.mem_cons.mp ho' with rfl | ho'
          · exact hbefore.elim (Nat.lt_irrefl _) fun h => Nat.lt_irrefl _ h.2
          · have hafter := hfirst o' ho'
            unfold Occurrence.Before at hbefore hafter
            omega
        rw [if_pos hmem]
        exact List.mem_singleton_self _
      · right
        refine ⟨o₁, ho₁, rfl, ?_⟩
        rcases hseen with hmem | ⟨o', ho', hname, hbefore⟩
        · exact .inl (List.mem_cons_of_mem _ hmem)
        · rcases List.mem_cons.mp ho' with rfl | ho'
          · exact .inl (by rw [← hname]; exact List.mem_cons_self)
          · exact .inr ⟨o', ho', hname, hbefore⟩

namespace Program

variable {p : Program}

/-- **The redeclarations of a program**: the faults of the occurrences that declare a name again. -/
theorem mem_faults_redeclaration_iff {f : Fault} :
    f ∈ p.faults ∧ f.code = .redeclaration ↔ ∃ o ∈ p.occurrences, f = o.fault ∧ p.Redeclares o := by
  have hredeclared : f ∈ p.redeclarations ↔ ∃ o ∈ p.occurrences, f = o.fault ∧ p.Redeclares o := by
    rw [redeclarations, entries_eq 0, mem_repeats_iff (ordered_reductions 0 2 p.declarations)]
    simp only [List.not_mem_nil, false_or, mem_reductions]
    rfl
  rw [← hredeclared, faults, List.mem_append]
  constructor
  · rintro ⟨hf | hf, hcode⟩
    · exact hf
    · exact absurd hcode (OtherFaults.block p.given p.before p.main f hf)
  · intro hf
    exact ⟨.inl hf, code_of_mem_repeats hf⟩

/-- An occurrence in an earlier list stands in front. -/
theorem word_lt_of_list_lt {o o' : Occurrence} (ho : o ∈ p.occurrences) (ho' : o' ∈ p.occurrences)
    (hlist : o'.list < o.list) : o'.word < o.word := by
  by_contra hword
  exact absurd (list_le_list ho ho' (Nat.not_lt.mp hword)) (Nat.not_le.mpr hlist)

/-- **When what is declared again has an occurrence of its name in front of it**: exactly if no list
brings a new name twice. -/
theorem bringsOnce_iff :
    p.BringsOnce ↔ ∀ o ∈ p.occurrences, p.Redeclares o →
      ∃ o' ∈ p.occurrences, o'.name = o.name ∧ o'.word < o.word := by
  constructor
  · rintro honce o ho ⟨o', ho', hname, hlist | ⟨hlist, hword⟩⟩
    · exact ⟨o', ho', hname, word_lt_of_list_lt ho ho' hlist⟩
    · obtain ⟨earlier, hearlier, hname', hlist'⟩ := honce o ho o' ho' hname hlist hword
      exact ⟨earlier, hearlier, hname', word_lt_of_list_lt ho hearlier hlist'⟩
  · intro hfront o ho o' ho' hname hlist hword
    obtain ⟨first, hfirst, hname', hleast⟩ := exists_first ho
    have hle := hleast o ho rfl
    rcases Nat.lt_or_eq_of_le (list_le_list hfirst ho hle) with hlt | heq
    · exact ⟨first, hfirst, hname', hlt⟩
    · -- the first occurrence is in that list, where the other one is declared before it
      have hagain : p.Redeclares first :=
        ⟨o', ho', by rw [hname, hname'], .inr ⟨by omega, by omega⟩⟩
      obtain ⟨earlier, hearlier, hname'', hlt⟩ := hfront first hfirst hagain
      exact absurd (hleast earlier hearlier (hname''.trans hname')) (Nat.not_le.mpr hlt)

end Program

end Ast

/-! ## Where words begin -/

/-- **Words begin one behind the other.** -/
theorem Scanner.Spread.ordered {s : Scanner} {words : List PlacedWord} (h : s.Spread words)
    (hsound : s.registry.Sound) :
    (words.Pairwise fun x y => x.2.offset < y.2.offset) ∧
      ∀ w ∈ words, s.position.offset ≤ w.2.offset := by
  induction h with
  | ended scanned last => exact ⟨.nil, fun w hw => absurd hw List.not_mem_nil⟩
  | hidden scanned ignorable rest ih =>
    have hadvanced := (scanned_of_scan scanned).advanced hsound
    obtain ⟨hordered, hbehind⟩ := ih hadvanced.sound
    refine ⟨hordered, fun w hw => ?_⟩
    have hle := hbehind w hw
    have hge := hadvanced.start_ge
    have hstart := hadvanced.start_le
    omega
  | @visible s s' t words scanned shown more rest ih =>
    have hadvanced := (scanned_of_scan scanned).advanced hsound
    obtain ⟨hordered, hbehind⟩ := ih hadvanced.sound
    have hge := hadvanced.start_ge
    have hlt : t.span.start.offset < s'.position.offset := by
      refine hadvanced.start_lt ?_
      simp only [Token.isEndOfFile, decide_eq_false_iff_not]
      intro heq
      exact more (by rw [heq]; rfl)
    refine ⟨List.pairwise_cons.mpr ⟨fun w hw => ?_, hordered⟩, fun w hw => ?_⟩
    · exact Nat.lt_of_lt_of_le hlt (hbehind w hw)
    · rcases List.mem_cons.mp hw with rfl | hw
      · exact hge
      · have hle := hbehind w hw
        omega

/-- **A later word begins further on.** -/
theorem startOf_lt_startOf {s : Scanner} (hsound : s.registry.Sound)
    {tokens : Array (Spanned Token)} (hscan : s.scanAll.1 = .ok tokens) {i j : Nat}
    {p q : Position} (hij : i < j)
    (hi : startOf tokens.toList i = some p) (hj : startOf tokens.toList j = some q) :
    p.offset < q.offset := by
  obtain ⟨hordered, -⟩ := (Scanner.spread_of_scanAll hscan).ordered hsound
  rw [← placeIn_placed, placeIn, Option.map_eq_some_iff] at hi hj
  obtain ⟨w, hw, rfl⟩ := hi
  obtain ⟨w', hw', rfl⟩ := hj
  obtain ⟨hilt, rfl⟩ := List.getElem?_eq_some_iff.mp hw
  obtain ⟨hjlt, rfl⟩ := List.getElem?_eq_some_iff.mp hw'
  exact List.pairwise_iff_getElem.mp hordered i j hilt hjlt hij

/-! ## What is reported -/

/-- **The redeclarations that a parse reports.** -/
def ParseOutcome.redeclarations (outcome : ParseOutcome) : List Diagnostic :=
  outcome.diagnostics.filter fun d => d.isSemantic ∧ d.code = .redeclaration

/-- **A diagnostic points at an occurrence**: it names the word there, and is placed where that word
begins. -/
def Diagnostic.PointsAt (place : Nat → Option Position) (d : Diagnostic) (o : Occurrence) : Prop :=
  d.lexeme = some o.name ∧ place o.word = some d.position

/-- What a diagnostic says that points at an occurrence and tells that it is a redeclaration. -/
theorem Diagnostic.point_eq_iff {place : Nat → Option Position} {d : Diagnostic} {o : Occurrence} :
    d.point = Fault.point place o.fault ↔ d.code = .redeclaration ∧ d.PointsAt place o := by
  simp only [Diagnostic.point, Fault.point, Occurrence.fault, Diagnostic.PointsAt, Prod.mk.injEq]
  constructor
  · rintro ⟨hcode, hplace, hname⟩
    exact ⟨hcode, hname, hplace.symm⟩
  · rintro ⟨hcode, hname, hplace⟩
    exact ⟨hcode, hplace.symm, hname⟩

namespace ParseOutcome

variable {outcome : ParseOutcome} {program : Program} {place : Nat → Option Position}

/-- **Redeclarations are reported at what is declared again**, and at all of it. -/
theorem redeclarations_of_perm
    (h : ((outcome.diagnostics.filter Diagnostic.isSemantic).map Diagnostic.point).Perm
      (program.faults.map (Fault.point place))) :
    (∀ d ∈ outcome.redeclarations, ∃ o ∈ program.occurrences,
      d.PointsAt place o ∧ program.Redeclares o) ∧
    ∀ o ∈ program.occurrences, program.Redeclares o →
      ∃ d ∈ outcome.redeclarations, d.PointsAt place o := by
  constructor
  · intro d hd
    obtain ⟨hmem, hsays⟩ := List.mem_filter.mp hd
    obtain ⟨hsemantic, hcode⟩ := of_decide_eq_true hsays
    obtain ⟨f, hf, hpoint⟩ := List.mem_map.mp
      (h.mem_iff.mp (List.mem_map_of_mem (List.mem_filter.mpr ⟨hmem, hsemantic⟩)))
    have hfault : f.code = .redeclaration := (congrArg Prod.fst hpoint).trans hcode
    obtain ⟨o, ho, rfl, hagain⟩ := Program.mem_faults_redeclaration_iff.mp ⟨hf, hfault⟩
    exact ⟨o, ho, (Diagnostic.point_eq_iff.mp hpoint.symm).2, hagain⟩
  · intro o ho hagain
    obtain ⟨hf, -⟩ := Program.mem_faults_redeclaration_iff.mpr ⟨o, ho, rfl, hagain⟩
    obtain ⟨d, hd, hpoint⟩ := List.mem_map.mp (h.mem_iff.mpr (List.mem_map_of_mem hf))
    obtain ⟨hmem, hsemantic⟩ := List.mem_filter.mp hd
    obtain ⟨hcode, hpoints⟩ := Diagnostic.point_eq_iff.mp hpoint
    exact ⟨d, List.mem_filter.mpr ⟨hmem, decide_eq_true ⟨hsemantic, hcode⟩⟩, hpoints⟩

end ParseOutcome

/-- **A diagnostic points at one occurrence only.** -/
theorem Diagnostic.PointsAt.unique {s : Scanner} (hsound : s.registry.Sound)
    {tokens : Array (Spanned Token)} (hscan : s.scanAll.1 = .ok tokens) {program : Program}
    {d : Diagnostic} {o o' : Occurrence} (ho : o ∈ program.occurrences)
    (ho' : o' ∈ program.occurrences) (h : d.PointsAt (startOf tokens.toList) o)
    (h' : d.PointsAt (startOf tokens.toList) o') : o = o' := by
  have hword : o.word = o'.word := by
    rcases Nat.lt_trichotomy o.word o'.word with hlt | heq | hgt
    · exact absurd (startOf_lt_startOf hsound hscan hlt h.2 h'.2) (Nat.lt_irrefl _)
    · exact heq
    · exact absurd (startOf_lt_startOf hsound hscan hgt h'.2 h.2) (Nat.lt_irrefl _)
  have hlist : o.list = o'.list :=
    Nat.le_antisymm (Program.list_le_list ho ho' (Nat.le_of_eq hword))
      (Program.list_le_list ho' ho (Nat.le_of_eq hword.symm))
  exact Occurrence.ext hlist hword (Option.some.inj (h.1.symm.trans h'.1))

/-- **Where redeclarations are reported.** If the visible tokens of a source form a sentence and no
limit is hit, they are the words of exactly one program. Unless there are more type errors than are
recorded, a redeclaration is reported for an occurrence of a name exactly if another one is in an
earlier list, or further right in the same list; no redeclaration is reported elsewhere; and each
one that is reported has an occurrence of its name in front of it exactly if no list brings a new
name twice. -/
theorem redeclarations_reported (input : Input) (journal : Journal) (options : ScanOptions)
    (o : SyntaxOptions) {tokens : Array (Spanned Token)}
    (hscan : (Scanner.ofInput input .mgol ⟨.reserved, journal⟩ options).scanAll.1 = .ok tokens)
    (hsentence : RuleSet.mgol.Sentence (terminalsOf tokens.toList))
    (hlimit : HitsNoLimit (parse (.ofInput input .mgol ⟨.reserved, journal⟩ options) .mgol o).1) :
    ∃ (program : Program) (outcome : ParseOutcome),
      (∀ other : Program, other.words = wordsOf tokens.toList ↔ other = program) ∧
      (program.occurrences.map Occurrence.name = program.declared ∧
        ∀ x ∈ program.occurrences, program.words[x.word]? = some (.identifier, x.name)) ∧
      (parse (.ofInput input .mgol ⟨.reserved, journal⟩ options) .mgol o).1 = .ok outcome ∧
      (program.faults.length ≤ Limits.semanticErrors →
        (∀ d ∈ outcome.redeclarations, ∃ x ∈ program.occurrences,
          d.PointsAt (startOf tokens.toList) x) ∧
        (∀ x ∈ program.occurrences,
          (∃ d ∈ outcome.redeclarations, d.PointsAt (startOf tokens.toList) x) ↔
            program.Redeclares x) ∧
        ((∀ d ∈ outcome.redeclarations, ∃ x ∈ program.occurrences, ∃ x' ∈ program.occurrences,
          d.PointsAt (startOf tokens.toList) x ∧ x'.name = x.name ∧ x'.word < x.word) ↔
            program.BringsOnce)) := by
  obtain ⟨p, program, all, hparse, hsorted, -, hwords, hall, hpoints⟩ :=
    accepted_of_sentence hscan hsentence hlimit
  have hreserved : (Scanner.ofInput input .mgol ⟨.reserved, journal⟩ options).registry.Sound :=
    Registry.sound_reserved
  refine ⟨program, _, fun other => ?_, ⟨map_name_occurrences 0 2 program.declarations,
    fun x hx => Program.word_of_mem_occurrences hx⟩, hparse, fun hfew => ?_⟩
  · rw [← hwords]
    exact ⟨Program.eq_of_words, fun h => by rw [h]⟩
  obtain ⟨hsound, hcomplete⟩ := ParseOutcome.redeclarations_of_perm
    (ParseOutcome.points_perm hsorted hall hpoints (by rwa [List.length_map]))
  refine ⟨fun d hd => ?_, fun x hx => ⟨?_, hcomplete x hx⟩, ?_⟩
  · obtain ⟨x, hx, hat, -⟩ := hsound d hd
    exact ⟨x, hx, hat⟩
  · rintro ⟨d, hd, hat⟩
    obtain ⟨x', hx', hat', hagain⟩ := hsound d hd
    obtain rfl := hat.unique hreserved hscan hx hx' hat'
    exact hagain
  · rw [Program.bringsOnce_iff]
    constructor
    · intro hfront x hx hagain
      obtain ⟨d, hd, hat⟩ := hcomplete x hx hagain
      obtain ⟨x₁, hx₁, x', hx', hat₁, hname, hword⟩ := hfront d hd
      obtain rfl := hat.unique hreserved hscan hx hx₁ hat₁
      exact ⟨x', hx', hname, hword⟩
    · intro hfront d hd
      obtain ⟨x, hx, hat, hagain⟩ := hsound d hd
      obtain ⟨x', hx', hname, hword⟩ := hfront x hx hagain
      exact ⟨x, hx, x', hx', hat, hname, hword⟩

theorem beginsWith_letter : beginsWith Char.isAlpha "A" = true := rfl

/-- The name that is declared twice. -/
def twiceDeclared : Name := ⟨"A", beginsWith_letter⟩

theorem integer_ne_untyped : DataType.integer ≠ .untyped := by decide

theorem real_ne_untyped : DataType.real ≠ .untyped := by decide

/-- A program that declares a name in two lists. -/
def declaredTwice : Program where
  declarations :=
    [⟨.integer, [twiceDeclared], integer_ne_untyped, by decide⟩,
      ⟨.real, [twiceDeclared], real_ne_untyped, by decide⟩]
  main := .done

/-- A source of that program. -/
def declaredTwiceSource : String := "inicio varinicio inteiro A; real A; varfim; fim"

/-- The redeclaration in that source is reported at the second name. -/
theorem redeclarations_reported_lists :
    ∃ (tokens : Array (Spanned Token)) (outcome : ParseOutcome),
      tokenize (Text.encode declaredTwiceSource) = .ok tokens ∧
      RuleSet.mgol.Sentence (terminalsOf tokens.toList) ∧
      (parse (.ofInput ⟨Text.encode declaredTwiceSource, none⟩) .mgol {}).1 = .ok outcome ∧
      declaredTwice.occurrences = [⟨0, 3, "A"⟩, ⟨1, 6, "A"⟩] ∧ declaredTwice.BringsOnce ∧
      (∃ d ∈ outcome.redeclarations, d.PointsAt (startOf tokens.toList) ⟨1, 6, "A"⟩) ∧
      ∀ d ∈ outcome.redeclarations,
        ∃ x ∈ declaredTwice.occurrences, ∃ x' ∈ declaredTwice.occurrences,
          d.PointsAt (startOf tokens.toList) x ∧ x'.name = x.name ∧ x'.word < x.word := by
  have hread : (tokenize (Text.encode declaredTwiceSource)).toOption.map
      (fun tokens => wordsOf tokens.toList) = some declaredTwice.words := by decide +kernel
  have hgiven : (parse (.ofInput ⟨Text.encode declaredTwiceSource, none⟩) .mgol
      {}).1.toOption.map (fun outcome => outcome.program) = some none := by decide +kernel
  have hclean : (parseWithin 200 (.bare 100) (.ofInput ⟨Text.encode declaredTwiceSource, none⟩)
      .mgol {}).1.toOption.map (fun o => (o.accepted, o.hasSyntaxErrors)) =
        some (true, false) := by decide +kernel
  obtain ⟨tokens, hscan, hwords⟩ := exists_ok_of_map hread
  obtain ⟨outcome, hparse, -⟩ := exists_ok_of_map hgiven
  have hsentence := sentence_of_clean hscan hclean
  have hlimit : HitsNoLimit
      (parse (.ofInput ⟨Text.encode declaredTwiceSource, none⟩) .mgol {}).1 := by
    intro e he
    cases hparse.symm.trans he
  obtain ⟨program, outcome', hunique, -, hparse', hreports⟩ :=
    redeclarations_reported ⟨Text.encode declaredTwiceSource, none⟩ {} {} {} hscan hsentence hlimit
  obtain rfl : declaredTwice = program := (hunique declaredTwice).mp hwords.symm
  obtain rfl : outcome = outcome' := Except.ok.inj (hparse.symm.trans hparse')
  obtain ⟨-, hagain, hfront⟩ := hreports (by decide +kernel)
  refine ⟨tokens, outcome, hscan, hsentence, hparse, by decide, by decide, ?_, ?_⟩
  · exact (hagain ⟨1, 6, "A"⟩ (by decide)).mpr (by decide)
  · exact hfront.mpr (by decide)

/-- A source that declares a name twice in one list. -/
def declaredTogetherSource : String := "inicio varinicio inteiro A, A; varfim; fim"

/-- **A redeclaration that is reported where nothing was declared before**: of the two names in the
list, the one that begins at offset 25 is reported, and not the one at offset 28. -/
theorem redeclaration_reported_first :
    ∃ (tokens : Array (Spanned Token)) (outcome : ParseOutcome),
      tokenize (Text.encode declaredTogetherSource) = .ok tokens ∧
      RuleSet.mgol.Sentence (terminalsOf tokens.toList) ∧
      (parse (.ofInput ⟨Text.encode declaredTogetherSource, none⟩) .mgol {}).1 = .ok outcome ∧
      outcome.diagnostics.map Diagnostic.point = [(.redeclaration, some ⟨25, 1, 26⟩, some "A")] ∧
      (tokens.toList.filter fun t => t.value.lexeme = "A").map (fun t => t.span.start) =
        [⟨25, 1, 26⟩, ⟨28, 1, 29⟩] ∧
      ∃ d ∈ outcome.redeclarations, d.lexeme = some "A" ∧
        ∀ t ∈ tokens.toList, t.value.lexeme = "A" → ¬t.span.start.offset < d.position.offset := by
  have hgiven : (parse (.ofInput ⟨Text.encode declaredTogetherSource, none⟩) .mgol
      {}).1.toOption.map (fun o => (o.diagnostics.map Diagnostic.point,
        decide (o.redeclarations = o.diagnostics))) =
          some ([(.redeclaration, some ⟨25, 1, 26⟩, some "A")], true) := by decide +kernel
  have hnames : (tokenize (Text.encode declaredTogetherSource)).toOption.map (fun tokens =>
      (tokens.toList.filter fun t => t.value.lexeme = "A").map fun t => t.span.start) =
        some [⟨25, 1, 26⟩, ⟨28, 1, 29⟩] := by decide +kernel
  have hclean : (parseWithin 200 (.bare 100) (.ofInput ⟨Text.encode declaredTogetherSource, none⟩)
      .mgol {}).1.toOption.map (fun o => (o.accepted, o.hasSyntaxErrors)) =
        some (true, false) := by decide +kernel
  obtain ⟨tokens, hscan, hstarts⟩ := exists_ok_of_map hnames
  obtain ⟨outcome, hparse, hshown⟩ := exists_ok_of_map hgiven
  obtain ⟨hpoints, hredeclared⟩ := Prod.mk.inj hshown
  obtain ⟨d, hd, hpoint⟩ := List.map_eq_singleton_iff.mp hpoints
  refine ⟨tokens, outcome, hscan, sentence_of_clean hscan hclean, hparse, hpoints, hstarts, d, ?_,
    congrArg (fun point => point.2.2) hpoint, ?_⟩
  · rw [of_decide_eq_true hredeclared, hd]
    exact List.mem_singleton_self d
  · intro t ht hlexeme
    have hposition : d.position = ⟨25, 1, 26⟩ :=
      Option.some.inj (congrArg (fun point => point.2.1) hpoint)
    have hstart : t.span.start ∈ [(⟨25, 1, 26⟩ : Position), ⟨28, 1, 29⟩] := by
      rw [← hstarts]
      exact List.mem_map_of_mem (List.mem_filter.mpr ⟨ht, decide_eq_true hlexeme⟩)
    rw [hposition]
    rcases List.mem_pair.mp hstart with h | h <;> rw [h] <;> decide

end Mgol
