import Mgol.Automaton.Basic
import Mathlib.Tactic.Common

/-! # Deterministic automata

A table without overlapping transitions leaves no choice: which transition a byte takes does not
depend on the order in which the transitions are listed.

* **`Automaton.Deterministic`, `Automaton.deterministic_of_tableError?`** — what the check of a
  table finds out about its transitions.
* **`Automaton.next_eq_some_iff`** — a move of a deterministic automaton is one of its transitions.
* **`Automaton.run_append`** — the automaton reads one part of its input after the other. -/

namespace Mgol

/-- Two classes that name the same byte overlap. -/
theorem ByteClass.overlaps_of_accepts {c d : ByteClass} {b : UInt8} (hc : c.accepts b = true)
    (hd : d.accepts b = true) : c.overlaps d = true := by
  -- no byte is a letter and a digit
  have hdistinct : ¬(isLetterByte b = true ∧ isDigitByte b = true) := by
    simp only [isLetterByte, isDigitByte, Bool.and_eq_true, Bool.or_eq_true, decide_eq_true_eq,
      UInt8.le_iff_toNat_le]
    intro h
    have h65 : (65 : UInt8).toNat = 65 := rfl
    have h97 : (97 : UInt8).toNat = 97 := rfl
    have h57 : (57 : UInt8).toNat = 57 := rfl
    omega
  cases c <;> cases d <;> simp_all [accepts, overlaps]

namespace Automaton

/-- **No two transitions of a state overlap**, wherever they stand in the table. -/
def Deterministic (transitions : List Transition) : Prop :=
  transitions.Pairwise fun t u => t.source = u.source → t.reads.overlaps u.reads = false

/-- What a checked transition has before it. -/
theorem not_overlaps_of_transitionError? {states : List Nat} {earlier : List Transition}
    {t : Transition} (h : transitionError? states earlier t = none) :
    ∀ e ∈ earlier, e.source = t.source → e.reads.overlaps t.reads = false := by
  intro e he hsource
  unfold transitionError? at h
  split_ifs at h
  cases hrival : rival? earlier t with
  | some rival =>
    rw [hrival] at h
    cases h
  | none =>
    have hnone := List.find?_eq_none.mp hrival e he
    simpa [hsource] using hnone

/-- Transitions that pass the check one after the other do not overlap. -/
theorem deterministic_append_of_transitionsError? {states : List Nat}
    (transitions : List Transition) {earlier : List Transition} (hearlier : Deterministic earlier)
    (h : transitionsError? states earlier transitions = none) :
    Deterministic (earlier ++ transitions) := by
  induction transitions generalizing earlier with
  | nil => rwa [List.append_nil]
  | cons t rest ih =>
    rw [transitionsError?] at h
    split at h
    · cases h
    · next ht =>
      have hgrown : Deterministic (earlier ++ [t]) := by
        refine List.pairwise_append.mpr ⟨hearlier, List.pairwise_singleton _ _, ?_⟩
        intro e he u hu
        obtain rfl := List.mem_singleton.mp hu
        exact not_overlaps_of_transitionError? ht e he
      have hall := ih hgrown h
      rwa [List.append_assoc, List.singleton_append] at hall

/-- **A table that passes its check is deterministic.** -/
theorem deterministic_of_tableError? {states finals : List Nat} {initial : Nat}
    {transitions : List Transition} (h : tableError? states initial finals transitions = none) :
    Deterministic transitions := by
  unfold tableError? at h
  split_ifs at h
  split at h
  · cases h
  · exact deterministic_append_of_transitionsError? transitions .nil h

/-- Overlapping transitions of one state are one transition. -/
theorem Deterministic.eq_of_overlaps {transitions : List Transition}
    (h : Deterministic transitions) {t u : Transition} (ht : t ∈ transitions)
    (hu : u ∈ transitions) (hsource : t.source = u.source)
    (htu : t.reads.overlaps u.reads = true) (hut : u.reads.overlaps t.reads = true) : t = u := by
  by_contra hne
  have hpair := List.pairwise_iff_getElem.mp h
  obtain ⟨i, hi, rfl⟩ := List.getElem_of_mem ht
  obtain ⟨j, hj, rfl⟩ := List.getElem_of_mem hu
  rcases Nat.lt_trichotomy i j with hlt | heq | hgt
  · rw [hpair i j hi hj hlt hsource] at htu
    cases htu
  · subst heq
    exact hne rfl
  · rw [hpair j i hj hi hgt hsource.symm] at hut
    cases hut

/-- **A move of a deterministic automaton** is a transition that names the byte, or where none does
the transition for the bytes that are left over. -/
theorem next_eq_some_iff {a : Automaton} (h : Deterministic a.transitions) {q r : Nat} {b : UInt8} :
    a.next q b = some r ↔
      (∃ t ∈ a.transitions, t.source = q ∧ t.target = r ∧ t.reads.accepts b = true) ∨
        (∀ t ∈ a.transitions, t.source = q → t.reads.accepts b = false) ∧
          ∃ t ∈ a.transitions, t.source = q ∧ t.target = r ∧ t.reads = .other := by
  unfold next
  cases hnamed : a.transitions.find? fun t => t.source = q && t.reads.accepts b with
  | some t =>
    have htmem := List.mem_of_find?_eq_some hnamed
    obtain ⟨htsource, htreads⟩ : t.source = q ∧ t.reads.accepts b = true := by
      simpa using List.find?_some hnamed
    constructor
    · intro heq
      exact .inl ⟨t, htmem, htsource, Option.some.inj heq, htreads⟩
    · rintro (⟨u, humem, husource, rfl, hureads⟩ | ⟨hnone, _⟩)
      · have htu : t = u := h.eq_of_overlaps htmem humem (htsource.trans husource.symm)
          (ByteClass.overlaps_of_accepts htreads hureads)
          (ByteClass.overlaps_of_accepts hureads htreads)
        rw [htu]
      · rw [hnone t htmem htsource] at htreads
        cases htreads
  | none =>
    have hnone : ∀ t ∈ a.transitions, t.source = q → t.reads.accepts b = false := by
      intro t ht hsource
      simpa [hsource] using List.find?_eq_none.mp hnamed t ht
    cases hother : a.transitions.find? fun t => t.source = q && t.reads = .other with
    | some t =>
      have htmem := List.mem_of_find?_eq_some hother
      obtain ⟨htsource, htreads⟩ : t.source = q ∧ t.reads = .other := by
        simpa using List.find?_some hother
      constructor
      · intro heq
        exact .inr ⟨hnone, t, htmem, htsource, Option.some.inj heq, htreads⟩
      · rintro (⟨u, humem, husource, _, hureads⟩ | ⟨_, u, humem, husource, rfl, hureads⟩)
        · rw [hnone u humem husource] at hureads
          cases hureads
        · have htu : t = u := h.eq_of_overlaps htmem humem (htsource.trans husource.symm)
            (by rw [htreads, hureads]; rfl) (by rw [htreads, hureads]; rfl)
          rw [htu]
    | none =>
      constructor
      · intro heq
        cases heq
      · rintro (⟨u, humem, husource, _, hureads⟩ | ⟨_, u, humem, husource, _, hureads⟩)
        · rw [hnone u humem husource] at hureads
          cases hureads
        · have := List.find?_eq_none.mp hother u humem
          simp [husource, hureads] at this

/-- **The automaton reads one part of its input after the other.** -/
theorem run_append (a : Automaton) (q : Nat) (before after : List UInt8) :
    a.run q (before ++ after) = (a.run q before).bind fun p => a.run p after := by
  induction before generalizing q with
  | nil => rfl
  | cons b before ih =>
    rw [List.cons_append, run, run]
    cases a.next q b with
    | some p => exact ih p
    | none => rfl

/-- One more byte at the end is one more move. -/
theorem run_concat_eq (a : Automaton) (q : Nat) (bytes : List UInt8) (b : UInt8) :
    a.run q (bytes ++ [b]) = (a.run q bytes).bind fun p => a.next p b := by
  rw [run_append]
  congr 1
  funext p
  rw [run]
  cases a.next p b <;> rfl

end Automaton

end Mgol
