import Mgol.Proofs.Automaton.Deterministic

/-! # Tables that leave no choice

An automaton is built of a table exactly if the table names declared states only and no two of its
transitions compete for a byte. In which order such a table is listed makes no difference.

* **`ByteClass.Compete`, `ByteClass.overlaps_iff`** — classes overlap exactly if some byte, or
  whatever is left over, would have to choose between them.
* **`Automaton.Declared`, `Automaton.Unambiguous`** — what is asked of a table.
* **`Automaton.tableError?_eq_none_iff`** — what the check of a table finds.
* **`Automaton.move`, `Automaton.moves`** — a cursor that stays where the automaton cannot move.
* **`Automaton.next_of_perm`, `Automaton.ofTable_ok_iff_unambiguous`** — the order of a table. -/

namespace Mgol

/-! ## Classes that compete -/

/-- **Two classes compete**: both read what is left over, or both name one byte. -/
def ByteClass.Compete (c d : ByteClass) : Prop :=
  (c = .other ∧ d = .other) ∨ ∃ b, c.accepts b = true ∧ d.accepts b = true

/-- Classes compete in either order. -/
theorem ByteClass.Compete.symm {c d : ByteClass} (h : c.Compete d) : d.Compete c := by
  rcases h with ⟨hc, hd⟩ | ⟨b, hc, hd⟩
  · exact .inl ⟨hd, hc⟩
  · exact .inr ⟨b, hd, hc⟩

/-- **Classes overlap exactly if they compete.** -/
theorem ByteClass.overlaps_iff {c d : ByteClass} : c.overlaps d = true ↔ c.Compete d := by
  constructor
  · intro h
    -- a byte that is named outright is the common one; of a class of bytes any will do
    cases c with
    | byte b =>
      cases d with
      | byte b' => exact .inr ⟨b, beq_self_eq_true b, h⟩
      | letter => exact .inr ⟨b, beq_self_eq_true b, h⟩
      | digit => exact .inr ⟨b, beq_self_eq_true b, h⟩
      | other => cases h
    | letter =>
      cases d with
      | byte b => exact .inr ⟨b, h, beq_self_eq_true b⟩
      | letter => exact .inr ⟨97, by decide, by decide⟩
      | digit => cases h
      | other => cases h
    | digit =>
      cases d with
      | byte b => exact .inr ⟨b, h, beq_self_eq_true b⟩
      | letter => cases h
      | digit => exact .inr ⟨48, by decide, by decide⟩
      | other => cases h
    | other =>
      cases d with
      | byte b => cases h
      | letter => cases h
      | digit => cases h
      | other => exact .inl ⟨rfl, rfl⟩
  · rintro (⟨rfl, rfl⟩ | ⟨b, hc, hd⟩)
    · rfl
    · exact overlaps_of_accepts hc hd

/-! ## The states of a list -/

/-- A state that is put in is there, beside those before. -/
theorem mem_insertState {p q : Nat} {qs : List Nat} : p ∈ insertState q qs ↔ p = q ∨ p ∈ qs := by
  induction qs with
  | nil => simp [insertState]
  | cons r qs ih =>
    unfold insertState
    split_ifs with hlt heq
    · simp
    · simp [heq]
    · rw [List.mem_cons, ih, List.mem_cons]
      exact or_left_comm

/-- The set of the states of a list has the same states. -/
theorem mem_stateSet {q : Nat} {qs : List Nat} : q ∈ stateSet qs ↔ q ∈ qs := by
  induction qs with
  | nil => rfl
  | cons p qs ih =>
    rw [stateSet, List.foldr_cons, mem_insertState, List.mem_cons]
    exact or_congr_right ih

namespace Automaton

variable {states finals : List Nat} {initial : Nat} {transitions listed : List Transition}

/-! ## What is asked of a table -/

/-- **A table that names declared states only.** -/
structure Declared (states : List Nat) (initial : Nat) (finals : List Nat)
    (transitions : List Transition) : Prop where
  initial : initial ∈ states
  finals : ∀ q ∈ finals, q ∈ states
  ends : ∀ t ∈ transitions, t.source ∈ states ∧ t.target ∈ states

/-- **A table that leaves no choice**: transitions of one state at different places in it do not
compete. -/
def Unambiguous (transitions : List Transition) : Prop :=
  ∀ (i j : Nat) (hi : i < transitions.length) (hj : j < transitions.length), i ≠ j →
    transitions[i].source = transitions[j].source →
      ¬transitions[i].reads.Compete transitions[j].reads

/-- A table without overlaps leaves no choice, and the other way round. -/
theorem deterministic_iff_unambiguous : Deterministic transitions ↔ Unambiguous transitions := by
  rw [Deterministic, List.pairwise_iff_getElem]
  constructor
  · intro h i j hi hj hne hsource hcompete
    rcases Nat.lt_or_gt_of_ne hne with hlt | hgt
    · have hapart := h i j hi hj hlt hsource
      rw [ByteClass.overlaps_iff.mpr hcompete] at hapart
      cases hapart
    · have hapart := h j i hj hi hgt hsource.symm
      rw [ByteClass.overlaps_iff.mpr hcompete.symm] at hapart
      cases hapart
  · intro h i j hi hj hlt hsource
    rw [← Bool.not_eq_true, ByteClass.overlaps_iff]
    exact h i j hi hj (Nat.ne_of_lt hlt) hsource

/-- A table may be put in another order without a choice coming up. -/
theorem Unambiguous.of_perm (h : Unambiguous transitions) (hperm : listed.Perm transitions) :
    Unambiguous listed := by
  rw [← deterministic_iff_unambiguous] at h ⊢
  refine (hperm.pairwise_iff ?_).mpr h
  intro t u htu hsource
  have hapart := htu hsource.symm
  rw [← Bool.not_eq_true, ByteClass.overlaps_iff] at hapart ⊢
  exact fun hcompete => hapart hcompete.symm

/-- A table may be put in another order without another state coming up. -/
theorem Declared.of_perm (h : Declared states initial finals transitions)
    (hperm : listed.Perm transitions) : Declared states initial finals listed where
  initial := h.initial
  finals := h.finals
  ends t ht := h.ends t (hperm.mem_iff.mp ht)

/-! ## What the check finds -/

/-- A transition passes the check if its states are declared and it overlaps none before it. -/
theorem transitionError?_eq_none_iff {earlier : List Transition} {t : Transition} :
    transitionError? states earlier t = none ↔ (t.source ∈ states ∧ t.target ∈ states) ∧
      ∀ e ∈ earlier, e.source = t.source → e.reads.overlaps t.reads = false := by
  constructor
  · intro h
    refine ⟨?_, not_overlaps_of_transitionError? h⟩
    unfold transitionError? at h
    split_ifs at h with hsource htarget
    exact ⟨by simpa using hsource, by simpa using htarget⟩
  · rintro ⟨⟨hsource, htarget⟩, hearlier⟩
    have hnone : rival? earlier t = none := by
      refine List.find?_eq_none.mpr fun e he => ?_
      simpa using hearlier e he
    unfold transitionError?
    rw [if_neg (by simpa using hsource), if_neg (by simpa using htarget), hnone]

/-- Transitions pass the check one after the other if their states are declared and none overlaps
another or one before them. -/
theorem transitionsError?_eq_none_iff {earlier : List Transition} (h : Deterministic earlier) :
    transitionsError? states earlier transitions = none ↔
      (∀ t ∈ transitions, t.source ∈ states ∧ t.target ∈ states) ∧
        Deterministic (earlier ++ transitions) := by
  induction transitions generalizing earlier with
  | nil => simpa [transitionsError?] using h
  | cons t rest ih =>
    have hone : Deterministic (earlier ++ [t]) ↔
        ∀ e ∈ earlier, e.source = t.source → e.reads.overlaps t.reads = false := by
      rw [Deterministic, List.pairwise_append]
      simp [show earlier.Pairwise _ from h]
    rw [List.append_cons]
    cases ht : transitionError? states earlier t with
    | some e =>
      rw [transitionsError?, ht]
      refine iff_of_false (Option.some_ne_none e) ?_
      rintro ⟨hdeclared, hall⟩
      have hpasses := transitionError?_eq_none_iff.mpr
        ⟨hdeclared t List.mem_cons_self, hone.mp (List.pairwise_append.mp hall).1⟩
      rw [ht] at hpasses
      cases hpasses
    | none =>
      obtain ⟨hends, hearlier⟩ := transitionError?_eq_none_iff.mp ht
      rw [transitionsError?, ht]
      simp only
      rw [ih (hone.mpr hearlier), List.forall_mem_cons]
      simp [hends]

/-- **The check finds nothing wrong with a table** exactly if it names declared states only and
leaves no choice. -/
theorem tableError?_eq_none_iff :
    tableError? states initial finals transitions = none ↔
      Declared states initial finals transitions ∧ Unambiguous transitions := by
  rw [← deterministic_iff_unambiguous]
  unfold tableError?
  by_cases hinitial : initial ∈ states
  · rw [if_neg (by simpa using hinitial)]
    cases hfinals : (stateSet finals).find? fun q => !states.contains q with
    | some q =>
      refine iff_of_false nofun ?_
      rintro ⟨hdeclared, -⟩
      have hmem := hdeclared.finals q (mem_stateSet.mp (List.mem_of_find?_eq_some hfinals))
      simpa [hmem] using List.find?_some hfinals
    | none =>
      have hall : ∀ q ∈ finals, q ∈ states := by
        intro q hq
        simpa using List.find?_eq_none.mp hfinals q (mem_stateSet.mpr hq)
      rw [transitionsError?_eq_none_iff .nil, List.nil_append]
      exact and_congr_left fun _ => ⟨fun h => ⟨hinitial, hall, h⟩, Declared.ends⟩
  · rw [if_pos (by simpa using hinitial)]
    exact iff_of_false nofun fun h => hinitial h.1.initial

/-- An automaton is built of a table with nothing wrong. -/
theorem ofTable_eq_ok_iff {a : Automaton} :
    ofTable states initial finals transitions = .ok a ↔
      tableError? states initial finals transitions = none ∧
        a = ⟨stateSet states, initial, stateSet finals, transitions⟩ := by
  unfold ofTable
  cases tableError? states initial finals transitions with
  | some e => simp
  | none => simp [eq_comm]

/-! ## Cursors -/

/-- **The cursor after a byte**, and whether it has moved. It stays where it is if the automaton
cannot move. -/
def move (a : Automaton) (q : Nat) (b : UInt8) : Nat × Bool :=
  match a.next q b with
  | some r => (r, true)
  | none => (q, false)

/-- **What a cursor does over several bytes**: where it stands after each, and whether it has
moved. -/
def moves (a : Automaton) (q : Nat) : List UInt8 → List (Nat × Bool)
  | [] => []
  | b :: rest => a.move q b :: a.moves (a.move q b).1 rest

/-- Automata with the same moves have the same cursors. -/
theorem moves_congr {a a' : Automaton} (h : ∀ q b, a'.move q b = a.move q b) (q : Nat)
    (bytes : List UInt8) : a'.moves q bytes = a.moves q bytes := by
  induction bytes generalizing q with
  | nil => rfl
  | cons b rest ih => rw [moves, moves, h, ih]

/-- **The order of the transitions makes no difference** to a deterministic automaton. -/
theorem next_of_perm {a a' : Automaton} (h : Deterministic a.transitions)
    (hperm : a'.transitions.Perm a.transitions) (q : Nat) (b : UInt8) :
    a'.next q b = a.next q b := by
  have h' : Deterministic a'.transitions := by
    rw [deterministic_iff_unambiguous] at h ⊢
    exact h.of_perm hperm
  refine Option.ext fun r => ?_
  -- a move is a matter of which transitions there are
  simp only [next_eq_some_iff h, next_eq_some_iff h', hperm.mem_iff]

/-- **An automaton is built of exactly the tables that leave no choice.** A table is taken if and
only if it names declared states only and no two of its transitions, at different places, leave one
state and compete for a byte or for what is left over. A table that is taken may be listed in any
order: it is taken again, and from everywhere, on every byte and on all sequences of bytes, the
cursor does the same. -/
theorem ofTable_ok_iff_unambiguous (states : List Nat) (initial : Nat) (finals : List Nat)
    (transitions : List Transition) :
    ((∃ a, ofTable states initial finals transitions = .ok a) ↔
      Declared states initial finals transitions ∧ Unambiguous transitions) ∧
    ∀ a, ofTable states initial finals transitions = .ok a →
      ∀ listed : List Transition, listed.Perm transitions →
        ∃ a', ofTable states initial finals listed = .ok a' ∧ a'.states = a.states ∧
          a'.initial = a.initial ∧ a'.finals = a.finals ∧
          ∀ q, (∀ b, a'.move q b = a.move q b) ∧ ∀ bytes, a'.moves q bytes = a.moves q bytes := by
  constructor
  · rw [← tableError?_eq_none_iff]
    constructor
    · rintro ⟨a, ha⟩
      exact (ofTable_eq_ok_iff.mp ha).1
    · intro h
      exact ⟨_, ofTable_eq_ok_iff.mpr ⟨h, rfl⟩⟩
  · intro a ha listed hperm
    obtain ⟨herror, rfl⟩ := ofTable_eq_ok_iff.mp ha
    obtain ⟨hdeclared, hunambiguous⟩ := tableError?_eq_none_iff.mp herror
    have htaken := tableError?_eq_none_iff.mpr
      ⟨hdeclared.of_perm hperm, hunambiguous.of_perm hperm⟩
    let a : Automaton := ⟨stateSet states, initial, stateSet finals, transitions⟩
    let a' : Automaton := ⟨stateSet states, initial, stateSet finals, listed⟩
    have hnext : ∀ q b, a'.next q b = a.next q b :=
      next_of_perm (deterministic_iff_unambiguous.mpr hunambiguous) hperm
    have hmove : ∀ q b, a'.move q b = a.move q b := by
      intro q b
      unfold move
      rw [hnext]
    exact ⟨a', ofTable_eq_ok_iff.mpr ⟨htaken, rfl⟩, rfl, rfl, rfl,
      fun q => ⟨hmove q, moves_congr hmove q⟩⟩

/-- Names and comments, as a table. -/
def commentTransitions : List Transition :=
  [⟨0, .letter, 1⟩, ⟨1, .letter, 1⟩, ⟨1, .digit, 1⟩, ⟨0, .byte 123, 2⟩, ⟨2, .byte 125, 3⟩,
    ⟨2, .other, 2⟩]

/-- A table with a class for what is left over, listed backwards: within a comment, a line feed and
an opening brace are left over, and the closing brace still ends it. -/
theorem ofTable_ok_iff_unambiguous_backwards :
    ∃ a a', ofTable [0, 1, 2, 3] 0 [1, 3] commentTransitions = .ok a ∧
      commentTransitions.reverse.Perm commentTransitions ∧
      ofTable [0, 1, 2, 3] 0 [1, 3] commentTransitions.reverse = .ok a' ∧
      a'.moves 0 [123, 10, 123, 125, 65] =
        [(2, true), (2, true), (2, true), (3, true), (3, false)] := by
  have ha : ofTable [0, 1, 2, 3] 0 [1, 3] commentTransitions =
      .ok ⟨[0, 1, 2, 3], 0, [1, 3], commentTransitions⟩ := by
    decide +kernel
  have hperm := List.reverse_perm commentTransitions
  obtain ⟨a', ha', -, -, -, hsame⟩ :=
    (ofTable_ok_iff_unambiguous [0, 1, 2, 3] 0 [1, 3] commentTransitions).2 _ ha _ hperm
  refine ⟨_, a', ha, hperm, ha', ?_⟩
  rw [(hsame 0).2]
  decide

end Automaton

end Mgol
