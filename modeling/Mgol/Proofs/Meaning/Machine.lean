import Mgol.Token.Basic
import Mathlib.Tactic.Common

/-! # Machines that run programs

What a program of the source and a generated program do is said in the same terms: both change a
store, read values from an input and write values, and both repeat bodies.

* **`Machine.Interpretation`** — what constants, operators, conditions and reading mean.
* **`Machine.World`** — a store, an input, and the reads and writes so far.
* **`Machine.Outcome`, `Machine.rounds`** — runs that end or are still going after a number of
  rounds of their loops.
* **`Machine.rounds_ended_of_le`** — more rounds change nothing for a run that has ended.
* **`Machine.Outcome.Alike`, `Machine.rounds_alike`** — runs that go the same way. -/

namespace Mgol.Machine

/-- **An interpretation**: what constants and operators mean, when a condition holds, and what is
read in a format. Operators are given by their spelling in MGol. -/
structure Interpretation (Value Input : Type) where
  number : String → Value
  text : List Char → Value
  apply : String → Value → Value → Value
  holds : Value → Bool
  scan : DataType → Input → Value × Input

/-- **What can be seen of a run**: a value that was read or written in a format. -/
inductive Exchange (Value : Type) where
  | read (format : DataType) (value : Value)
  | write (format : DataType) (value : Value)

/-- **The world of a run**: the values of all variables, the input that is left, and what was read
and written so far. -/
structure World (Value Input : Type) where
  store : String → Value
  input : Input
  trace : List (Exchange Value)

variable {Value Input : Type}

namespace World

/-- The world with another value of a variable. -/
def set (w : World Value Input) (name : String) (value : Value) : World Value Input :=
  { w with store := fun other => if other = name then value else w.store other }

/-- The world after a value was read into a variable. -/
def read (m : Interpretation Value Input) (format : DataType) (name : String)
    (w : World Value Input) : World Value Input :=
  let (value, input) := m.scan format w.input
  { w.set name value with input, trace := w.trace ++ [.read format value] }

/-- The world after a value was written. -/
def write (format : DataType) (value : Value) (w : World Value Input) : World Value Input :=
  { w with trace := w.trace ++ [.write format value] }

end World

/-- **How a run comes out**: it has ended, or it is still going when a loop has used up its
rounds. -/
inductive Outcome (Value Input : Type) where
  | ended (w : World Value Input)
  | running (w : World Value Input)

/-- A run that goes on with another one when it has ended. -/
def Outcome.andThen (o : Outcome Value Input)
    (next : World Value Input → Outcome Value Input) : Outcome Value Input :=
  match o with
  | .ended w => next w
  | .running w => .running w

/-- **A loop** that runs its body as long as a test holds, for at most a number of rounds. -/
def rounds (test : World Value Input → Bool) (body : World Value Input → Outcome Value Input) :
    Nat → World Value Input → Outcome Value Input
  | 0, w => if test w then .running w else .ended w
  | n + 1, w => if test w then (body w).andThen (rounds test body n) else .ended w

/-! ## More rounds -/

/-- What comes after a run that has ended. -/
theorem Outcome.andThen_eq_ended_iff {o : Outcome Value Input}
    {next : World Value Input → Outcome Value Input} {v : World Value Input} :
    o.andThen next = .ended v ↔ ∃ u, o = .ended u ∧ next u = .ended v := by
  cases o with
  | ended u =>
    refine ⟨fun h => ⟨u, rfl, h⟩, ?_⟩
    rintro ⟨_, hu, h⟩
    cases hu
    exact h
  | running u =>
    constructor
    · intro h
      cases h
    · rintro ⟨_, hu, _⟩
      cases hu

/-- **More rounds change nothing for a loop that has ended**, if they change nothing for its body. -/
theorem rounds_ended_of_le {test : World Value Input → Bool}
    {body body' : World Value Input → Outcome Value Input}
    (hbody : ∀ w v, body w = .ended v → body' w = .ended v) {n n' : Nat} (hle : n ≤ n')
    {w v : World Value Input} (h : rounds test body n w = .ended v) :
    rounds test body' n' w = .ended v := by
  induction n generalizing n' w with
  | zero =>
    by_cases ht : test w = true
    · rw [rounds, if_pos ht] at h
      cases h
    · rw [rounds, if_neg ht] at h
      cases n' <;> rw [rounds, if_neg ht, h]
  | succ n ih =>
    obtain ⟨n', rfl⟩ := Nat.exists_eq_add_of_le' (Nat.one_le_of_lt hle)
    by_cases ht : test w = true
    · rw [rounds, if_pos ht, Outcome.andThen_eq_ended_iff] at h ⊢
      obtain ⟨u, hu, hv⟩ := h
      exact ⟨u, hbody w u hu, ih (Nat.le_of_succ_le_succ hle) hv⟩
    · rw [rounds, if_neg ht] at h ⊢
      exact h

/-! ## Runs that go the same way -/

/-- **Worlds that are alike on some variables**: these have the same values, and the same was read
and written and is left to read. -/
structure World.Alike (visible : String → Prop) (w w' : World Value Input) : Prop where
  store_eq : ∀ name, visible name → w'.store name = w.store name
  input_eq : w'.input = w.input
  trace_eq : w'.trace = w.trace

/-- **Outcomes that are alike**: both runs have ended or both are still going, in worlds that are
alike. -/
inductive Outcome.Alike (visible : String → Prop) :
    Outcome Value Input → Outcome Value Input → Prop
  | ended {w w' : World Value Input} (alike : w.Alike visible w') : Alike visible (.ended w) (.ended w')
  | running {w w' : World Value Input} (alike : w.Alike visible w') :
      Alike visible (.running w) (.running w')

variable {visible : String → Prop} {w w' : World Value Input}

namespace World.Alike

/-- Worlds that are alike on some variables are alike on fewer. -/
theorem mono (h : w.Alike visible w') {fewer : String → Prop}
    (hfewer : ∀ name, fewer name → visible name) : w.Alike fewer w' where
  store_eq name hname := h.store_eq name (hfewer name hname)
  input_eq := h.input_eq
  trace_eq := h.trace_eq

/-- Worlds stay alike when a variable gets the same value. -/
theorem set (h : w.Alike visible w') (name : String) (value : Value) :
    (w.set name value).Alike visible (w'.set name value) where
  store_eq other hother := by
    unfold World.set
    by_cases heq : other = name
    · simp [heq]
    · simp [heq, h.store_eq other hother]
  input_eq := h.input_eq
  trace_eq := h.trace_eq

/-- Worlds stay alike when a variable changes that is not looked at. -/
theorem set_hidden (h : w.Alike visible w') {name : String} (hname : ¬visible name)
    (value : Value) : w.Alike visible (w'.set name value) where
  store_eq other hother := by
    have hne : other ≠ name := by
      rintro rfl
      exact hname hother
    simp [World.set, hne, h.store_eq other hother]
  input_eq := h.input_eq
  trace_eq := h.trace_eq

/-- Worlds stay alike when both read into a variable. -/
theorem read (h : w.Alike visible w') (m : Interpretation Value Input) (format : DataType)
    (name : String) : (w.read m format name).Alike visible (w'.read m format name) := by
  unfold World.read
  rw [h.input_eq, h.trace_eq]
  exact ⟨(h.set name _).store_eq, rfl, rfl⟩

/-- Worlds stay alike when both write a value. -/
theorem write (h : w.Alike visible w') (format : DataType) (value : Value) :
    (w.write format value).Alike visible (w'.write format value) := by
  unfold World.write
  rw [h.trace_eq]
  exact ⟨h.store_eq, h.input_eq, rfl⟩

end World.Alike

/-- Runs that are alike on some variables are alike on fewer. -/
theorem Outcome.Alike.mono {o o' : Outcome Value Input} {fewer : String → Prop}
    (h : o.Alike visible o') (hfewer : ∀ name, fewer name → visible name) : o.Alike fewer o' := by
  cases h with
  | ended alike => exact .ended (alike.mono hfewer)
  | running alike => exact .running (alike.mono hfewer)

/-- **Loops that are alike**: an invariant says how the worlds before a round are related, under
which the tests agree; a round that ends leads to such worlds again. -/
theorem rounds_alike {test test' : World Value Input → Bool}
    {body body' : World Value Input → Outcome Value Input}
    {I : World Value Input → World Value Input → Prop}
    (halike : ∀ w w', I w w' → w.Alike visible w')
    (htest : ∀ w w', I w w' → test' w' = test w)
    (hbody : ∀ w w', I w w' →
      (∃ u u', body w = .ended u ∧ body' w' = .ended u' ∧ I u u') ∨
        ∃ u u', body w = .running u ∧ body' w' = .running u' ∧ u.Alike visible u')
    (n : Nat) (hinv : I w w') :
    (rounds test body n w).Alike visible (rounds test' body' n w') := by
  induction n generalizing w w' with
  | zero =>
    rw [rounds, rounds, htest w w' hinv]
    by_cases ht : test w = true
    · rw [if_pos ht, if_pos ht]
      exact .running (halike _ _ hinv)
    · rw [if_neg ht, if_neg ht]
      exact .ended (halike _ _ hinv)
  | succ n ih =>
    rw [rounds, rounds, htest w w' hinv]
    by_cases ht : test w = true
    · rw [if_pos ht, if_pos ht]
      -- a round that is still going is where both loops stop
      rcases hbody w w' hinv with ⟨u, u', hu, hu', hinv'⟩ | ⟨u, u', hu, hu', hsame⟩
      · rw [hu, hu']
        exact ih hinv'
      · rw [hu, hu']
        exact .running hsame
    · rw [if_neg ht, if_neg ht]
      exact .ended (halike _ _ hinv)

end Mgol.Machine
