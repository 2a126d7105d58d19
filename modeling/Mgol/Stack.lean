import Mgol.Report.Code

/-! # Bounded stacks

A stack that refuses to grow past its capacity.

* **`Stack`** — items with the top first, and their number kept beside them.
* **`Stack.push`, `pop`, `popMany`, `truncate`** — its operations, each with a view lemma on
  `items`. -/

namespace Mgol

/-- Why a stack operation was refused. -/
inductive StackError where
  | overflow (capacity : Nat)
  | empty
  deriving DecidableEq, Repr

namespace StackError

/-- The text of the error. -/
def message : StackError → String
  | overflow capacity => "Stack capacity of " ++ toString capacity ++ " exceeded"
  | empty => "Pop from empty stack"

/-- The code of the error. -/
def code : StackError → Code
  | overflow _ => .stackOverflow
  | empty => .stackUnderflow

end StackError

/-- **A stack of bounded depth**, top first. The depth is stored so that a push costs no count. -/
structure Stack (α : Type) where
  capacity : Nat
  items : List α := []
  depth : Nat := 0
  depth_eq : depth = items.length := by rfl

namespace Stack

variable {α : Type}

/-- The empty stack of a capacity. -/
def ofCapacity (capacity : Nat) : Stack α := { capacity }

/-- The stack with the given items, top first. -/
def withItems (s : Stack α) (items : List α) : Stack α :=
  { capacity := s.capacity, items, depth := items.length, depth_eq := rfl }

/-- Whether nothing is on the stack. -/
def isEmpty (s : Stack α) : Bool := s.items.isEmpty

/-- The top item. -/
def top? (s : Stack α) : Option α := s.items.head?

/-- **Pushes an item**, unless the stack is full. -/
def push (s : Stack α) (a : α) : Except StackError (Stack α) :=
  if s.depth < s.capacity then
    .ok { s with items := a :: s.items, depth := s.depth + 1, depth_eq := by simp [s.depth_eq] }
  else .error (.overflow s.capacity)

/-- **Takes the top item off.** -/
def pop (s : Stack α) : Except StackError (α × Stack α) :=
  match h : s.items with
  | [] => .error .empty
  | a :: rest =>
    .ok (a, { s with
      items := rest, depth := s.depth - 1, depth_eq := by simp [s.depth_eq, h] })

/-- The stack without its upper `n` items. -/
def dropTop (s : Stack α) (n : Nat) : Stack α :=
  { s with items := s.items.drop n, depth := s.depth - n, depth_eq := by simp [s.depth_eq] }

/-- **Takes the upper `n` items off**, or none if there are fewer. They come in the order in which
they were pushed. -/
def popMany (s : Stack α) (n : Nat) : Except StackError (List α × Stack α) :=
  if n ≤ s.depth then .ok ((s.items.take n).reverse, s.dropTop n) else .error .empty

/-- **Cuts the stack** to its lowest `n` items. -/
def truncate (s : Stack α) (n : Nat) : Stack α :=
  s.dropTop (s.depth - n)

/-- The empty stack of the same capacity. -/
def clear (s : Stack α) : Stack α := ofCapacity s.capacity

/-- The items, bottom first. -/
def toList (s : Stack α) : List α := s.items.reverse

@[simp] theorem items_ofCapacity (n : Nat) : (ofCapacity n : Stack α).items = [] := rfl

@[simp] theorem items_dropTop (s : Stack α) (n : Nat) : (s.dropTop n).items = s.items.drop n := rfl

@[simp] theorem items_truncate (s : Stack α) (n : Nat) :
    (s.truncate n).items = s.items.drop (s.items.length - n) := by
  simp [truncate, s.depth_eq]

/-- Capacity and items determine a stack. -/
theorem eq_of_items {s t : Stack α} (hc : s.capacity = t.capacity) (hi : s.items = t.items) :
    s = t := by
  obtain ⟨sc, si, sd, hs⟩ := s
  obtain ⟨tc, ti, td, ht⟩ := t
  simp only at hc hi
  subst hc hi hs ht
  rfl

/-- A push succeeds exactly below the capacity, and then puts the item on top. -/
theorem push_eq_ok_iff (s t : Stack α) (a : α) :
    s.push a = .ok t ↔
      s.items.length < s.capacity ∧ t.items = a :: s.items ∧ t.capacity = s.capacity := by
  unfold push
  constructor
  · intro h
    split at h
    · next hlt =>
        injection h with h
        subst h
        exact ⟨s.depth_eq ▸ hlt, rfl, rfl⟩
    · exact absurd h (by simp)
  · rintro ⟨hlt, hi, hc⟩
    rw [if_pos (s.depth_eq ▸ hlt)]
    exact congrArg Except.ok (eq_of_items hc.symm hi.symm)

end Stack

end Mgol
