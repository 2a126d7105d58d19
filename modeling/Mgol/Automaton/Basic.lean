import Mgol.Report.Code
import Mgol.Text.Escaped

/-! # Finite automata over bytes

Deterministic automata whose transitions read a byte, a class of bytes, or whatever the other
transitions of a state leave over.

* **`ByteClass`** — what a transition reads; two classes **overlap** when some byte would have to
  choose between them.
* **`Automaton`, `Automaton.ofTable`** — a checked automaton: its states are declared and no two
  transitions of a state overlap.
* **`Automaton.next`** — the state after a byte, if the automaton can move. -/

namespace Mgol

/-- **What a transition reads.** `other` is any byte that no other transition of the state reads. -/
inductive ByteClass where
  | byte (b : UInt8)
  | letter
  | digit
  | other
  deriving DecidableEq, Repr

/-- Whether a byte is an ASCII letter. -/
def isLetterByte (b : UInt8) : Bool := (65 ≤ b && b ≤ 90) || (97 ≤ b && b ≤ 122)

/-- Whether a byte is an ASCII digit. -/
def isDigitByte (b : UInt8) : Bool := 48 ≤ b && b ≤ 57

namespace ByteClass

/-- Whether a class names a byte outright; `other` names none. -/
def accepts : ByteClass → UInt8 → Bool
  | byte b, c => b == c
  | letter, c => isLetterByte c
  | digit, c => isDigitByte c
  | other, _ => false

/-- **Whether two classes compete for a byte.** -/
def overlaps : ByteClass → ByteClass → Bool
  | other, other => true
  | other, _ => false
  | _, other => false
  | byte b, c => c.accepts b
  | c, byte b => c.accepts b
  | a, b => a == b

/-- The class in error texts. -/
def text : ByteClass → String
  | byte b => "'" ++ Text.escapeByte b ++ "'"
  | letter => "<letter>"
  | digit => "<digit>"
  | other => "<other>"

end ByteClass

/-- A transition from state to state. -/
structure Transition where
  source : Nat
  reads : ByteClass
  target : Nat
  deriving DecidableEq, Repr

/-- What an undeclared state was to be used for. -/
inductive StateRole where
  | initial
  | final
  | source
  | target
  deriving DecidableEq, Repr

/-- The name of a role. -/
def StateRole.text : StateRole → String
  | initial => "Initial"
  | final => "Final"
  | source => "Source"
  | target => "Target"

/-- What is wrong with a table of transitions. -/
inductive AutomatonError where
  | overlapping (state : Nat) (first second : ByteClass)
  | undeclared (role : StateRole) (state : Nat)
  | unclassified (state : Nat)
  deriving DecidableEq, Repr

namespace AutomatonError

/-- The text of the error. -/
def message : AutomatonError → String
  | overlapping state first second =>
    "State " ++ toString state ++ " has overlapping transitions on " ++ first.text ++ " and "
      ++ second.text
  | undeclared role state => role.text ++ " state " ++ toString state ++ " is not declared"
  | unclassified state => "Final state " ++ toString state ++ " has no token class"

/-- The code of the error. -/
def code : AutomatonError → Code
  | overlapping .. => .overlappingTransitions
  | undeclared .. | unclassified .. => .unknownState

end AutomatonError

/-- Puts a state into an ascending list without repetitions. -/
def insertState (q : Nat) : List Nat → List Nat
  | [] => [q]
  | p :: rest =>
    if q < p then q :: p :: rest else if q = p then p :: rest else p :: insertState q rest

/-- The states of a list in ascending order, each once. -/
def stateSet (qs : List Nat) : List Nat := qs.foldr insertState []

/-- **A deterministic automaton.** -/
structure Automaton where
  states : List Nat
  initial : Nat
  finals : List Nat
  transitions : List Transition
  deriving DecidableEq, Repr

namespace Automaton

/-- The first transition of a list that leaves the state of `t` and overlaps it. -/
def rival? (earlier : List Transition) (t : Transition) : Option Transition :=
  earlier.find? fun e => e.source = t.source && e.reads.overlaps t.reads

/-- What is wrong with a transition that follows the `earlier` ones. -/
def transitionError? (states : List Nat) (earlier : List Transition) (t : Transition) :
    Option AutomatonError :=
  if !states.contains t.source then some (.undeclared .source t.source)
  else if !states.contains t.target then some (.undeclared .target t.target)
  else
    match rival? earlier t with
    | some e => some (.overlapping t.source e.reads t.reads)
    | none => none

/-- The first thing wrong with a list of transitions that follows the `earlier` ones. -/
def transitionsError? (states : List Nat) (earlier : List Transition) :
    List Transition → Option AutomatonError
  | [] => none
  | t :: rest =>
    match transitionError? states earlier t with
    | some e => some e
    | none => transitionsError? states (earlier ++ [t]) rest

/-- The first thing wrong with a table. -/
def tableError? (states : List Nat) (initial : Nat) (finals : List Nat)
    (transitions : List Transition) : Option AutomatonError :=
  if !states.contains initial then some (.undeclared .initial initial)
  else
    match (stateSet finals).find? fun q => !states.contains q with
    | some q => some (.undeclared .final q)
    | none => transitionsError? states [] transitions

/-- **Builds an automaton**, unless its table is wrong. -/
def ofTable (states : List Nat) (initial : Nat) (finals : List Nat)
    (transitions : List Transition) : Except AutomatonError Automaton :=
  match tableError? states initial finals transitions with
  | some e => .error e
  | none => .ok ⟨stateSet states, initial, stateSet finals, transitions⟩

/-- **The state after a byte**, if the automaton can move: a transition that names the byte goes
before one that reads what is left over. -/
def next (a : Automaton) (q : Nat) (b : UInt8) : Option Nat :=
  match a.transitions.find? fun t => t.source = q && t.reads.accepts b with
  | some t => some t.target
  | none =>
    match a.transitions.find? fun t => t.source = q && t.reads = .other with
    | some t => some t.target
    | none => none

/-- The state after several bytes, if the automaton can move over all of them. -/
def run (a : Automaton) (q : Nat) : List UInt8 → Option Nat
  | [] => some q
  | b :: rest =>
    match a.next q b with
    | some p => a.run p rest
    | none => none

/-- Whether a state is final. -/
def isFinal (a : Automaton) (q : Nat) : Bool := a.finals.contains q

end Automaton

end Mgol
