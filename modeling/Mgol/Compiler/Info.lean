import Mgol.Compiler.Basic

/-! # Facts about the compiler

* **`CompilerInfo`, `CompilerInfo.report`** — the facts that the help text shows.
* **`Compiler.isComplete`** — whether everything built into the compiler fits together. -/

namespace Mgol

/-- **The facts that the help text shows.** -/
structure CompilerInfo where
  ruleCount : Nat
  stateCount : Nat
  terminalCount : Nat
  deriving DecidableEq, Repr

namespace CompilerInfo

/-- The facts about tables. -/
def ofTables (t : DecisionTables) : CompilerInfo where
  ruleCount := t.rules.rules.length
  stateCount := t.stateCount
  terminalCount := t.actions.columns.length

/-- The facts about the tables of MGol. -/
def mgol : CompilerInfo := ofTables .mgol

/-- **The facts in lines.** -/
def lines (i : CompilerInfo) : List String :=
  ["MGol Compilation Pipeline:",
   "- Build Profile: " ++ Limits.profile ++ " (" ++ Limits.profileFile ++ ")",
   "- Grammar Rules: " ++ toString i.ruleCount,
   "- Parser States: " ++ toString i.stateCount,
   "- Terminals: " ++ toString i.terminalCount,
   "- Max File Size: " ++ toString Limits.fileSize ++ " bytes",
   "- Max Stack Depth: " ++ toString Limits.stackDepth,
   "- Source Extension: ." ++ sourceExtension]

/-- **The facts as a text.** -/
def report (i : CompilerInfo) : String := "\n".intercalate i.lines

end CompilerInfo

namespace Compiler

/-- The codes that files and lexemes are refused with. -/
def requiredCodes : List Code :=
  [.fileNotFound, .invalidExtension, .fileTooLarge, .emptyFile, .permissionDenied, .ioError,
   .invalidPath, .tooManyLines, .invalidNumber, .invalidLiteral, .invalidComment, .invalidWord,
   .sourceReadError, .tokenLimitExceeded, .lexemeTooLong]

/-- Whether the automaton of the scanner is deterministic and all its final states have a class. -/
def automatonFits : Bool :=
  let a := Lexicon.mgol.automaton
  match Automaton.ofTable a.states a.initial a.finals a.transitions with
  | .error _ => false
  | .ok a => (Lexicon.ofParts a Lexicon.mgol.classes).toOption.isSome

/-- **Whether everything built in fits together**: the codes are registered, the automaton is
deterministic, and rules and tables belong together. -/
def isComplete : Bool :=
  requiredCodes.all (fun c => c.entry?.isSome) && automatonFits
    && (DecisionTables.fault? .mgol).isNone

/-- The notes of a check of everything built in. -/
def checkNotes : List Note := [.validating, automatonNote, tablesNote .mgol]

end Compiler

end Mgol
