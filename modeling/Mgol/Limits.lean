/-! # Limits

The fixed bounds under which the compiler works. Each keeps one resource finite, so a hostile
source costs at most a known amount of memory and time. -/

namespace Mgol.Limits

/-- Name of the set of limits in force. -/
def profile : String := "development"

/-- Where the set of limits is described. -/
def profileFile : String := "config/development.toml"

/-- Largest source file, in bytes. -/
def fileSize : Nat := 10485760

/-- Most lines of a source file. -/
def lineCount : Nat := 200000

/-- Longest lexeme, in bytes. -/
def lexemeLength : Nat := 4096

/-- Most tokens one scanner hands out. -/
def tokenCount : Nat := 1000000

/-- Deepest parse stack. -/
def stackDepth : Nat := 10000

/-- Syntax errors kept in the error history. -/
def errorHistory : Nat := 256

/-- Tokens one recovery may drop. -/
def recoveryScans : Nat := 100000

/-- Most temporaries of one program. -/
def temporaries : Nat := 65536

/-- Semantic errors that are recorded; later ones are only counted. -/
def semanticErrors : Nat := 1000

/-- Size of the buffer behind a variable of type `literal`. -/
def literalBuffer : Nat := 256

/-- Events a log buffer keeps. -/
def logBuffer : Nat := 10000

/-- Events collected for one file; later ones are only counted. -/
def eventsPerFile : Nat := 1000

/-- Moves a parse may take before it is given up as endless. -/
def parseMoves : Nat := 1000000000000000000

end Mgol.Limits
