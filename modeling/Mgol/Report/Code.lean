/-! # Codes

Every error and every milestone has a code, and a register says of each code what it belongs to,
how grave it is and what to do about it.

* **`Code`** — a code by its text; the codes of this compiler are constants of it.
* **`CodeEntry`, `Code.register`** — what is known of a code.
* **`Code.entry?`** — the entry of a code; codes outside the register have neutral answers. -/

namespace Mgol

/-- **A code**, identified by its text. -/
structure Code where
  text : String
  deriving DecidableEq, Repr

/-- How grave a code is. -/
inductive Severity where
  | critical
  | high
  | medium
  | low
  deriving DecidableEq, Repr

/-- The name of a severity. -/
def Severity.text : Severity → String
  | critical => "Critical"
  | high => "High"
  | medium => "Medium"
  | low => "Low"

/-- **What the register says of a code.** -/
structure CodeEntry where
  code : Code
  category : String
  severity : Severity
  recoverable : Bool
  requiresHalt : Bool
  description : String
  action : String
  deriving DecidableEq, Repr

namespace Code

/-! ## The codes of the compiler -/

/-- An internal failure. -/
def internalError : Code := ⟨"E001"⟩

/-- Logging could not be set up. -/
def initializationFailure : Code := ⟨"E002"⟩

/-- The preferences could not be loaded. -/
def configurationError : Code := ⟨"E003"⟩

/-- The source file does not exist. -/
def fileNotFound : Code := ⟨"E005"⟩

/-- The source file has another extension. -/
def invalidExtension : Code := ⟨"E006"⟩

/-- The source file is too large. -/
def fileTooLarge : Code := ⟨"E007"⟩

/-- The source file is empty. -/
def emptyFile : Code := ⟨"E008"⟩

/-- The source file may not be read. -/
def permissionDenied : Code := ⟨"E009"⟩

/-- Reading the source file failed. -/
def ioError : Code := ⟨"E010"⟩

/-- The path is no regular file. -/
def invalidPath : Code := ⟨"E011"⟩

/-- The source file has too many lines. -/
def tooManyLines : Code := ⟨"E012"⟩

/-- The program could not be written. -/
def outputWriteFailed : Code := ⟨"E013"⟩

/-- A malformed number. -/
def invalidNumber : Code := ⟨"E020"⟩

/-- An unterminated literal. -/
def invalidLiteral : Code := ⟨"E021"⟩

/-- An unbalanced comment. -/
def invalidComment : Code := ⟨"E022"⟩

/-- Characters outside the language. -/
def invalidWord : Code := ⟨"E023"⟩

/-- The source broke off. -/
def sourceReadError : Code := ⟨"E024"⟩

/-- Too many tokens. -/
def tokenLimitExceeded : Code := ⟨"E025"⟩

/-- A lexeme past the limit. -/
def lexemeTooLong : Code := ⟨"E026"⟩

/-- Overlapping transitions. -/
def overlappingTransitions : Code := ⟨"E030"⟩

/-- A state that is not declared. -/
def unknownState : Code := ⟨"E031"⟩

/-- A token with no place here. -/
def unexpectedToken : Code := ⟨"E040"⟩

/-- The program does not begin as it must. -/
def missingProgramStart : Code := ⟨"E041"⟩

/-- A malformed declaration. -/
def malformedDeclaration : Code := ⟨"E042"⟩

/-- A malformed assignment. -/
def malformedAssignment : Code := ⟨"E043"⟩

/-- A malformed read or write. -/
def malformedIo : Code := ⟨"E044"⟩

/-- A malformed conditional. -/
def malformedConditional : Code := ⟨"E045"⟩

/-- A malformed loop. -/
def malformedLoop : Code := ⟨"E046"⟩

/-- Unbalanced parentheses. -/
def unbalancedParentheses : Code := ⟨"E047"⟩

/-- A missing semicolon. -/
def missingSemicolon : Code := ⟨"E048"⟩

/-- The input ends too early. -/
def unexpectedEndOfInput : Code := ⟨"E049"⟩

/-- The parse found no place to resume. -/
def recoveryFailed : Code := ⟨"E050"⟩

/-- A stack is full. -/
def stackOverflow : Code := ⟨"E051"⟩

/-- A stack is too short. -/
def stackUnderflow : Code := ⟨"E052"⟩

/-- The goto table lacks an entry. -/
def missingGoto : Code := ⟨"E053"⟩

/-- A malformed table. -/
def tableFormatError : Code := ⟨"E060"⟩

/-- A rule number without a rule. -/
def unknownRule : Code := ⟨"E061"⟩

/-- Two actions for one cell. -/
def grammarConflict : Code := ⟨"E062"⟩

/-- A malformed rule set. -/
def rulesFormatError : Code := ⟨"E063"⟩

/-- A table file could not be accessed. -/
def tableIoError : Code := ⟨"E064"⟩

/-- A symbol without a column. -/
def undefinedSymbol : Code := ⟨"E065"⟩

/-- A name without a declaration. -/
def undeclaredIdentifier : Code := ⟨"E080"⟩

/-- Operands of different types. -/
def typeMismatch : Code := ⟨"E081"⟩

/-- A value of another type than its target. -/
def assignmentTypeMismatch : Code := ⟨"E082"⟩

/-- Arithmetic on literals. -/
def literalInArithmetic : Code := ⟨"E083"⟩

/-- A name declared again. -/
def redeclaration : Code := ⟨"E084"⟩

/-- Too many temporaries. -/
def tooManyTemporaries : Code := ⟨"E085"⟩

/-- Too few values for a rule. -/
def valueStackUnderflow : Code := ⟨"E086"⟩

/-- A compilation without errors. -/
def compilationSucceeded : Code := ⟨"I001"⟩

/-- Logging is set up. -/
def loggingReady : Code := ⟨"I004"⟩

/-- A source file was loaded. -/
def fileLoaded : Code := ⟨"I006"⟩

/-- All tokens were read. -/
def tokenizationComplete : Code := ⟨"I020"⟩

/-- The scanner automaton was built. -/
def automatonConstructed : Code := ⟨"I030"⟩

/-- The parse accepted. -/
def parseAccepted : Code := ⟨"I040"⟩

/-- The parse resumed after an error. -/
def errorRecovered : Code := ⟨"I041"⟩

/-- Decision tables are ready. -/
def tablesConstructed : Code := ⟨"I060"⟩

/-- Semantic analysis ended. -/
def semanticAnalysisComplete : Code := ⟨"I080"⟩

/-- A program was generated. -/
def codeGenerated : Code := ⟨"I090"⟩

/-- A warning that has no code of its own. -/
def plainWarning : Code := ⟨"W000"⟩

/-- A piece of information that has no code of its own. -/
def plainInfo : Code := ⟨"I000"⟩

/-- A debugging note. -/
def plainDebug : Code := ⟨"D000"⟩

/-! ## The register -/

/-- Everything known of the codes, in ascending order. -/
def register : List CodeEntry :=
  [⟨internalError, "System", .critical, false, true,
    "Internal compiler error",
    "File a bug report with the failing input"⟩,
   ⟨initializationFailure, "System", .critical, false, true,
    "Logging or session initialization failed",
    "Check runtime configuration"⟩,
   ⟨configurationError, "System", .high, false, true,
    "Runtime configuration could not be loaded",
    "Fix the preferences file or environment"⟩,
   ⟨fileNotFound, "FileProcessing", .high, false, true,
    "Source file not found",
    "Check the input path"⟩,
   ⟨invalidExtension, "FileProcessing", .medium, false, true,
    "Source file does not have the .mgol extension",
    "Rename the file or disable the extension check"⟩,
   ⟨fileTooLarge, "FileProcessing", .high, false, true,
    "Source file exceeds the configured size limit",
    "Split the program or raise max_file_size"⟩,
   ⟨emptyFile, "FileProcessing", .medium, false, true,
    "Source file is empty",
    "Provide a program starting with 'inicio'"⟩,
   ⟨permissionDenied, "FileProcessing", .high, false, true,
    "Permission denied reading source file",
    "Check file permissions"⟩,
   ⟨ioError, "FileProcessing", .high, false, true,
    "I/O error while reading source file",
    "Check the file system"⟩,
   ⟨invalidPath, "FileProcessing", .medium, false, true,
    "Input path is not a regular file",
    "Pass a path to a source file"⟩,
   ⟨tooManyLines, "FileProcessing", .medium, false, true,
    "Source file has too many lines",
    "Split the program or raise max_line_count"⟩,
   ⟨outputWriteFailed, "FileProcessing", .high, false, true,
    "Generated code could not be written",
    "Check the output path"⟩,
   ⟨invalidNumber, "Lexical", .medium, true, false,
    "Malformed numeric constant",
    "Write digits with an optional fraction and exponent, e.g. 3.5e2"⟩,
   ⟨invalidLiteral, "Lexical", .medium, true, false,
    "Unterminated literal constant",
    "Close the literal with a double quote"⟩,
   ⟨invalidComment, "Lexical", .medium, true, false,
    "Unterminated or unbalanced comment",
    "Close the comment with '\x7d'"⟩,
   ⟨invalidWord, "Lexical", .medium, true, false,
    "Character sequence is not part of the language",
    "Remove or replace the offending characters"⟩,
   ⟨sourceReadError, "Lexical", .critical, false, true,
    "Source stream could not be read",
    "Check the input source"⟩,
   ⟨tokenLimitExceeded, "Lexical", .high, false, true,
    "Token count limit exceeded",
    "Split the program or raise max_token_count"⟩,
   ⟨lexemeTooLong, "Lexical", .medium, true, false,
    "Lexeme exceeds the maximum length",
    "Shorten the identifier, literal, or comment"⟩,
   ⟨overlappingTransitions, "Automaton", .critical, false, true,
    "Automaton has overlapping transitions",
    "Fix the transition table"⟩,
   ⟨unknownState, "Automaton", .critical, false, true,
    "Automaton references an undefined state",
    "Fix the transition table"⟩,
   ⟨unexpectedToken, "Syntax", .high, true, false,
    "Unexpected token",
    "Check the statement structure near this token"⟩,
   ⟨missingProgramStart, "Syntax", .high, true, false,
    "Program must begin with 'inicio'",
    "Start the program with 'inicio'"⟩,
   ⟨malformedDeclaration, "Syntax", .high, true, false,
    "Malformed variable declaration",
    "Use 'TYPE id, id;' inside varinicio/varfim"⟩,
   ⟨malformedAssignment, "Syntax", .high, true, false,
    "Malformed assignment or expression",
    "Use 'id <- operand op operand;'"⟩,
   ⟨malformedIo, "Syntax", .high, true, false,
    "Malformed read or write statement",
    "Use 'leia id;' or 'escreva arg;'"⟩,
   ⟨malformedConditional, "Syntax", .high, true, false,
    "Malformed conditional",
    "Use 'se (a op b) entao ... fimse'"⟩,
   ⟨malformedLoop, "Syntax", .high, true, false,
    "Malformed loop",
    "Use 'repita (a op b) ... fimrepita'"⟩,
   ⟨unbalancedParentheses, "Syntax", .high, true, false,
    "Unbalanced parentheses",
    "Close every '(' with ')'"⟩,
   ⟨missingSemicolon, "Syntax", .high, true, false,
    "Missing semicolon",
    "Terminate the statement with ';'"⟩,
   ⟨unexpectedEndOfInput, "Syntax", .high, true, false,
    "Unexpected end of input",
    "Terminate the program with 'fim'"⟩,
   ⟨recoveryFailed, "Syntax", .critical, false, true,
    "Parser could not resynchronize before end of input",
    "Fix the first reported syntax error"⟩,
   ⟨stackOverflow, "Syntax", .critical, false, true,
    "Parser stack capacity exceeded",
    "Reduce nesting or raise the stack capacity"⟩,
   ⟨stackUnderflow, "Syntax", .critical, false, true,
    "Parser stack underflow",
    "Check the decision tables for an inconsistent reduce"⟩,
   ⟨missingGoto, "Syntax", .critical, false, true,
    "Goto table has no entry after reduce",
    "Check the goto table"⟩,
   ⟨tableFormatError, "Grammar", .critical, false, true,
    "Decision table file is malformed",
    "Fix the table file"⟩,
   ⟨unknownRule, "Grammar", .critical, false, true,
    "Action references an unknown rule",
    "Check the rule numbers in the action table"⟩,
   ⟨grammarConflict, "Grammar", .critical, false, true,
    "Grammar is not SLR(1)",
    "Resolve the shift/reduce or reduce/reduce conflict"⟩,
   ⟨rulesFormatError, "Grammar", .critical, false, true,
    "Rule set file is malformed",
    "Fix the rule JSON"⟩,
   ⟨tableIoError, "Grammar", .critical, false, true,
    "Decision table file could not be read",
    "Check the table path"⟩,
   ⟨undefinedSymbol, "Grammar", .critical, false, true,
    "Rule references a symbol with no productions",
    "Add the missing productions"⟩,
   ⟨undeclaredIdentifier, "Semantic", .medium, true, false,
    "Identifier used before declaration",
    "Declare the variable between varinicio and varfim"⟩,
   ⟨typeMismatch, "Semantic", .medium, true, false,
    "Operand types differ",
    "Use operands of the same type"⟩,
   ⟨assignmentTypeMismatch, "Semantic", .medium, true, false,
    "Assigned value type differs from the variable type",
    "Assign a value of the declared type"⟩,
   ⟨literalInArithmetic, "Semantic", .medium, true, false,
    "Literal operand in arithmetic expression",
    "Use numeric operands in arithmetic"⟩,
   ⟨redeclaration, "Semantic", .medium, true, false,
    "Variable declared more than once",
    "Remove the duplicate declaration"⟩,
   ⟨tooManyTemporaries, "Semantic", .high, false, true,
    "Temporary variable limit exceeded",
    "Simplify the program or raise max_temporaries"⟩,
   ⟨valueStackUnderflow, "Semantic", .critical, false, true,
    "Semantic value stack underflow",
    "Check the rule lengths against the value stack"⟩,
   ⟨compilationSucceeded, "Success", .low, true, false,
    "Operation completed successfully",
    "No action required"⟩,
   ⟨loggingReady, "Success", .low, true, false,
    "System initialization completed",
    "No action required"⟩,
   ⟨fileLoaded, "Success", .low, true, false,
    "Source file loaded",
    "No action required"⟩,
   ⟨tokenizationComplete, "Success", .low, true, false,
    "Tokenization completed",
    "No action required"⟩,
   ⟨automatonConstructed, "Success", .low, true, false,
    "Automaton constructed",
    "No action required"⟩,
   ⟨parseAccepted, "Success", .low, true, false,
    "Input accepted by the parser",
    "No action required"⟩,
   ⟨errorRecovered, "Success", .low, true, false,
    "Parser resynchronized after a syntax error",
    "No action required"⟩,
   ⟨tablesConstructed, "Success", .low, true, false,
    "Decision tables constructed",
    "No action required"⟩,
   ⟨semanticAnalysisComplete, "Success", .low, true, false,
    "Semantic analysis completed",
    "No action required"⟩,
   ⟨codeGenerated, "Success", .low, true, false,
    "Target code generated",
    "No action required"⟩]

/-- **The entry of a code**, if the register has one. -/
def entry? (c : Code) : Option CodeEntry :=
  register.find? fun e => e.code = c

/-- The severity of a code; of an unknown one it is medium. -/
def severity (c : Code) : Severity :=
  match c.entry? with
  | some e => e.severity
  | none => .medium

/-- Whether work can go on after a code; after an unknown one it can. -/
def recoverable (c : Code) : Bool :=
  match c.entry? with
  | some e => e.recoverable
  | none => true

/-- Whether work has to stop at a code; at an unknown one it has not. -/
def requiresHalt (c : Code) : Bool :=
  match c.entry? with
  | some e => e.requiresHalt
  | none => false

/-- What a code means. -/
def description (c : Code) : String :=
  match c.entry? with
  | some e => e.description
  | none => "Unknown error"

/-- What to do about a code. -/
def action (c : Code) : String :=
  match c.entry? with
  | some e => e.action
  | none => "No specific action available"

/-- What a code belongs to. -/
def category (c : Code) : String :=
  match c.entry? with
  | some e => e.category
  | none => "Unknown"

end Code

end Mgol
