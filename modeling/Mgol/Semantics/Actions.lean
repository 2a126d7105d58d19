import Mgol.Semantics.Context
import Mgol.Target.Literal

/-! # The semantic actions of MGol

What each rule of the language means: declarations give names their types, expressions compute
temporaries, and statements write lines of the program.

* **`mgolActions`** — the action of each rule. -/

namespace Mgol

open Target

namespace SemanticAction

/-- The value of an expression in error. -/
def unresolved : Token := ⟨.nonterminal, "", .untyped⟩

/-- A value with the lexeme and type of another. -/
def valueOf (t : Token) : Token := ⟨.nonterminal, t.lexeme, t.type⟩

/-- A comparison in C. -/
def cRelational (operator : String) : String :=
  if operator = "=" then "==" else if operator = "<>" then "!=" else operator

/-! ## Declarations -/

/-- The type that a type keyword names. -/
def keywordType : TokenClass → DataType
  | .keyword .inteiro => .integer
  | .keyword .real => .real
  | .keyword .literal => .literal
  | _ => .untyped

/-- A type keyword begins a declaration. -/
def declaredType : SemanticAction := fun r c =>
  r.withToken 0 c fun keyword =>
    let type := keywordType keyword.kind
    (.ok ⟨.nonterminal, keyword.lexeme, type⟩,
     { c with work := { c.work with pendingType := type } })

/-- A name in a declaration gets its type. -/
def declareIdentifier : SemanticAction := fun r c =>
  r.withToken 0 c fun id =>
    match c.declare id (r.positionOf 0) with
    | .error e => (.error e, c)
    | .ok c => (.ok r.empty, c)

/-- The context after a declaration. -/
def endDeclaration (c : ActionContext) : ActionContext :=
  { c with work := { c.work with pendingNames := [], pendingType := .untyped } }

/-- A declaration declares its new names in C. -/
def declaration : SemanticAction := fun r c =>
  r.withToken 0 c fun declared =>
    let names := c.work.pendingNames
    let c := endDeclaration c
    (.ok r.empty,
     if declared.type = .untyped ∨ names.isEmpty then c
     else c.emit (.declare declared.type names))

/-! ## Input and output -/

/-- Reads a variable. -/
def readStatement : SemanticAction := fun r c =>
  r.withToken 1 c fun id =>
    let (type, c) := c.lookup id (r.positionOf 1)
    (.ok r.empty, if type = .untyped then c else c.emit (.read type id.lexeme))

/-- Writes a value of a type, if it has one. -/
def writeValue (r : Reduction) (type : DataType) (operand : String) (c : ActionContext) :
    ActionResult :=
  (.ok r.empty, if type = .untyped then c else c.emit (.write type operand))

/-- Writes a literal constant, a variable or a number. -/
def writeStatement : SemanticAction := fun r c =>
  r.withToken 1 c fun argument =>
    match argument.kind with
    | .literal => (.ok r.empty, c.emit (.writeText (cLiteral argument.lexeme)))
    | .identifier =>
      let (type, c) := c.lookup argument (r.positionOf 1)
      writeValue r type argument.lexeme c
    | _ => writeValue r argument.type argument.lexeme c

/-- The value of the only symbol. -/
def passThrough : SemanticAction := fun r c => r.withToken 0 c fun t => (.ok t, c)

/-! ## Expressions and assignments -/

/-- The text of a mismatch between a target and a value. -/
def assignmentMessage (value id : Token) (target : DataType) : String :=
  "Cannot assign " ++ value.type.text ++ " value '" ++ value.lexeme ++ "' to '" ++ id.lexeme
    ++ "' of type " ++ target.text

/-- Assigns a value to a variable of its type. -/
def assignment : SemanticAction := fun r c =>
  r.withToken 0 c fun id =>
    r.withToken 2 c fun value =>
      let (target, c) := c.lookup id (r.positionOf 0)
      (.ok r.empty,
       if target = .untyped ∨ value.type = .untyped then c
       else if target ≠ value.type then
         c.report .assignmentTypeMismatch (assignmentMessage value id target) (r.positionOf 0)
           id.lexeme
       else if target = .literal then c.emit (.copy id.lexeme value.lexeme)
       else c.emit (.assign id.lexeme value.lexeme))

/-- The text of a mismatch between operands. -/
def mismatchMessage (left operator right : Token) : String :=
  "Operands of '" ++ operator.lexeme ++ "' have different types: '" ++ left.lexeme ++ "' is "
    ++ left.type.text ++ ", '" ++ right.lexeme ++ "' is " ++ right.type.text

/-- Goes on with two operands of one type and their operator. Operands without a type have been
reported before; operands of different types are reported here. -/
@[inline] def withOperands (r : Reduction) (c : ActionContext)
    (next : Token → Token → Token → ActionContext → ActionResult) : ActionResult :=
  r.withToken 0 c fun left =>
    r.withToken 1 c fun operator =>
      r.withToken 2 c fun right =>
        if left.type = .untyped ∨ right.type = .untyped then (.ok unresolved, c)
        else if left.type ≠ right.type then
          (.ok unresolved,
           c.report .typeMismatch (mismatchMessage left operator right) (r.positionOf 0)
             operator.lexeme)
        else next left operator right c

/-- Goes on with a new temporary. -/
@[inline] def withTemporary (kind : TemporaryKind) (c : ActionContext)
    (next : String → ActionContext → ActionResult) : ActionResult :=
  if c.work.code.isFull then (.error (.tooManyTemporaries Limits.temporaries), c)
  else
    let name := c.work.code.nextTemporary
    next name (c.addTemporary kind)

/-- An arithmetic expression computes a temporary of the type of its operands. -/
def arithmetic : SemanticAction := fun r c =>
  withOperands r c fun left operator right c =>
    match TemporaryKind.ofArithmetic? left.type with
    | none =>
      (.ok unresolved,
       c.report .literalInArithmetic
         ("Operator '" ++ operator.lexeme ++ "' cannot be applied to literal operands")
         (r.positionOf 0) operator.lexeme)
    | some kind =>
      withTemporary kind c fun name c =>
        (.ok ⟨.nonterminal, name, left.type⟩,
         c.emit (.compute name left.lexeme operator.lexeme right.lexeme))

/-- The context that has forgotten the latest comparison. -/
def forgetRelational (c : ActionContext) : ActionContext :=
  { c with work := { c.work with lastRelational := none } }

/-- The context that has written a comparison and keeps it for a loop. -/
def keepRelational (c : ActionContext) (s : Statement) : ActionContext :=
  let c := c.emit s
  { c with work := { c.work with lastRelational := some s } }

/-- A comparison computes a truth value. -/
def relational : SemanticAction := fun r c =>
  withOperands r (forgetRelational c) fun left operator right c =>
    withTemporary .truth c fun name c =>
      (.ok ⟨.nonterminal, name, TemporaryKind.truth.dataType⟩,
       keepRelational c
         (.compute name left.lexeme (cRelational operator.lexeme) right.lexeme))

/-- An operand or a number as an expression. -/
def operandValue : SemanticAction := fun r c =>
  r.withToken 0 c fun operand => (.ok (valueOf operand), c)

/-- A name as an operand has the type it was declared with. -/
def identifierOperand : SemanticAction := fun r c =>
  r.withToken 0 c fun id =>
    let (type, c) := c.lookup id (r.positionOf 0)
    (.ok ⟨.nonterminal, id.lexeme, type⟩, c)

/-! ## Conditionals and loops -/

/-- Opens a conditional. -/
def openConditional : SemanticAction := fun r c =>
  r.withToken 2 c fun condition => (.ok r.empty, c.openBlock (.ifHolds condition.lexeme))

/-- Closes a conditional. -/
def closeConditional : SemanticAction := fun r c => (.ok r.empty, c.closeBlock)

/-- The context inside a loop, which takes over the latest comparison. -/
def enterLoop (c : ActionContext) : ActionContext :=
  { c with work :=
    { c.work with
      openLoops := c.work.lastRelational :: c.work.openLoops
      lastRelational := none } }

/-- Opens a loop. -/
def openLoop : SemanticAction := fun r c =>
  r.withToken 2 c fun condition =>
    (.ok r.empty, enterLoop (c.openBlock (.whileHolds condition.lexeme)))

/-- The context outside a loop, at whose end its comparison was written again. -/
def leaveLoop (c : ActionContext) : ActionContext :=
  match c.work.openLoops with
  | [] => c
  | comparison :: outer =>
    let c := { c with work := { c.work with openLoops := outer } }
    match comparison with
    | some s => c.emit s
    | none => c

/-- Closes a loop, which ends by computing its condition anew. -/
def closeLoop : SemanticAction := fun r c => (.ok r.empty, (leaveLoop c).closeBlock)

end SemanticAction

open SemanticAction in
/-- **The action of each rule of MGol**, by the number of the rule. -/
def mgolActions : Nat → Option SemanticAction
  | 6 => some declaration
  | 7 => some declareIdentifier
  | 8 => some declareIdentifier
  | 9 => some declaredType
  | 10 => some declaredType
  | 11 => some declaredType
  | 13 => some readStatement
  | 14 => some writeStatement
  | 15 => some passThrough
  | 16 => some passThrough
  | 17 => some passThrough
  | 19 => some assignment
  | 20 => some arithmetic
  | 21 => some operandValue
  | 22 => some identifierOperand
  | 23 => some operandValue
  | 25 => some closeConditional
  | 26 => some openConditional
  | 27 => some relational
  | 33 => some closeLoop
  | 34 => some openLoop
  | _ => none

end Mgol
