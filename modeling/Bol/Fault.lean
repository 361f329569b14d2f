/-
# Faults of a run

What a running program can do wrong. A fault is a cause; its wording and the text it blames are
functions of the cause. The line is that of the innermost statement that was running and whose
line is known.
-/

import Bol.Token
import Bol.Value

namespace Bol

/-- Why a run cannot go on. -/
inductive Fault
  /-- A declaration of a name that its scope holds already. -/
  | alreadyDeclared (name : String)
  /-- An assignment to a name that no scope holds. -/
  | assignUndeclared (name : String)
  /-- The use of a name that no scope holds. -/
  | undeclared (name : String)
  /-- A condition, after the given keyword, that is no boolean. -/
  | conditionType (keyword : TokenKind) (got : Value)
  | breakOutsideLoop
  | continueOutsideLoop
  | returnOutsideFunction
  /-- A call of a name that is bound to something else. -/
  | notFunction (callee : String)
  | argumentCount (callee : String) (expected got : Nat)
  | divisionByZero
  /-- An operator that does not apply to two booleans. -/
  | booleanOperands (op : BinaryOp)
  /-- An operator that does not apply to two values of these types. -/
  | operandTypes (op : BinaryOp) (left right : ValueType)
  /-- An operand of `ani` or `kinva` that is no boolean. -/
  | logicalOperand (op : BinaryOp) (got : Value)
  /-- An operand of `nahi` that is no boolean. -/
  | notOperand (got : Value)
  /-- An operand of a minus sign that is no number. -/
  | negateOperand (got : Value)
  | unknownUnary (op : UnaryOp)
  | unknownExpression (sort : String)
  | unknownStatement (sort : String)

namespace Fault

/-- A value as messages mention it: its type and how it is shown. -/
def shown (value : Value) : String := s!"{value.type.name} '{value.display}'"

def message : Fault → String
  | alreadyDeclared name => s!"'{name}' is already declared in this scope"
  | assignUndeclared name =>
    s!"'{name}' is not declared; declare it first with 'he ghe {name} = ...'"
  | undeclared name => s!"'{name}' is not declared"
  | conditionType keyword got =>
    s!"'{keyword.spelling}' needs a boolean condition, got {shown got}"
  | breakOutsideLoop => "'thamb' used outside of a loop"
  | continueOutsideLoop => "'pudhe ja' used outside of a loop"
  | returnOutsideFunction => "'parat' used outside of a function"
  | notFunction callee => s!"'{callee}' is not a function"
  | argumentCount callee expected got =>
    s!"'{callee}' expects {expected} argument(s) but got {got}"
  | divisionByZero => "division by zero"
  | booleanOperands op =>
    s!"'{op.spelling}' cannot be used on booleans; only '==' and '!=' can"
  | operandTypes op left right =>
    s!"'{op.spelling}' cannot be used on {left.name} and {right.name}"
  | logicalOperand op got => s!"'{op.spelling}' needs booleans, got {shown got}"
  | notOperand got => s!"'nahi' needs a boolean, got {shown got}"
  | negateOperand got => s!"unary '-' needs a number, got {shown got}"
  | unknownUnary op => s!"unknown unary operator '{op.spelling}'"
  | unknownExpression sort => s!"unknown expression '{sort}'"
  | unknownStatement sort => s!"unknown statement '{sort}'"

/-- The part of the source that a fault blames: a name or an operator, where there is one. -/
def text? : Fault → Option String
  | alreadyDeclared name | assignUndeclared name | undeclared name => some name
  | notFunction callee | argumentCount callee _ _ => some callee
  | operandTypes op _ _ | logicalOperand op _ => some op.spelling
  | _ => none

end Fault

/-- A fault and the line where it happened, if that is known. -/
structure RuntimeError where
  fault : Fault
  line : Option Int

/-- Why a run ends early. -/
inductive Stop
  | fault (error : RuntimeError)
  /-- The evaluation was nested more deeply than it may be. -/
  | tooDeep
  /-- A loop went on for longer than it was watched. -/
  | unfinished

end Bol
