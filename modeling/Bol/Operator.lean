/-
# Operators on values

What the operators make of their operands, once both are evaluated. Arithmetic and ordering are
for numbers, equality is for any two values, and `+` joins any other two values as text, unless
both are booleans. `ani` and `kinva` are not here: they do not evaluate both operands.
-/

import Bol.Fault

namespace Bol

/-- What an operator makes of two numbers. -/
def BinaryOp.onNumbers (op : BinaryOp) (a b : Float) : Except Fault Value :=
  match op with
  | .add => .ok (.number (a + b))
  | .sub => .ok (.number (a - b))
  | .mul => .ok (.number (a * b))
  | .div => if b == 0 then .error .divisionByZero else .ok (.number (a / b))
  | .less => .ok (.boolean (a < b))
  | .greater => .ok (.boolean (b < a))
  | .lessEqual => .ok (.boolean (a ≤ b))
  | .greaterEqual => .ok (.boolean (b ≤ a))
  | .equal => .ok (.boolean (a == b))
  | .notEqual => .ok (.boolean (!(a == b)))
  | .and | .or | .other _ => .error (.operandTypes op .number .number)

/-- What an operator makes of two booleans. -/
def BinaryOp.onBooleans (op : BinaryOp) (a b : Bool) : Except Fault Value :=
  match op with
  | .equal => .ok (.boolean (a == b))
  | .notEqual => .ok (.boolean (!(a == b)))
  | _ => .error (.booleanOperands op)

/-- What an operator makes of two values. -/
def BinaryOp.apply (op : BinaryOp) (left right : Value) : Except Fault Value :=
  match left, right with
  | .number a, .number b => op.onNumbers a b
  | .boolean a, .boolean b => op.onBooleans a b
  | left, right =>
    match op with
    | .add => .ok (.string (left.display ++ right.display))
    | .equal => .ok (.boolean (left.equal right))
    | .notEqual => .ok (.boolean (!left.equal right))
    | _ => .error (.operandTypes op left.type right.type)

/-- What an operator makes of one value. -/
def UnaryOp.apply (op : UnaryOp) (value : Value) : Except Fault Value :=
  match op, value with
  | .negate, .number a => .ok (.number (-a))
  | .negate, value => .error (.negateOperand value)
  | .not, .boolean a => .ok (.boolean !a)
  | .not, value => .error (.notOperand value)
  | .other _, _ => .error (.unknownUnary op)

/-- The first operand that settles `ani` or `kinva` by itself, if the operator is one of them. -/
def BinaryOp.decisive? : BinaryOp → Option Bool
  | .and => some false
  | .or => some true
  | _ => none

end Bol
