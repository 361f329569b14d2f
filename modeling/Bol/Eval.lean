/-
# Running programs

Expressions evaluate to values, statements run to signals: a statement ends normally, or asks to
leave or to go on with the loop around it, or to return from the function around it.

`depth` bounds how deeply evaluation may be nested, in the tree and in calls; a run that exhausts
it stops as `tooDeep`. `patience` bounds the rounds of a single loop; a run that exhausts it stops
as `unfinished`, which says nothing about whether the loop would have ended.
-/

import Bol.Operator
import Bol.State

namespace Bol

/-- How a statement or a list of statements ends. -/
inductive Signal
  | normal
  | broke
  | continued
  | returned (value : Value)
  deriving Inhabited

/-- The fault of a signal that nothing around it takes. -/
def Signal.strayFault? : Signal → Option Fault
  | normal => none
  | broke => some .breakOutsideLoop
  | continued => some .continueOutsideLoop
  | returned _ => some .returnOutsideFunction

namespace Run

def ofExcept {α : Type} : Except Fault α → Run α
  | .ok value => pure value
  | .error fault => fail fault

/-- A condition after the given keyword. -/
def condition (keyword : TokenKind) (value : Value) : Run Bool :=
  match value with
  | .boolean value => pure value
  | value => fail (.conditionType keyword value)

/-- An operand of `ani` or `kinva`. -/
def logicalOperand (op : BinaryOp) (value : Value) : Run Bool :=
  match value with
  | .boolean value => pure value
  | value => fail (.logicalOperand op value)

/-- The function that a name in sight is bound to. -/
def lookupFunction (callee : String) : Run Function := do
  match ← lookup callee with
  | .function function => return function
  | _ => fail (.notFunction callee)

/-- Runs statements in order up to the first one that does not end normally. -/
def statements (exec : Stmt → Run Signal) : List Stmt → Run Signal
  | [] => return .normal
  | first :: rest => do
    match ← exec first with
    | .normal => statements exec rest
    | signal => return signal

/-- Runs what follows a condition that does not hold. -/
def alternative (eval : Expr → Run Value) (body : List Stmt → Run Signal) :
    Alternative → Run Signal
  | .nothing => return .normal
  | .otherwise block => body block
  | .elseIf test block next => do
    if ← condition .elseIf (← eval test) then body block else alternative eval body next

/-- Repeats `body` as long as `test` holds and nothing leaves the loop. -/
def loop (test : Run Bool) (body : Run Signal) : (patience : Nat) → Run Signal
  | 0 => throw .unfinished
  | patience + 1 => do
    if ← test then
      match ← body with
      | .broke => return .normal
      | .returned value => return .returned value
      | .normal | .continued => loop test body patience
    else return .normal

/-- Declares the parameters of a call in order. -/
def bindParams : List (String × Value) → Run Unit
  | [] => return ()
  | (name, value) :: rest => do
    declare name value
    bindParams rest

/-- Calls a function with as many arguments as it has parameters. -/
def enter (exec : Stmt → Run Signal) (function : Function) (args : List Value) : Run Value :=
  inCall do
    bindParams (function.params.zip args)
    match ← statements exec function.body with
    | .normal => return .null
    | .returned value => return value
    | .broke => fail .breakOutsideLoop
    | .continued => fail .continueOutsideLoop

mutual

/-- Evaluates an expression. -/
def eval (patience : Nat) : (depth : Nat) → Expr → Run Value
  | 0, _ => throw .tooDeep
  | _ + 1, .number value => return .number value
  | _ + 1, .string value => return .string value
  | _ + 1, .boolean value => return .boolean value
  | _ + 1, .null => return .null
  | _ + 1, .name name => lookup name
  | depth + 1, .binary op left right => do
    match op.decisive? with
    | some decisive =>
      let first ← logicalOperand op (← eval patience depth left)
      if first = decisive then return .boolean first
      else return .boolean (← logicalOperand op (← eval patience depth right))
    | none =>
      let first ← eval patience depth left
      let second ← eval patience depth right
      ofExcept (op.apply first second)
  | depth + 1, .unary op operand => do
    let value ← eval patience depth operand
    ofExcept (op.apply value)
  | depth + 1, .call callee args => do
    let function ← lookupFunction callee
    let values ← args.mapM (eval patience depth)
    if values.length = function.params.length then
      enter (exec patience depth) function values
    else fail (.argumentCount callee function.params.length values.length)
  | _ + 1, .misplaced sort => fail (.unknownExpression sort)

/-- Runs a statement. -/
def exec (patience : Nat) : (depth : Nat) → Stmt → Run Signal
  | 0, _ => throw .tooDeep
  | depth + 1, .declare name value line => onLine line do
    declare name (← eval patience depth value)
    return .normal
  | depth + 1, .assign name value line => onLine line do
    assign name (← eval patience depth value)
    return .normal
  | depth + 1, .print value line => onLine line do
    print (← eval patience depth value).display
    return .normal
  | depth + 1, .ifThen test body otherwise line => onLine line do
    if ← condition .ifWord (← eval patience depth test) then
      inBlock (statements (exec patience depth) body)
    else
      alternative (eval patience depth)
        (fun block => inBlock (statements (exec patience depth) block)) otherwise
  | depth + 1, .whileDo test body line => onLine line do
    loop (do condition .whileWord (← eval patience depth test))
      (inBlock (statements (exec patience depth) body)) patience
  | _ + 1, .breakLoop _ => return .broke
  | _ + 1, .continueLoop _ => return .continued
  | _ + 1, .function name params body line => onLine line do
    declare name (.function (← newFunction name params body))
    return .normal
  | _ + 1, .returnValue none _ => return .returned .null
  | depth + 1, .returnValue (some value) line => onLine line do
    return .returned (← eval patience depth value)
  | _ + 1, .misplaced sort => fail (.unknownStatement sort)

end

/-- Runs the function declarations among the statements. -/
def declareFunctions (exec : Stmt → Run Signal) : List Stmt → Run Unit
  | [] => return ()
  | first :: rest => do
    if first.isFunction then
      let _ ← exec first
    declareFunctions exec rest

/-- Runs the statements that declare no functions. All of them have to end normally: nothing
around a whole program takes a signal. -/
def topLevel (exec : Stmt → Run Signal) : List Stmt → Run Unit
  | [] => return ()
  | first :: rest => do
    if first.isFunction then topLevel exec rest
    else
      match (← exec first).strayFault? with
      | none => topLevel exec rest
      | some fault => throw (.fault ⟨fault, first.line⟩)

end Run

/-- Runs a program: first every function declaration, so that functions can be called before the
place where they stand, then the other statements in order. -/
def Program.run (patience depth : Nat) (program : Program) : Run Unit := do
  Run.declareFunctions (Run.exec patience depth) program.statements
  Run.topLevel (Run.exec patience depth) program.statements

end Bol
