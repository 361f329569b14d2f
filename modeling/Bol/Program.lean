/-
# Programs as trees

Expressions, statements and programs. Trees come from reading text, but they may also be made by
hand, so an operator may have any spelling, a line may be missing, and a node of another sort may
stand where an expression or a statement belongs (`misplaced`). Running such a tree is a fault,
not a failure of the types.
-/

namespace Bol

/-- Operators between two operands. -/
inductive BinaryOp
  | add | sub | mul | div
  | equal | notEqual | less | greater | lessEqual | greaterEqual
  | and | or
  /-- A spelling that is no operator of the language. -/
  | other (spelling : String)
  deriving DecidableEq, Repr

namespace BinaryOp

def spelling : BinaryOp → String
  | add => "+"
  | sub => "-"
  | mul => "*"
  | div => "/"
  | equal => "=="
  | notEqual => "!="
  | less => "<"
  | greater => ">"
  | lessEqual => "<="
  | greaterEqual => ">="
  | and => "ani"
  | or => "kinva"
  | other spelling => spelling

/-- The operators of the language. -/
def all : List BinaryOp :=
  [add, sub, mul, div, equal, notEqual, less, greater, lessEqual, greaterEqual, and, or]

/-- The operator with a given spelling. -/
def ofSpelling (spelling : String) : BinaryOp :=
  (all.find? (·.spelling == spelling)).getD (other spelling)

end BinaryOp

/-- Operators before one operand. -/
inductive UnaryOp
  | negate | not
  /-- A spelling that is no operator of the language. -/
  | other (spelling : String)
  deriving DecidableEq, Repr

namespace UnaryOp

def spelling : UnaryOp → String
  | negate => "-"
  | not => "nahi"
  | other spelling => spelling

/-- The operator with a given spelling. -/
def ofSpelling (spelling : String) : UnaryOp :=
  ([negate, not].find? (·.spelling == spelling)).getD (other spelling)

end UnaryOp

/-- Expressions. -/
inductive Expr
  | number (value : Float)
  | string (value : String)
  | boolean (value : Bool)
  | null
  | name (name : String)
  | binary (op : BinaryOp) (left right : Expr)
  | unary (op : UnaryOp) (operand : Expr)
  | call (callee : String) (args : List Expr)
  /-- A node that is no expression, known by the name of its sort. -/
  | misplaced (sort : String)
  deriving Inhabited

mutual

/-- Statements, with the line they start on. -/
inductive Stmt
  | declare (name : String) (value : Expr) (line : Option Int)
  | assign (name : String) (value : Expr) (line : Option Int)
  | print (value : Expr) (line : Option Int)
  | ifThen (condition : Expr) (body : List Stmt) (alternative : Alternative) (line : Option Int)
  | whileDo (condition : Expr) (body : List Stmt) (line : Option Int)
  | breakLoop (line : Option Int)
  | continueLoop (line : Option Int)
  | function (name : String) (params : List String) (body : List Stmt) (line : Option Int)
  | returnValue (value : Option Expr) (line : Option Int)
  /-- A node that is no statement, known by the name of its sort. -/
  | misplaced (sort : String)

/-- What is left to try when the condition of an `ifThen` does not hold. -/
inductive Alternative
  | nothing
  | otherwise (body : List Stmt)
  | elseIf (condition : Expr) (body : List Stmt) (next : Alternative)

end

instance : Inhabited Stmt := ⟨.breakLoop none⟩
instance : Inhabited Alternative := ⟨.nothing⟩

/-- The alternative that tries `clauses` in order and then `last`. -/
def Alternative.ofClauses (clauses : List (Expr × List Stmt)) (last : Option (List Stmt)) :
    Alternative :=
  clauses.foldr (fun clause next => .elseIf clause.1 clause.2 next)
    (match last with
      | some body => .otherwise body
      | none => .nothing)

/-- The line a statement starts on, if it is known. -/
def Stmt.line : Stmt → Option Int
  | .declare _ _ line | .assign _ _ line | .print _ line | .ifThen _ _ _ line
  | .whileDo _ _ line | .breakLoop line | .continueLoop line | .function _ _ _ line
  | .returnValue _ line => line
  | .misplaced _ => none

/-- Whether a statement declares a function. -/
def Stmt.isFunction : Stmt → Bool
  | .function .. => true
  | _ => false

/-- A program: the statements between its markers, or those of a fragment without markers. -/
structure Program where
  statements : List Stmt

end Bol
