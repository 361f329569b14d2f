/-
# Programs part by part

When two programs are compared, an expression or a statement of the one stands against one of the
same sort of the other, and what is compared are their parts. `Matches` says that they have the same
names and related parts, and `Similar` leaves open which names, and which functions, stand for each
other.
-/

import Mathlib.Data.List.Forall2
import Bol.Operator

namespace Bol

/-- Faults that are reported with the same message and the same text. -/
structure Fault.Alike (fault fault' : Fault) : Prop where
  message : fault.message = fault'.message
  text : fault.text? = fault'.text?

theorem Fault.Alike.refl (fault : Fault) : fault.Alike fault := ⟨rfl, rfl⟩

/-- Expressions of one sort with the same operators, names and values and corresponding operands. -/
inductive Expr.Matches (E : Expr → Expr → Prop) : Expr → Expr → Prop
  | number {value : Float} : Matches E (.number value) (.number value)
  | string {value : String} : Matches E (.string value) (.string value)
  | boolean {value : Bool} : Matches E (.boolean value) (.boolean value)
  | null : Matches E .null .null
  | name {name : String} : Matches E (.name name) (.name name)
  | binary {op : BinaryOp} {left left' right right' : Expr} (hleft : E left left')
      (hright : E right right') : Matches E (.binary op left right) (.binary op left' right')
  | unary {op : UnaryOp} {operand operand' : Expr} (h : E operand operand') :
      Matches E (.unary op operand) (.unary op operand')
  | call {callee : String} {args args' : List Expr} (hargs : List.Forall₂ E args args') :
      Matches E (.call callee args) (.call callee args')
  | misplaced {sort : String} : Matches E (.misplaced sort) (.misplaced sort)

theorem optionRel_refl {α : Type} {rel : α → α → Prop} (h : ∀ a, rel a a) (found : Option α) :
    Option.Rel rel found found := by
  cases found with
  | none => exact .none
  | some a => exact .some (h a)

theorem Expr.Matches.refl {E : Expr → Expr → Prop} (hE : ∀ expr, E expr expr) (expr : Expr) :
    expr.Matches E expr := by
  cases expr with
  | number => exact .number
  | string => exact .string
  | boolean => exact .boolean
  | null => exact .null
  | name => exact .name
  | binary => exact .binary (hE _) (hE _)
  | unary => exact .unary (hE _)
  | call => exact .call (List.forall₂_same.mpr fun expr _ => hE expr)
  | misplaced => exact .misplaced

section

variable (E : Expr → Expr → Prop) (R : Stmt → Stmt → Prop)

/-- Alternatives with corresponding conditions and blocks. -/
inductive Alternative.Matches : Alternative → Alternative → Prop
  | nothing : Matches .nothing .nothing
  | otherwise {body body' : List Stmt} (hbody : List.Forall₂ R body body') :
      Matches (.otherwise body) (.otherwise body')
  | elseIf {test test' : Expr} {body body' : List Stmt} {next next' : Alternative}
      (htest : E test test') (hbody : List.Forall₂ R body body') (hnext : Matches next next') :
      Matches (.elseIf test body next) (.elseIf test' body' next')

/-- Statements of one sort with the same names and corresponding expressions and bodies, on any
lines. -/
inductive Stmt.Matches : Stmt → Stmt → Prop
  | declare {name : String} {value value' : Expr} {line line' : Option Int}
      (hvalue : E value value') : Matches (.declare name value line) (.declare name value' line')
  | assign {name : String} {value value' : Expr} {line line' : Option Int}
      (hvalue : E value value') : Matches (.assign name value line) (.assign name value' line')
  | print {value value' : Expr} {line line' : Option Int} (hvalue : E value value') :
      Matches (.print value line) (.print value' line')
  | ifThen {test test' : Expr} {body body' : List Stmt} {otherwise otherwise' : Alternative}
      {line line' : Option Int} (htest : E test test') (hbody : List.Forall₂ R body body')
      (hotherwise : otherwise.Matches E R otherwise') :
      Matches (.ifThen test body otherwise line) (.ifThen test' body' otherwise' line')
  | whileDo {test test' : Expr} {body body' : List Stmt} {line line' : Option Int}
      (htest : E test test') (hbody : List.Forall₂ R body body') :
      Matches (.whileDo test body line) (.whileDo test' body' line')
  | breakLoop {line line' : Option Int} : Matches (.breakLoop line) (.breakLoop line')
  | continueLoop {line line' : Option Int} : Matches (.continueLoop line) (.continueLoop line')
  | function {name : String} {params : List String} {body body' : List Stmt}
      {line line' : Option Int} (hbody : List.Forall₂ R body body') :
      Matches (.function name params body line) (.function name params body' line')
  | returnValue {value value' : Option Expr} {line line' : Option Int}
      (hvalue : Option.Rel E value value') :
      Matches (.returnValue value line) (.returnValue value' line')
  | misplaced {sort : String} : Matches (.misplaced sort) (.misplaced sort)

variable {E R}

theorem Stmt.Matches.isFunction_eq {stmt stmt' : Stmt} (h : stmt.Matches E R stmt') :
    stmt.isFunction = stmt'.isFunction := by
  cases h <;> rfl

variable (hE : ∀ expr, E expr expr) (hR : ∀ stmt, R stmt stmt)
include hE hR

/-- Statements match themselves if their parts do. -/
theorem Alternative.Matches.refl (alternative : Alternative) :
    alternative.Matches E R alternative := by
  match alternative with
  | .nothing => exact .nothing
  | .otherwise _ => exact .otherwise (List.forall₂_same.mpr fun stmt _ => hR stmt)
  | .elseIf test _ next =>
      exact .elseIf (hE test) (List.forall₂_same.mpr fun stmt _ => hR stmt)
        (Alternative.Matches.refl next)

theorem Stmt.Matches.refl (stmt : Stmt) : stmt.Matches E R stmt := by
  have hbody : ∀ body, List.Forall₂ R body body :=
    fun body => List.forall₂_same.mpr fun stmt _ => hR stmt
  cases stmt with
  | declare => exact .declare (hE _)
  | assign => exact .assign (hE _)
  | print => exact .print (hE _)
  | ifThen test body otherwise => exact .ifThen (hE test) (hbody body) (.refl hE hR otherwise)
  | whileDo test body => exact .whileDo (hE test) (hbody body)
  | breakLoop => exact .breakLoop
  | continueLoop => exact .continueLoop
  | function _ _ body => exact .function (hbody body)
  | returnValue value => exact .returnValue (optionRel_refl hE value)
  | misplaced => exact .misplaced

end

/-- What an operator makes of functions depends on how they are shown and told apart. -/
theorem BinaryOp.apply_of_function {op : BinaryOp} {left right : Value}
    (h : left.type = .function ∨ right.type = .function) :
    op.apply left right =
      match op with
      | .add => .ok (.string (left.display ++ right.display))
      | .equal => .ok (.boolean (left.equal right))
      | .notEqual => .ok (.boolean (!left.equal right))
      | _ => .error (.operandTypes op left.type right.type) := by
  cases left <;> cases right <;> first | rfl | (simp [Value.type] at h)

/-- Functions that the language shows and calls alike: the same name, the same parameters and
corresponding bodies. -/
structure Function.Matches (R : Stmt → Stmt → Prop) (function function' : Function) : Prop where
  name : function.name = function'.name
  params : function.params = function'.params
  body : List.Forall₂ R function.body function'.body

/-! ## Other names -/

/-- Expressions of one sort with the same operators and values, related names and related operands.
-/
inductive Expr.Similar (N : String → String → Prop) (E : Expr → Expr → Prop) : Expr → Expr → Prop
  | number {value : Float} : Similar N E (.number value) (.number value)
  | string {value : String} : Similar N E (.string value) (.string value)
  | boolean {value : Bool} : Similar N E (.boolean value) (.boolean value)
  | null : Similar N E .null .null
  | name {name name' : String} (hname : N name name') : Similar N E (.name name) (.name name')
  | binary {op : BinaryOp} {left left' right right' : Expr} (hleft : E left left')
      (hright : E right right') : Similar N E (.binary op left right) (.binary op left' right')
  | unary {op : UnaryOp} {operand operand' : Expr} (h : E operand operand') :
      Similar N E (.unary op operand) (.unary op operand')
  | call {callee callee' : String} {args args' : List Expr} (hcallee : N callee callee')
      (hargs : List.Forall₂ E args args') : Similar N E (.call callee args) (.call callee' args')
  | misplaced {sort : String} : Similar N E (.misplaced sort) (.misplaced sort)

/-- Statements of one sort with related names, expressions and bodies, on any lines. A function
keeps its own name; what may stand for its parameters and its body is left to `F`. -/
inductive Stmt.Similar (N : String → String → Prop) (E : Expr → Expr → Prop)
    (R : Stmt → Stmt → Prop) (F : List String → List Stmt → List String → List Stmt → Prop) :
    Stmt → Stmt → Prop
  | declare {name name' : String} {value value' : Expr} {line line' : Option Int}
      (hname : N name name') (hvalue : E value value') :
      Similar N E R F (.declare name value line) (.declare name' value' line')
  | assign {name name' : String} {value value' : Expr} {line line' : Option Int}
      (hname : N name name') (hvalue : E value value') :
      Similar N E R F (.assign name value line) (.assign name' value' line')
  | print {value value' : Expr} {line line' : Option Int} (hvalue : E value value') :
      Similar N E R F (.print value line) (.print value' line')
  | ifThen {test test' : Expr} {body body' : List Stmt} {otherwise otherwise' : Alternative}
      {line line' : Option Int} (htest : E test test') (hbody : List.Forall₂ R body body')
      (hotherwise : otherwise.Matches E R otherwise') :
      Similar N E R F (.ifThen test body otherwise line) (.ifThen test' body' otherwise' line')
  | whileDo {test test' : Expr} {body body' : List Stmt} {line line' : Option Int}
      (htest : E test test') (hbody : List.Forall₂ R body body') :
      Similar N E R F (.whileDo test body line) (.whileDo test' body' line')
  | breakLoop {line line' : Option Int} : Similar N E R F (.breakLoop line) (.breakLoop line')
  | continueLoop {line line' : Option Int} :
      Similar N E R F (.continueLoop line) (.continueLoop line')
  | function {name : String} {params params' : List String} {body body' : List Stmt}
      {line line' : Option Int} (hname : N name name) (hfunction : F params body params' body') :
      Similar N E R F (.function name params body line) (.function name params' body' line')
  | returnValue {value value' : Option Expr} {line line' : Option Int}
      (hvalue : Option.Rel E value value') :
      Similar N E R F (.returnValue value line) (.returnValue value' line')
  | misplaced {sort : String} : Similar N E R F (.misplaced sort) (.misplaced sort)

section

variable {N : String → String → Prop} {E : Expr → Expr → Prop} {R : Stmt → Stmt → Prop}
  {F : List String → List Stmt → List String → List Stmt → Prop}

theorem Stmt.Similar.isFunction_eq {stmt stmt' : Stmt} (h : stmt.Similar N E R F stmt') :
    stmt.isFunction = stmt'.isFunction := by
  cases h <;> rfl

/-- Expressions that match are similar, all names being the same. -/
theorem Expr.Matches.similar {expr expr' : Expr} (h : expr.Matches E expr') :
    expr.Similar Eq E expr' := by
  cases h with
  | number => exact .number
  | string => exact .string
  | boolean => exact .boolean
  | null => exact .null
  | name => exact .name rfl
  | binary hleft hright => exact .binary hleft hright
  | unary hoperand => exact .unary hoperand
  | call hargs => exact .call rfl hargs
  | misplaced => exact .misplaced

theorem Stmt.Matches.similar {stmt stmt' : Stmt} (h : stmt.Matches E R stmt')
    (hF : ∀ params body body', List.Forall₂ R body body' → F params body params body') :
    stmt.Similar Eq E R F stmt' := by
  cases h with
  | declare hvalue => exact .declare rfl hvalue
  | assign hvalue => exact .assign rfl hvalue
  | print hvalue => exact .print hvalue
  | ifThen htest hbody hotherwise => exact .ifThen htest hbody hotherwise
  | whileDo htest hbody => exact .whileDo htest hbody
  | breakLoop => exact .breakLoop
  | continueLoop => exact .continueLoop
  | function hbody => exact .function rfl (hF _ _ _ hbody)
  | returnValue hvalue => exact .returnValue hvalue
  | misplaced => exact .misplaced

end

end Bol
