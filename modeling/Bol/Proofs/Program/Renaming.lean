/-
# Renaming a parameter

The name of a parameter may be replaced by another one throughout the function: in the parameter
list, and wherever the body uses the name or declares it, in blocks too. The functions that are
declared in the body have names of their own, so nothing is replaced in them, and none of them may
be called like the parameter. The other name must not be used in the function before.
-/

import Bol.Proofs.Run.Matching

namespace Bol

/-! ## Names in expressions and statements -/

mutual

/-- The expression with all its names replaced. -/
def Expr.rename (ρ : String → String) : Expr → Expr
  | .number value => .number value
  | .string value => .string value
  | .boolean value => .boolean value
  | .null => .null
  | .name used => .name (ρ used)
  | .binary op left right => .binary op (left.rename ρ) (right.rename ρ)
  | .unary op operand => .unary op (operand.rename ρ)
  | .call callee args => .call (ρ callee) (Expr.listRename ρ args)
  | .misplaced sort => .misplaced sort

def Expr.listRename (ρ : String → String) : List Expr → List Expr
  | [] => []
  | expr :: rest => expr.rename ρ :: Expr.listRename ρ rest

end

mutual

/-- The names that an expression uses. -/
def Expr.names : Expr → List String
  | .name used => [used]
  | .binary _ left right => left.names ++ right.names
  | .unary _ operand => operand.names
  | .call callee args => callee :: Expr.listNames args
  | .number _ | .string _ | .boolean _ | .null | .misplaced _ => []

def Expr.listNames : List Expr → List String
  | [] => []
  | expr :: rest => expr.names ++ Expr.listNames rest

end

mutual

/-- The statement with its names replaced, and those of the statements inside. The functions that it
declares stay as they are. -/
def Stmt.rename (ρ : String → String) : Stmt → Stmt
  | .declare name value line => .declare (ρ name) (value.rename ρ) line
  | .assign name value line => .assign (ρ name) (value.rename ρ) line
  | .print value line => .print (value.rename ρ) line
  | .ifThen condition body alternative line =>
    .ifThen (condition.rename ρ) (Stmt.listRename ρ body) (alternative.rename ρ) line
  | .whileDo condition body line => .whileDo (condition.rename ρ) (Stmt.listRename ρ body) line
  | .breakLoop line => .breakLoop line
  | .continueLoop line => .continueLoop line
  | .function name params body line => .function name params body line
  | .returnValue value line => .returnValue (value.map (Expr.rename ρ)) line
  | .misplaced sort => .misplaced sort

def Stmt.listRename (ρ : String → String) : List Stmt → List Stmt
  | [] => []
  | stmt :: rest => stmt.rename ρ :: Stmt.listRename ρ rest

def Alternative.rename (ρ : String → String) : Alternative → Alternative
  | .nothing => .nothing
  | .otherwise body => .otherwise (Stmt.listRename ρ body)
  | .elseIf condition body next =>
    .elseIf (condition.rename ρ) (Stmt.listRename ρ body) (next.rename ρ)

end

mutual

/-- The names that a statement uses or declares, and those of the statements inside. Of a function
that it declares that is the function's own name alone. -/
def Stmt.names : Stmt → List String
  | .declare name value _ | .assign name value _ => name :: value.names
  | .print value _ => value.names
  | .ifThen condition body alternative _ =>
    condition.names ++ Stmt.listNames body ++ alternative.names
  | .whileDo condition body _ => condition.names ++ Stmt.listNames body
  | .function name _ _ _ => [name]
  | .returnValue (some value) _ => value.names
  | .returnValue none _ | .breakLoop _ | .continueLoop _ | .misplaced _ => []

def Stmt.listNames : List Stmt → List String
  | [] => []
  | stmt :: rest => stmt.names ++ Stmt.listNames rest

def Alternative.names : Alternative → List String
  | .nothing => []
  | .otherwise body => Stmt.listNames body
  | .elseIf condition body next => condition.names ++ Stmt.listNames body ++ next.names

end

mutual

/-- The names of the functions that a statement declares, and those of the statements inside. -/
def Stmt.functionNames : Stmt → List String
  | .ifThen _ body alternative _ => Stmt.listFunctionNames body ++ alternative.functionNames
  | .whileDo _ body _ => Stmt.listFunctionNames body
  | .function name _ _ _ => [name]
  | .declare _ _ _ | .assign _ _ _ | .print _ _ | .returnValue _ _ | .breakLoop _
  | .continueLoop _ | .misplaced _ => []

def Stmt.listFunctionNames : List Stmt → List String
  | [] => []
  | stmt :: rest => stmt.functionNames ++ Stmt.listFunctionNames rest

def Alternative.functionNames : Alternative → List String
  | .nothing => []
  | .otherwise body => Stmt.listFunctionNames body
  | .elseIf _ body next => Stmt.listFunctionNames body ++ next.functionNames

end

/-! ## Replacing one function by another -/

/-- A function declaration, one of its parameters and another name for that parameter. -/
structure ParameterRenaming where
  name : String
  params : List String
  body : List Stmt
  line : Option Int
  old : String
  new : String
  old_mem_params : old ∈ params
  old_notMem_functionNames : old ∉ Stmt.listFunctionNames body
  new_notMem_params : new ∉ params
  new_notMem_names : new ∉ Stmt.listNames body

namespace ParameterRenaming

variable (r : ParameterRenaming)

/-- The name that stands for another one in the renamed function. -/
def replace (used : String) : String := if used = r.old then r.new else used

/-- The function declaration as it is. -/
def before : Stmt := .function r.name r.params r.body r.line

/-- The function declaration with its parameter renamed. -/
def after : Stmt :=
  .function r.name (r.params.map r.replace) (Stmt.listRename r.replace r.body) r.line

/-- Statements that are equal but for the one declaration, which may be replaced by the renamed one
wherever it stands. -/
inductive Replaced : Stmt → Stmt → Prop
  | same (stmt : Stmt) : Replaced stmt stmt
  | here : Replaced r.before r.after
  | inside {stmt stmt' : Stmt} (hparts : stmt.Matches Eq Replaced stmt')
      (hline : stmt.line = stmt'.line) : Replaced stmt stmt'

/-- Parameters and bodies of functions that are declared by such statements. -/
inductive Functions : List String → List Stmt → List String → List Stmt → Prop
  | inside {params : List String} {body body' : List Stmt}
      (hbody : List.Forall₂ r.Replaced body body') : Functions params body params body'
  | here : Functions r.params r.body (r.params.map r.replace) (Stmt.listRename r.replace r.body)

/-- Names other than the new one, and what stands for them in the renamed function. -/
def Names (used used' : String) : Prop := used ≠ r.new ∧ used' = r.replace used

/-- Expressions of the function, and what stands for them in the renamed one. -/
def Exprs (expr expr' : Expr) : Prop := r.new ∉ expr.names ∧ expr' = expr.rename r.replace

/-- Statements of the function, and what stands for them in the renamed one. -/
def Stmts (stmt stmt' : Stmt) : Prop :=
  (r.new ∉ stmt.names ∧ r.old ∉ stmt.functionNames) ∧ stmt' = stmt.rename r.replace

variable {r}

theorem Replaced.line_eq {stmt stmt' : Stmt} (h : r.Replaced stmt stmt') :
    stmt.line = stmt'.line := by
  cases h with
  | same => rfl
  | here => rfl
  | inside _ hline => exact hline

theorem Replaced.similar {stmt stmt' : Stmt} (h : r.Replaced stmt stmt') :
    stmt.Similar Eq Eq r.Replaced r.Functions stmt' := by
  cases h with
  | same => exact (Stmt.Matches.refl (fun _ => rfl) .same stmt).similar fun _ _ _ => .inside
  | here => exact .function rfl .here
  | inside hparts => exact hparts.similar fun _ _ _ => .inside

/-! ## The renamed function part by part -/

theorem replace_of_ne {used : String} (h : used ≠ r.old) : r.replace used = used := if_neg h

theorem replace_old : r.replace r.old = r.new := if_pos rfl

/-- Names are told apart in the renamed function where they are in the other. -/
theorem Names.eq_iff {used used' other other' : String} (h : r.Names used used')
    (hother : r.Names other other') : used = other ↔ used' = other' := by
  obtain ⟨hnew, rfl⟩ := h
  obtain ⟨hnew', rfl⟩ := hother
  unfold replace
  split <;> split <;> simp_all [eq_comm]

/-- A name stands for itself, or the new name for the old one. -/
theorem Names.cases {used used' : String} (h : r.Names used used') :
    used = used' ∨ used = r.old ∧ used' = r.new := by
  obtain ⟨-, rfl⟩ := h
  by_cases hold : used = r.old
  · exact .inr ⟨hold, hold ▸ replace_old⟩
  · exact .inl (replace_of_ne hold).symm

theorem forall₂_exprs {exprs : List Expr} (h : r.new ∉ Expr.listNames exprs) :
    List.Forall₂ r.Exprs exprs (Expr.listRename r.replace exprs) := by
  induction exprs with
  | nil => exact .nil
  | cons expr rest ih =>
      rw [Expr.listNames, List.mem_append, not_or] at h
      exact .cons ⟨h.1, rfl⟩ (ih h.2)

theorem forall₂_stmts {stmts : List Stmt} (hnew : r.new ∉ Stmt.listNames stmts)
    (hold : r.old ∉ Stmt.listFunctionNames stmts) :
    List.Forall₂ r.Stmts stmts (Stmt.listRename r.replace stmts) := by
  induction stmts with
  | nil => exact .nil
  | cons stmt rest ih =>
      rw [Stmt.listNames, List.mem_append, not_or] at hnew
      rw [Stmt.listFunctionNames, List.mem_append, not_or] at hold
      exact .cons ⟨⟨hnew.1, hold.1⟩, rfl⟩ (ih hnew.2 hold.2)

theorem forall₂_names {params : List String} (h : r.new ∉ params) :
    List.Forall₂ r.Names params (params.map r.replace) :=
  List.forall₂_map_right_iff.mpr <|
    List.forall₂_same.mpr fun _ hparam => ⟨fun heq => h (heq ▸ hparam), rfl⟩

theorem Exprs.similar {expr expr' : Expr} (h : r.Exprs expr expr') :
    expr.Similar r.Names r.Exprs expr' := by
  obtain ⟨hnew, rfl⟩ := h
  cases expr with
  | number => exact .number
  | string => exact .string
  | boolean => exact .boolean
  | null => exact .null
  | name used => exact .name ⟨fun heq => hnew (by simp [Expr.names, heq]), rfl⟩
  | binary op left right =>
      rw [Expr.names, List.mem_append, not_or] at hnew
      exact .binary ⟨hnew.1, rfl⟩ ⟨hnew.2, rfl⟩
  | unary op operand => exact .unary ⟨hnew, rfl⟩
  | call callee args =>
      rw [Expr.names, List.mem_cons, not_or] at hnew
      exact .call ⟨Ne.symm hnew.1, rfl⟩ (forall₂_exprs hnew.2)
  | misplaced => exact .misplaced

theorem alternative_matches :
    (alternative : Alternative) → r.new ∉ alternative.names → r.old ∉ alternative.functionNames →
      alternative.Matches r.Exprs r.Stmts (alternative.rename r.replace)
  | .nothing, _, _ => .nothing
  | .otherwise _, hnew, hold => .otherwise (forall₂_stmts hnew hold)
  | .elseIf test body next, hnew, hold => by
      rw [Alternative.names, List.mem_append, List.mem_append, not_or, not_or] at hnew
      rw [Alternative.functionNames, List.mem_append, not_or] at hold
      exact .elseIf ⟨hnew.1.1, rfl⟩ (forall₂_stmts hnew.1.2 hold.1)
        (alternative_matches next hnew.2 hold.2)

theorem Stmts.line_eq {stmt stmt' : Stmt} (h : r.Stmts stmt stmt') : stmt.line = stmt'.line := by
  obtain ⟨-, rfl⟩ := h
  cases stmt <;> rfl

theorem Stmts.similar {stmt stmt' : Stmt} (h : r.Stmts stmt stmt') :
    stmt.Similar r.Names r.Exprs r.Stmts r.Functions stmt' := by
  obtain ⟨⟨hnew, hold⟩, rfl⟩ := h
  cases stmt with
  | declare name value line =>
      rw [Stmt.names, List.mem_cons, not_or] at hnew
      exact .declare ⟨Ne.symm hnew.1, rfl⟩ ⟨hnew.2, rfl⟩
  | assign name value line =>
      rw [Stmt.names, List.mem_cons, not_or] at hnew
      exact .assign ⟨Ne.symm hnew.1, rfl⟩ ⟨hnew.2, rfl⟩
  | print value line => exact .print ⟨hnew, rfl⟩
  | ifThen test body otherwise line =>
      rw [Stmt.names, List.mem_append, List.mem_append, not_or, not_or] at hnew
      rw [Stmt.functionNames, List.mem_append, not_or] at hold
      exact .ifThen ⟨hnew.1.1, rfl⟩ (forall₂_stmts hnew.1.2 hold.1)
        (alternative_matches otherwise hnew.2 hold.2)
  | whileDo test body line =>
      rw [Stmt.names, List.mem_append, not_or] at hnew
      exact .whileDo ⟨hnew.1, rfl⟩ (forall₂_stmts hnew.2 hold)
  | breakLoop => exact .breakLoop
  | continueLoop => exact .continueLoop
  | function name params body line =>
      -- The name of a function that is declared inside is neither of the two.
      rw [Stmt.names, List.mem_singleton] at hnew
      rw [Stmt.functionNames, List.mem_singleton] at hold
      exact .function ⟨Ne.symm hnew, (replace_of_ne (Ne.symm hold)).symm⟩
        (.inside (List.forall₂_same.mpr fun stmt _ => .same stmt))
  | returnValue value line =>
      cases value with
      | none => exact .returnValue .none
      | some value => exact .returnValue (.some ⟨hnew, rfl⟩)
  | misplaced => exact .misplaced

end ParameterRenaming

end Bol
