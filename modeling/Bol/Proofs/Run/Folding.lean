/-
# Runs of folded programs

A literal with its signs taken in evaluates to what the signs make of it, but without the nesting of
the signs. So a program and its fold run alike, unless the program is nested more deeply than it may
be; and given some more depth it is not, if its fold is not.
-/

import Bol.Proofs.Program.Folding
import Bol.Proofs.Run.Likeness

namespace Bol

namespace Expr

/-- The fold of an expression has the folds of its operands, or it is a literal. -/
theorem fold_cases {E : Expr → Expr → Prop} (e : Expr)
    (hE : ∀ part : Expr, sizeOf part ≤ sizeOf e → E part part.fold) :
    e.Matches E e.fold ∨ ∃ value, e.fold = .number value := by
  cases e with
  | number => exact .inl .number
  | string => exact .inl .string
  | boolean => exact .inl .boolean
  | null => exact .inl .null
  | name => exact .inl .name
  | misplaced => exact .inl .misplaced
  | binary op left right =>
      rw [binary.sizeOf_spec] at hE
      exact .inl (.binary (hE left (by omega)) (hE right (by omega)))
  | call callee args =>
      rw [call.sizeOf_spec] at hE
      rw [fold, listFold_eq_map]
      refine .inl (.call (List.forall₂_map_right_iff.mpr
        (List.forall₂_same.mpr fun arg harg => ?_)))
      have hsize := List.sizeOf_lt_of_mem harg
      exact hE arg (by omega)
  | unary op operand =>
      rw [unary.sizeOf_spec] at hE
      have hoperand := hE operand (by omega)
      cases op with
      | not | other => exact .inl (.unary hoperand)
      | negate =>
          rw [fold]
          cases hfold : operand.fold with
          | number value => exact .inr ⟨_, rfl⟩
          | string | boolean | null | name | binary | unary | call | misplaced =>
              exact .inl (.unary (hfold ▸ hoperand))

theorem exists_of_negated_eq {e : Expr} {value : Float} (h : e.negated = .number value) :
    ∃ inner, e = .number inner ∧ value = -inner := by
  cases e with
  | number inner => exact ⟨inner, rfl, (number.inj h).symm⟩
  | string | boolean | null | name | binary | unary | call | misplaced => cases h

/-- An expression that folds to a literal evaluates to the value of the literal. As much depth as
the expression is large suffices. -/
theorem eval_of_fold_eq {e : Expr} {value : Float} (h : e.fold = .number value)
    (patience depth : Nat) :
    (Run.eval patience depth e = throw .tooDeep ∧ depth ≤ sizeOf e) ∨
      Run.eval patience depth e = pure (.number value) ∧ 0 < depth := by
  cases depth with
  | zero => exact .inl ⟨Run.eval_zero .., Nat.zero_le _⟩
  | succ depth =>
      cases e with
      | number inner =>
          obtain rfl := number.inj h
          exact .inr ⟨by rw [Run.eval], Nat.succ_pos _⟩
      | unary op operand =>
          cases op with
          | not | other => cases h
          | negate =>
              obtain ⟨inner, hinner, rfl⟩ := exists_of_negated_eq h
              rw [Run.eval, unary.sizeOf_spec]
              obtain ⟨hstop, hdepth⟩ | ⟨hvalue, -⟩ := eval_of_fold_eq hinner patience depth
              · rw [hstop]
                exact .inl ⟨rfl, by omega⟩
              · rw [hvalue]
                exact .inr ⟨rfl, Nat.succ_pos _⟩
      | string | boolean | null | name | binary | call | misplaced => cases h

theorem coincides_fold {e : Expr} {value : Float} (h : e.fold = .number value) (lag : Nat) :
    e.Coincides lag e.fold := by
  refine ⟨.number value, by simp [Value.type], fun patience depth => ?_⟩
  obtain ⟨hstop, -⟩ | ⟨hvalue, hdepth⟩ := eval_of_fold_eq h patience depth
  · exact .inl hstop
  · obtain ⟨rest, rfl⟩ := Nat.exists_eq_add_of_lt hdepth
    exact .inr ⟨hvalue, by rw [h, show lag + (0 + rest + 1) = lag + rest + 1 by omega, Run.eval]⟩

theorem fold_coincides {e : Expr} {value : Float} (h : e.fold = .number value) {lag : Nat}
    (hlag : sizeOf e ≤ lag) : e.fold.Coincides lag e := by
  refine ⟨.number value, by simp [Value.type], fun patience depth => ?_⟩
  rw [h]
  cases depth with
  | zero => exact .inl (Run.eval_zero ..)
  | succ depth =>
      refine .inr ⟨by rw [Run.eval], ?_⟩
      obtain ⟨-, hdepth⟩ | ⟨hvalue, -⟩ := eval_of_fold_eq h patience (lag + (depth + 1))
      · omega
      · exact hvalue

end Expr

/-! ## Statements -/

section

variable {E : Expr → Expr → Prop} {R : Stmt → Stmt → Prop}

theorem forall₂_listFold {body : List Stmt} {size : Nat} (hle : sizeOf body ≤ size)
    (hR : ∀ part : Stmt, sizeOf part ≤ size → R part part.fold) :
    List.Forall₂ R body (Stmt.listFold body) := by
  rw [Stmt.listFold_eq_map]
  refine List.forall₂_map_right_iff.mpr (List.forall₂_same.mpr fun stmt hstmt => ?_)
  have hsize := List.sizeOf_lt_of_mem hstmt
  exact hR stmt (by omega)

/-- The fold of an alternative has the folds of its parts. -/
theorem Alternative.matches_fold {size : Nat}
    (hE : ∀ part : Expr, sizeOf part ≤ size → E part part.fold)
    (hR : ∀ part : Stmt, sizeOf part ≤ size → R part part.fold) (alternative : Alternative)
    (hle : sizeOf alternative ≤ size) : alternative.Matches E R alternative.fold := by
  match alternative with
  | .nothing => exact .nothing
  | .otherwise body =>
      rw [otherwise.sizeOf_spec] at hle
      exact .otherwise (forall₂_listFold (by omega) hR)
  | .elseIf test body next =>
      rw [elseIf.sizeOf_spec] at hle
      exact .elseIf (hE test (by omega)) (forall₂_listFold (by omega) hR)
        (matches_fold hE hR next (by omega))

/-- The fold of a statement has the folds of its parts. -/
theorem Stmt.matches_fold (stmt : Stmt)
    (hE : ∀ part : Expr, sizeOf part ≤ sizeOf stmt → E part part.fold)
    (hR : ∀ part : Stmt, sizeOf part ≤ sizeOf stmt → R part part.fold) :
    stmt.Matches E R stmt.fold := by
  cases stmt with
  | declare _ value =>
      rw [declare.sizeOf_spec] at hE
      exact .declare (hE value (by omega))
  | assign _ value =>
      rw [assign.sizeOf_spec] at hE
      exact .assign (hE value (by omega))
  | print value =>
      rw [print.sizeOf_spec] at hE
      exact .print (hE value (by omega))
  | ifThen test body otherwise =>
      rw [ifThen.sizeOf_spec] at hE hR
      exact .ifThen (hE test (by omega)) (forall₂_listFold (by omega) hR)
        (otherwise.matches_fold hE hR (by omega))
  | whileDo test body =>
      rw [whileDo.sizeOf_spec] at hE hR
      exact .whileDo (hE test (by omega)) (forall₂_listFold (by omega) hR)
  | breakLoop => exact .breakLoop
  | continueLoop => exact .continueLoop
  | function _ _ body =>
      rw [function.sizeOf_spec] at hR
      exact .function (forall₂_listFold (by omega) hR)
  | returnValue value =>
      rw [returnValue.sizeOf_spec] at hE
      cases value with
      | none => exact .returnValue .none
      | some value =>
          rw [Option.some.sizeOf_spec] at hE
          exact .returnValue (.some (hE value (by omega)))
  | misplaced => exact .misplaced

theorem Expr.Matches.swap {expr expr' : Expr} (h : expr.Matches (flip E) expr') :
    expr'.Matches E expr := by
  cases h with
  | number => exact .number
  | string => exact .string
  | boolean => exact .boolean
  | null => exact .null
  | name => exact .name
  | binary hleft hright => exact .binary hleft hright
  | unary h => exact .unary h
  | call hargs => exact .call hargs.flip
  | misplaced => exact .misplaced

theorem Alternative.Matches.swap {alternative alternative' : Alternative}
    (h : alternative.Matches (flip E) (flip R) alternative') :
    alternative'.Matches E R alternative := by
  induction h with
  | nothing => exact .nothing
  | otherwise hbody => exact .otherwise hbody.flip
  | elseIf htest hbody _ ih => exact .elseIf htest hbody.flip ih

theorem Stmt.Matches.swap {stmt stmt' : Stmt} (h : stmt.Matches (flip E) (flip R) stmt') :
    stmt'.Matches E R stmt := by
  cases h with
  | declare hvalue => exact .declare hvalue
  | assign hvalue => exact .assign hvalue
  | print hvalue => exact .print hvalue
  | ifThen htest hbody hotherwise => exact .ifThen htest hbody.flip hotherwise.swap
  | whileDo htest hbody => exact .whileDo htest hbody.flip
  | breakLoop => exact .breakLoop
  | continueLoop => exact .continueLoop
  | function hbody => exact .function hbody.flip
  | returnValue hvalue =>
      cases hvalue with
      | none => exact .returnValue .none
      | some hvalue => exact .returnValue (.some hvalue)
  | misplaced => exact .misplaced

end

/-! ## Folding as a correspondence -/

/-- The same expression, or its fold. -/
def Expr.FoldsTo (expr expr' : Expr) : Prop := expr' = expr ∨ expr' = expr.fold

/-- The same statement, or its fold. -/
def Stmt.FoldsTo (stmt stmt' : Stmt) : Prop := stmt' = stmt ∨ stmt' = stmt.fold

/-- The same expression, or the fold of one that is not larger than `lag`. -/
def Expr.UnfoldsTo (lag : Nat) (expr expr' : Expr) : Prop :=
  expr' = expr ∨ expr = expr'.fold ∧ sizeOf expr' ≤ lag

/-- The same statement, or the fold of one that is not larger than `lag`. -/
def Stmt.UnfoldsTo (lag : Nat) (stmt stmt' : Stmt) : Prop :=
  stmt' = stmt ∨ stmt = stmt'.fold ∧ sizeOf stmt' ≤ lag

theorem Stmt.line_fold (stmt : Stmt) : stmt.fold.line = stmt.line := by
  cases stmt <;> rfl

theorem Expr.FoldsTo.runAlike : RunAlike FoldsTo True 0 := by
  refine ⟨fun hlax => absurd trivial hlax, fun {expr expr'} h => ?_⟩
  obtain rfl | rfl := h
  · exact .inl (.refl (fun _ => .inl rfl) _)
  · obtain hmatches | ⟨value, hvalue⟩ := expr.fold_cases (E := FoldsTo) fun _ _ => .inr rfl
    · exact .inl hmatches
    · exact .inr ⟨trivial, coincides_fold hvalue 0⟩

theorem Stmt.FoldsTo.matches_of {stmt stmt' : Stmt} (h : stmt.FoldsTo stmt') :
    stmt.Matches Expr.FoldsTo FoldsTo stmt' := by
  obtain rfl | rfl := h
  · exact .refl (fun _ => .inl rfl) (fun _ => .inl rfl) _
  · exact stmt.matches_fold (fun _ _ => .inr rfl) fun _ _ => .inr rfl

theorem Stmt.FoldsTo.line_eq {stmt stmt' : Stmt} (h : stmt.FoldsTo stmt') :
    stmt.line = stmt'.line := by
  obtain rfl | rfl := h
  · rfl
  · exact (line_fold stmt).symm

/-- Expressions and the bodies of functions may be folded in the second run. -/
def Correspondence.folding : Correspondence :=
  .ofBodies True True 0 Expr.FoldsTo.runAlike (fun _ _ => Stmt.FoldsTo.matches_of)
    fun _ _ h _ => h.line_eq

section

variable {lag : Nat}

theorem Expr.UnfoldsTo.runAlike : RunAlike (UnfoldsTo lag) True lag := by
  refine ⟨fun hlax => absurd trivial hlax, fun {expr expr'} h => ?_⟩
  obtain rfl | ⟨rfl, hle⟩ := h
  · exact .inl (.refl (fun _ => .inl rfl) _)
  · have hparts (part : Expr) (hpart : sizeOf part ≤ sizeOf expr') :
        flip (UnfoldsTo lag) part part.fold := .inr ⟨rfl, Nat.le_trans hpart hle⟩
    obtain hmatches | ⟨value, hvalue⟩ := expr'.fold_cases hparts
    · exact .inl hmatches.swap
    · exact .inr ⟨trivial, fold_coincides hvalue hle⟩

theorem Stmt.UnfoldsTo.matches_of {stmt stmt' : Stmt} (h : stmt.UnfoldsTo lag stmt') :
    stmt.Matches (Expr.UnfoldsTo lag) (UnfoldsTo lag) stmt' := by
  obtain rfl | ⟨rfl, hle⟩ := h
  · exact .refl (fun _ => .inl rfl) (fun _ => .inl rfl) _
  · exact (stmt'.matches_fold (fun _ hpart => .inr ⟨rfl, Nat.le_trans hpart hle⟩)
      fun _ hpart => .inr ⟨rfl, Nat.le_trans hpart hle⟩).swap

theorem Stmt.UnfoldsTo.line_eq {stmt stmt' : Stmt} (h : stmt.UnfoldsTo lag stmt') :
    stmt.line = stmt'.line := by
  obtain rfl | ⟨rfl, -⟩ := h
  · rfl
  · exact line_fold stmt'

end

/-- Expressions and the bodies of functions may be folded in the first run, while the second one has
some more depth. -/
def Correspondence.unfolding (lag : Nat) : Correspondence :=
  .ofBodies True True lag Expr.UnfoldsTo.runAlike (fun _ _ => Stmt.UnfoldsTo.matches_of)
    fun _ _ h _ => h.line_eq

/-! ## Programs -/

namespace Program

/-- A program that is not nested too deeply runs as its fold does. -/
theorem run_fold (P : Program) {patience depth : Nat} {state : State}
    (hdeep : (P.run patience depth state).1 ≠ .error .tooDeep) :
    Correspondence.folding.Results (fun _ _ => True) (P.run patience depth state).1
        (P.fold.run patience depth state).1 ∧
      (P.run patience depth state).2.Alike Stmt.FoldsTo (P.fold.run patience depth state).2 := by
  have hstmts : List.Forall₂ Stmt.FoldsTo P.statements P.fold.statements :=
    List.forall₂_map_right_iff.mpr (List.forall₂_same.mpr fun _ _ => .inr rfl)
  have hruns : Correspondence.folding.Runs 0 (fun _ _ _ => True) (P.run patience depth)
    (P.fold.run patience (0 + depth)) := .program patience depth hstmts
  rw [Nat.zero_add] at hruns
  have hstate : state.Alike Stmt.FoldsTo state := .refl (fun _ => .inl rfl) state
  obtain ⟨-, hresult, hafter⟩ := hruns state state (Nat.zero_le _)
    (Correspondence.ofBodies_states.mpr hstate) fun _ => hdeep
  exact ⟨hresult, Correspondence.ofBodies_states.mp hafter⟩

/-- A program is not nested too deeply for a run if its fold is not for one with less depth. -/
theorem run_ne_tooDeep_of_fold (P : Program) {patience depth : Nat} {state : State}
    (hdeep : (P.fold.run patience depth state).1 ≠ .error .tooDeep) :
    (P.run patience (sizeOf P + depth) state).1 ≠ .error .tooDeep := by
  have hstmts : List.Forall₂ (Stmt.UnfoldsTo (sizeOf P)) P.fold.statements P.statements := by
    refine List.forall₂_map_left_iff.mpr (List.forall₂_same.mpr fun stmt hstmt => .inr ⟨rfl, ?_⟩)
    have hsize := List.sizeOf_lt_of_mem hstmt
    rw [mk.sizeOf_spec]
    omega
  have hruns : (Correspondence.unfolding (sizeOf P)).Runs 0 (fun _ _ _ => True)
    (P.fold.run patience depth) (P.run patience (sizeOf P + depth)) :=
  .program patience depth hstmts
  have hstate : state.Alike (Stmt.UnfoldsTo (sizeOf P)) state := .refl (fun _ => .inl rfl) state
  obtain ⟨-, hresult, -⟩ := hruns state state (Nat.zero_le _)
    (Correspondence.ofBodies_states.mpr hstate) fun _ => hdeep
  intro hstop
  rw [hstop] at hresult
  generalize (P.fold.run patience depth state).1 = result at hdeep hresult
  cases hresult with
  | error hstops =>
      cases hstops
      exact hdeep rfl

end Program

end Bol
