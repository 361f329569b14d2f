/-
# Expressions without calls

Only a call can print, declare or assign. So what an expression without calls comes to is a
function of the values of the names in sight: `Expr.outcome` computes it with no state at all, and
a run of the expression has that outcome and leaves the state as it is, unless the expression is
nested more deeply than evaluation may be.
-/

import Bol.Eval
import Bol.Proofs.Run.Operations

namespace Bol

namespace Expr

/-- Whether an expression has no call in it. -/
def isCallFree : Expr → Bool
  | .binary _ left right => left.isCallFree && right.isCallFree
  | .unary _ operand => operand.isCallFree
  | .call .. => false
  | .number _ | .string _ | .boolean _ | .null | .name _ | .misplaced _ => true

/-- How deeply the operators of an expression are nested. -/
def height : Expr → Nat
  | .binary _ left right => max left.height right.height + 1
  | .unary _ operand => operand.height + 1
  | .number _ | .string _ | .boolean _ | .null | .name _ | .call .. | .misplaced _ => 0

end Expr

/-- The truth value that an operand of `ani` or `kinva` has to have. -/
def BinaryOp.operand (op : BinaryOp) : Value → Except Fault Bool
  | .boolean value => .ok value
  | value => .error (.logicalOperand op value)

/-- What an expression comes to when the names have the given values. No name stands for a
function that could be called here. -/
def Expr.outcome (names : String → Option Value) : Expr → Except Fault Value
  | .number value => .ok (.number value)
  | .string value => .ok (.string value)
  | .boolean value => .ok (.boolean value)
  | .null => .ok .null
  | .name used => (names used).elim (.error (.undeclared used)) .ok
  | .binary op left right => do
    let first ← left.outcome names
    match op.decisive? with
    | some decisive =>
      let first ← op.operand first
      if first = decisive then return .boolean first
      else return .boolean (← op.operand (← right.outcome names))
    | none => op.apply first (← right.outcome names)
  | .unary op operand => do op.apply (← operand.outcome names)
  | .call callee _ => .error (.notFunction callee)
  | .misplaced sort => .error (.unknownExpression sort)

namespace Run

variable {α β : Type} {patience depth : Nat}

theorem ofExcept_apply (result : Except Fault α) (state : State) :
    ofExcept result state =
      match result with
      | .ok value => (.ok value, state)
      | .error fault => faulty fault state := by
  cases result <;> rfl

theorem logicalOperand_eq (op : BinaryOp) (value : Value) :
    logicalOperand op value = ofExcept (op.operand value) := by
  cases value <;> rfl

/-- A computation has the given result and leaves the state as it is, unless its depth is at most
`height` and did not suffice. -/
def Computes (depth height : Nat) (act : Run α) (result : Except Fault α) (state : State) : Prop :=
  act state = ofExcept result state ∨ act state = (.error .tooDeep, state) ∧ depth ≤ height

theorem computes_ofExcept (result : Except Fault α) (height : Nat) (state : State) :
    Computes depth height (ofExcept result) result state :=
  .inl rfl

theorem computes_tooDeep (result : Except Fault α) (height : Nat) (state : State) :
    Computes 0 height (throw .tooDeep) result state :=
  .inr ⟨rfl, Nat.zero_le _⟩

theorem Computes.mono {height height' : Nat} {act : Run α} {result : Except Fault α}
    {state : State} (h : Computes depth height act result state) (hle : height ≤ height') :
    Computes depth height' act result state :=
  h.imp_right fun ⟨hact, hdepth⟩ => ⟨hact, Nat.le_trans hdepth hle⟩

theorem Computes.succ {height : Nat} {act : Run α} {result : Except Fault α} {state : State}
    (h : Computes depth height act result state) :
    Computes (depth + 1) (height + 1) act result state :=
  h.imp_right fun ⟨hact, hdepth⟩ => ⟨hact, Nat.succ_le_succ hdepth⟩

theorem Computes.bind {height : Nat} {act : Run α} {next : α → Run β} {result : Except Fault α}
    {nextResult : α → Except Fault β} {state : State}
    (hact : Computes depth height act result state)
    (hnext : ∀ value, Computes depth height (next value) (nextResult value) state) :
    Computes depth height (act >>= next) (result >>= nextResult) state := by
  unfold Computes
  rw [bind_apply]
  obtain hact | ⟨hact, hdepth⟩ := hact
  · rw [hact, ofExcept_apply]
    cases result with
    | error fault => exact .inl rfl
    | ok value => exact hnext value
  · rw [hact]
    exact .inr ⟨rfl, hdepth⟩

/-- An expression without calls has the outcome that the values of its names give it, and its
evaluation changes nothing. -/
theorem computes_eval {expr : Expr} (hfree : expr.isCallFree = true) (patience depth : Nat)
    (state : State) :
    Computes depth expr.height (eval patience depth expr)
      (expr.outcome (Chain.get? state.chain)) state := by
  induction expr using Expr.isCallFree.induct generalizing depth with
  | case1 op left right ihleft ihright =>
      obtain ⟨hleft, hright⟩ := (Bool.and_eq_true _ _).mp hfree
      cases depth with
      | zero => rw [eval]; exact computes_tooDeep ..
      | succ depth =>
          have hfirst := (ihleft hleft depth).mono (Nat.le_max_left _ right.height)
          have hsecond := (ihright hright depth).mono (Nat.le_max_right left.height _)
          rw [eval, Expr.outcome, Expr.height]
          cases op.decisive? with
          | none =>
              exact (hfirst.bind fun first => hsecond.bind fun second => computes_ofExcept ..).succ
          | some decisive =>
              -- The second operand is evaluated only where the first one does not settle it.
              simp only [logicalOperand_eq]
              refine (hfirst.bind fun value => (computes_ofExcept ..).bind fun first => ?_).succ
              split
              · exact computes_ofExcept (.ok _) ..
              · exact hsecond.bind fun second => (computes_ofExcept ..).bind fun settled =>
                  computes_ofExcept (.ok _) ..
  | case2 op operand ih =>
      cases depth with
      | zero => rw [eval]; exact computes_tooDeep ..
      | succ depth =>
          rw [eval, Expr.outcome, Expr.height]
          exact ((ih hfree depth).bind fun value => computes_ofExcept ..).succ
  | case3 => cases hfree
  | case8 used =>
      cases depth with
      | zero => rw [eval]; exact computes_tooDeep ..
      | succ depth =>
          refine .inl ?_
          rw [eval, lookup_apply, Expr.outcome]
          cases Chain.get? state.chain used <;> rfl
  | _ =>
      cases depth with
      | zero => rw [eval]; exact computes_tooDeep ..
      | succ depth => exact .inl (by rw [eval]; rfl)

end Run
end Bol
