/-
# Relations between runs

A computation is put together from a few operations on the state: looking names up, declaring
them, assigning to them, printing, making functions, opening blocks and entering calls. A relation
between computations is a `Congruence` if every operation is related to itself and if putting
related computations together gives related ones. Such a relation holds between the evaluations of
one expression, and between the executions of one statement, under bounds of which one covers the
other: this one induction over the depth of a run carries every property of runs that is local to
their operations.
-/

import Bol.Eval

namespace Bol.Run

theorem eval_zero (patience : Nat) (expr : Expr) : eval patience 0 expr = throw .tooDeep := by
  rw [eval.eq_def]

theorem exec_zero (patience : Nat) (stmt : Stmt) : exec patience 0 stmt = throw .tooDeep := by
  rw [exec.eq_def]

/-- What happens inside a call, once its scope is open. -/
def callBody (exec : Stmt → Run Signal) (function : Function) (args : List Value) : Run Value := do
  bindParams (function.params.zip args)
  match ← statements exec function.body with
  | .normal => return .null
  | .returned value => return value
  | .broke => fail .breakOutsideLoop
  | .continued => fail .continueOutsideLoop

/-- A relation that looking names up respects, as do results and sequences. -/
structure Sequencing (R : ∀ {α : Type}, Run α → Run α → Prop) : Prop where
  pure {α : Type} (value : α) : R (pure value : Run α) (pure value)
  throw {α : Type} (stop : Stop) : R (throw stop : Run α) (throw stop)
  bind {α β : Type} {act act' : Run α} {next next' : α → Run β} :
    R act act' → (∀ value, R (next value) (next' value)) → R (act >>= next) (act' >>= next')
  lookup (name : String) : R (lookup name) (lookup name)

/-- A relation that the operations of a run respect, as do the ways of putting them together. -/
structure Congruence (R : ∀ {α : Type}, Run α → Run α → Prop) : Prop extends Sequencing R where
  declare (name : String) (value : Value) : R (declare name value) (declare name value)
  assign (name : String) (value : Value) : R (assign name value) (assign name value)
  print (line : String) : R (print line) (print line)
  newFunction (name : String) (params : List String) (body : List Stmt) :
    R (newFunction name params body) (newFunction name params body)
  inBlock {α : Type} {act act' : Run α} : R act act' → R (inBlock act) (inBlock act')
  inCall {α : Type} {act act' : Run α} : R act act' → R (inCall act) (inCall act')
  onLine {α : Type} (line : Option Int) {act act' : Run α} :
    R act act' → R (onLine line act) (onLine line act')

/-- Two bounds under which computations are compared: the same one, or a lower and a higher one,
if what exhausts the lower one is related to everything. -/
def Covers (R : ∀ {α : Type}, Run α → Run α → Prop) (exhausted : Stop)
    (bound bound' : Nat) : Prop :=
  bound = bound' ∨ bound ≤ bound' ∧ ∀ {α : Type} (act : Run α), R (throw exhausted) act

namespace Covers

variable {R : ∀ {α : Type}, Run α → Run α → Prop} {exhausted : Stop} {bound bound' : Nat}

theorem succ (h : Covers R exhausted (bound + 1) bound') :
    ∃ rest, bound' = rest + 1 ∧ Covers R exhausted bound rest := by
  rcases h with rfl | ⟨hle, hcut⟩
  · exact ⟨bound, rfl, .inl rfl⟩
  · obtain ⟨rest, rfl⟩ := Nat.exists_eq_add_of_le' (Nat.le_trans (Nat.le_add_left 1 bound) hle)
    exact ⟨rest, rfl, .inr ⟨Nat.le_of_succ_le_succ hle, hcut⟩⟩

theorem zero (h : Covers R exhausted 0 bound') :
    bound' = 0 ∨ ∀ {α : Type} (act : Run α), R (throw exhausted) act := by
  rcases h with h | ⟨-, hcut⟩
  · exact .inl h.symm
  · exact .inr hcut

end Covers

namespace Sequencing

variable {R : ∀ {α : Type}, Run α → Run α → Prop} (h : Sequencing R)
include h

theorem fail {α : Type} (fault : Fault) : R (Run.fail fault : Run α) (Run.fail fault) := h.throw _

theorem ofExcept {α : Type} (result : Except Fault α) :
    R (Run.ofExcept result) (Run.ofExcept result) := by
  cases result with
  | ok value => exact h.pure value
  | error fault => exact h.fail fault

theorem map {α β : Type} {act act' : Run α} (f : α → β) (hact : R act act') :
    R (f <$> act) (f <$> act') := by
  rw [map_eq_pure_bind, map_eq_pure_bind]
  exact h.bind hact fun value => h.pure (f value)

theorem condition (keyword : TokenKind) (value : Value) :
    R (Run.condition keyword value) (Run.condition keyword value) := by
  cases value with
  | boolean value => exact h.pure value
  | null | number _ | string _ | function _ => exact h.fail _

theorem logicalOperand (op : BinaryOp) (value : Value) :
    R (Run.logicalOperand op value) (Run.logicalOperand op value) := by
  cases value with
  | boolean value => exact h.pure value
  | null | number _ | string _ | function _ => exact h.fail _

theorem lookupFunction (callee : String) :
    R (Run.lookupFunction callee) (Run.lookupFunction callee) := by
  refine h.bind (h.lookup callee) fun value => ?_
  cases value with
  | function function => exact h.pure function
  | null | boolean _ | number _ | string _ => exact h.fail _

theorem mapM {α β : Type} {act act' : α → Run β} (hact : ∀ item, R (act item) (act' item))
    (items : List α) : R (items.mapM act) (items.mapM act') := by
  induction items with
  | nil => exact h.pure []
  | cons item rest ih =>
      rw [List.mapM_cons, List.mapM_cons]
      exact h.bind (hact item) fun _ => h.bind ih fun _ => h.pure _

theorem alternative {eval eval' : Expr → Run Value} {body body' : List Stmt → Run Signal}
    (heval : ∀ expr, R (eval expr) (eval' expr)) (hbody : ∀ block, R (body block) (body' block)) :
    ∀ otherwise, R (Run.alternative eval body otherwise) (Run.alternative eval' body' otherwise)
  | .nothing => h.pure _
  | .otherwise block => hbody block
  | .elseIf test block next => by
      refine h.bind (heval test) fun value =>
        h.bind (h.condition _ value) fun holds => ?_
      cases holds with
      | true => exact hbody block
      | false => exact alternative heval hbody next

/-- One level of evaluation, the parts being known to be related. -/
theorem eval_succ {patience patience' depth depth' : Nat}
    (heval : ∀ expr, R (Run.eval patience depth expr) (Run.eval patience' depth' expr))
    (henter : ∀ function args, R (enter (exec patience depth) function args)
      (enter (exec patience' depth') function args)) (expr : Expr) :
    R (Run.eval patience (depth + 1) expr) (Run.eval patience' (depth' + 1) expr) := by
  rw [Run.eval.eq_def, Run.eval.eq_def patience' (depth' + 1)]
  cases expr with
  | number | string | boolean | null => exact h.pure _
  | name name => exact h.lookup name
  | binary op left right =>
      dsimp only
      split
      · refine h.bind (heval left) fun value => h.bind (h.logicalOperand op value) fun first => ?_
        split
        · exact h.pure _
        · exact h.bind (heval right) fun value => h.bind (h.logicalOperand op value) fun _ =>
            h.pure _
      · exact h.bind (heval left) fun _ => h.bind (heval right) fun _ => h.ofExcept _
  | unary op operand => exact h.bind (heval operand) fun _ => h.ofExcept _
  | call callee args =>
      refine h.bind (h.lookupFunction callee) fun function =>
        h.bind (h.mapM heval args) fun values => ?_
      split
      · exact henter function values
      · exact h.fail _
  | misplaced sort => exact h.fail _

end Sequencing

namespace Congruence

variable {R : ∀ {α : Type}, Run α → Run α → Prop} (h : Congruence R)
include h

theorem bindParams (pairs : List (String × Value)) :
    R (Run.bindParams pairs) (Run.bindParams pairs) := by
  induction pairs with
  | nil => exact h.pure ()
  | cons pair rest ih => exact h.bind (h.declare _ _) fun _ => ih

section Statements

variable {exec exec' : Stmt → Run Signal} (hexec : ∀ stmt, R (exec stmt) (exec' stmt))
include hexec

theorem statements (stmts : List Stmt) :
    R (Run.statements exec stmts) (Run.statements exec' stmts) := by
  induction stmts with
  | nil => exact h.pure _
  | cons first rest ih =>
      refine h.bind (hexec first) fun signal => ?_
      cases signal with
      | normal => exact ih
      | broke | continued | returned _ => exact h.pure _

theorem declareFunctions (stmts : List Stmt) :
    R (Run.declareFunctions exec stmts) (Run.declareFunctions exec' stmts) := by
  induction stmts with
  | nil => exact h.pure ()
  | cons first rest ih =>
      rw [Run.declareFunctions, Run.declareFunctions]
      split
      · exact h.bind (hexec first) fun _ => ih
      · exact ih

theorem topLevel (stmts : List Stmt) :
    R (Run.topLevel exec stmts) (Run.topLevel exec' stmts) := by
  induction stmts with
  | nil => exact h.pure ()
  | cons first rest ih =>
      rw [Run.topLevel, Run.topLevel]
      split
      · exact ih
      · refine h.bind (hexec first) fun signal => ?_
        cases signal.strayFault? with
        | none => exact ih
        | some fault => exact h.throw _

theorem callBody (function : Function) (args : List Value) :
    R (Run.callBody exec function args) (Run.callBody exec' function args) := by
  refine h.bind (h.bindParams _) fun _ => h.bind (h.statements hexec _) fun signal => ?_
  cases signal with
  | normal | returned _ => exact h.pure _
  | broke | continued => exact h.fail _

theorem enter (function : Function) (args : List Value) :
    R (Run.enter exec function args) (Run.enter exec' function args) :=
  h.inCall (h.callBody hexec function args)

end Statements

theorem loop {test test' : Run Bool} {body body' : Run Signal} (htest : R test test')
    (hbody : R body body') {patience patience' : Nat}
    (hpatience : Covers R .unfinished patience patience') :
    R (Run.loop test body patience) (Run.loop test' body' patience') := by
  induction patience generalizing patience' with
  | zero =>
      rcases hpatience.zero with rfl | hcut
      · exact h.throw _
      · exact hcut _
  | succ patience ih =>
      obtain ⟨rest, rfl, hrest⟩ := hpatience.succ
      refine h.bind htest fun holds => ?_
      cases holds with
      | false => exact h.pure _
      | true =>
          refine h.bind hbody fun signal => ?_
          cases signal with
          | normal | continued => exact ih hrest
          | broke | returned _ => exact h.pure _

section Level

variable {patience patience' depth depth' : Nat}
  (heval : ∀ expr, R (Run.eval patience depth expr) (Run.eval patience' depth' expr))
  (hexec : ∀ stmt, R (Run.exec patience depth stmt) (Run.exec patience' depth' stmt))
include heval hexec

/-- One level of execution, the parts being known to be related. -/
theorem exec_succ (hpatience : Covers R .unfinished patience patience') (stmt : Stmt) :
    R (Run.exec patience (depth + 1) stmt) (Run.exec patience' (depth' + 1) stmt) := by
  rw [Run.exec.eq_def, Run.exec.eq_def patience' (depth' + 1)]
  cases stmt with
  | declare name value line =>
      exact h.onLine line (h.bind (heval value) fun _ => h.bind (h.declare _ _) fun _ => h.pure _)
  | assign name value line =>
      exact h.onLine line (h.bind (heval value) fun _ => h.bind (h.assign _ _) fun _ => h.pure _)
  | print value line =>
      exact h.onLine line (h.bind (heval value) fun _ => h.bind (h.print _) fun _ => h.pure _)
  | ifThen test body otherwise line =>
      refine h.onLine line (h.bind (heval test) fun value =>
        h.bind (h.condition _ value) fun holds => ?_)
      cases holds with
      | true => exact h.inBlock (h.statements hexec body)
      | false =>
          exact h.alternative heval
            (fun block => h.inBlock (h.statements hexec block)) otherwise
  | whileDo test body line =>
      exact h.onLine line (h.loop (h.bind (heval test) fun value => h.condition _ value)
        (h.inBlock (h.statements hexec body)) hpatience)
  | breakLoop | continueLoop => exact h.pure _
  | function name params body line =>
      exact h.onLine line (h.bind (h.newFunction _ _ _) fun _ =>
        h.bind (h.declare _ _) fun _ => h.pure _)
  | returnValue value line =>
      cases value with
      | none => exact h.pure _
      | some value => exact h.onLine line (h.bind (heval value) fun _ => h.pure _)
  | misplaced sort => exact h.fail _

end Level

/-- A congruence holds between all evaluations and all executions under bounds of which one covers
the other. -/
theorem eval_and_exec {patience patience' depth depth' : Nat}
    (hpatience : Covers R .unfinished patience patience')
    (hdepth : Covers R .tooDeep depth depth') :
    (∀ expr, R (Run.eval patience depth expr) (Run.eval patience' depth' expr)) ∧
      ∀ stmt, R (Run.exec patience depth stmt) (Run.exec patience' depth' stmt) := by
  induction depth generalizing depth' with
  | zero =>
      rcases hdepth.zero with rfl | hcut
      · refine ⟨fun expr => ?_, fun stmt => ?_⟩
        · rw [eval_zero, eval_zero]
          exact h.throw _
        · rw [exec_zero, exec_zero]
          exact h.throw _
      · exact ⟨fun expr => eval_zero patience expr ▸ hcut _,
          fun stmt => exec_zero patience stmt ▸ hcut _⟩
  | succ depth ih =>
      obtain ⟨rest, rfl, hrest⟩ := hdepth.succ
      obtain ⟨heval, hexec⟩ := ih hrest
      exact ⟨h.eval_succ heval (h.enter hexec), h.exec_succ heval hexec hpatience⟩

/-- So it holds between all runs of a program under such bounds. -/
theorem program {patience patience' depth depth' : Nat}
    (hpatience : Covers R .unfinished patience patience')
    (hdepth : Covers R .tooDeep depth depth') (program : Program) :
    R (program.run patience depth) (program.run patience' depth') := by
  have hexec := (h.eval_and_exec hpatience hdepth).2
  exact h.bind (h.declareFunctions hexec _) fun _ => h.topLevel hexec _

end Congruence

end Bol.Run
