/-
# Properties of runs by the parts they have

A discipline says which statements may stand in which mode, which signals they may end with there,
and which values may occur. A property of computations and their parts obeys a discipline if the
operations of a run have it, if putting computations together keeps it, and if it passes from the
parts of an expression or a statement to the expression or the statement itself. Such a property
holds of every evaluation, and of every execution of a statement that the discipline admits: this
one induction over the depth of a run carries the properties that need to know where in the code,
or with which values, an operation takes place.
-/

import Bol.Proofs.Run.Congruence
import Bol.Proofs.Run.Parts

namespace Bol

/-- Faults of a signal that nothing around it takes. -/
def Fault.isStray : Fault → Bool
  | breakOutsideLoop | continueOutsideLoop | returnOutsideFunction => true
  | _ => false

theorem BinaryOp.type_apply_ne {op : BinaryOp} {left right value : Value}
    (h : op.apply left right = .ok value) : value.type ≠ .function := by
  unfold apply at h
  split at h
  · cases op <;> simp only [onNumbers] at h
    case div => split at h <;> cases h; simp [Value.type]
    all_goals cases h <;> simp [Value.type]
  · cases op <;> cases h <;> simp [Value.type]
  · split at h <;> cases h <;> simp [Value.type]

theorem BinaryOp.isStray_apply {op : BinaryOp} {left right : Value} {fault : Fault}
    (h : op.apply left right = .error fault) : fault.isStray = false := by
  unfold apply at h
  split at h
  · cases op <;> simp only [onNumbers] at h
    case div =>
      split at h
      · cases h
        rfl
      · cases h
    all_goals cases h <;> rfl
  · cases op <;> cases h <;> rfl
  · split at h <;> cases h
    rfl

theorem UnaryOp.type_apply_ne {op : UnaryOp} {operand value : Value}
    (h : op.apply operand = .ok value) : value.type ≠ .function := by
  cases op <;> cases operand <;> cases h <;> simp [Value.type]

theorem UnaryOp.isStray_apply {op : UnaryOp} {operand : Value} {fault : Fault}
    (h : op.apply operand = .error fault) : fault.isStray = false := by
  cases op <;> cases operand <;> cases h <;> rfl

/-- The blocks of an alternative. -/
def Alternative.blocks : Alternative → List (List Stmt)
  | .nothing => []
  | .otherwise body => [body]
  | .elseIf _ body next => body :: next.blocks

/-- What is admitted in code and in values. Modes tell places apart; a loop changes the mode for
its body, and the bodies of functions have a mode of their own. -/
structure Discipline (Mode : Type) where
  stmt : Mode → Stmt → Prop
  signal : Mode → Signal → Prop
  value : Value → Prop
  inLoop : Mode → Mode
  inCall : Mode
  value_of_type_ne : ∀ {v : Value}, v.type ≠ .function → value v
  body_of_value : ∀ {function : Function}, value (.function function) →
    ∀ inner ∈ function.body, stmt inCall inner
  value_of_function : ∀ {mode name params body line},
    stmt mode (.function name params body line) → ∀ id, value (.function ⟨id, name, params, body⟩)
  block_of_ifThen : ∀ {mode test body otherwise line},
    stmt mode (.ifThen test body otherwise line) →
      ∀ block ∈ body :: otherwise.blocks, ∀ inner ∈ block, stmt mode inner
  body_of_whileDo : ∀ {mode test body line}, stmt mode (.whileDo test body line) →
    ∀ inner ∈ body, stmt (inLoop mode) inner
  signal_normal : ∀ {mode}, signal mode .normal
  signal_broke : ∀ {mode line}, stmt mode (.breakLoop line) → signal mode .broke
  signal_continued : ∀ {mode line}, stmt mode (.continueLoop line) → signal mode .continued
  signal_returned : ∀ {mode e line v}, stmt mode (.returnValue e line) → value v →
    signal mode (.returned v)
  signal_of_inLoop : ∀ {mode v}, signal (inLoop mode) (.returned v) → signal mode (.returned v)
  value_of_signal : ∀ {v}, signal inCall (.returned v) → value v

/-- The discipline that admits everything. -/
def Discipline.free : Discipline Unit where
  stmt _ _ := True
  signal _ _ := True
  value _ := True
  inLoop := id
  inCall := ()
  value_of_type_ne _ := trivial
  body_of_value _ _ _ := trivial
  value_of_function _ _ := trivial
  block_of_ifThen _ _ _ _ _ := trivial
  body_of_whileDo _ _ _ := trivial
  signal_normal := trivial
  signal_broke _ := trivial
  signal_continued _ := trivial
  signal_returned _ _ := trivial
  signal_of_inLoop _ := trivial
  value_of_signal _ := trivial

namespace Run

/-- A property of computations with known values, and of their parts, that passes from the parts
of a run to the whole. -/
structure Obeys {Mode : Type} (D : Discipline Mode) (patience : Nat)
    (P : ∀ {α : Type}, (α → Prop) → Run α → Parts → Prop) : Prop where
  pure {α : Type} {Q : α → Prop} {value : α} : Q value → P Q (pure value) .none
  bound {α : Type} {Q : α → Prop} {stop : Stop} : (∀ error, stop ≠ .fault error) →
    P Q (throw stop) .none
  fail {α : Type} {Q : α → Prop} {fault : Fault} : fault.isStray = false → P Q (fail fault) .none
  strayBreak {α : Type} {Q : α → Prop} : D.signal D.inCall .broke →
    P Q (Run.fail .breakOutsideLoop) .none
  strayContinue {α : Type} {Q : α → Prop} : D.signal D.inCall .continued →
    P Q (Run.fail .continueOutsideLoop) .none
  bind {α β : Type} {Q : α → Prop} {Q' : β → Prop} {act : Run α} {next : α → Run β}
    {parts : Parts} {nextParts : α → Parts} :
    P Q act parts → (∀ value, Q value → P Q' (next value) (nextParts value)) →
      P Q' (act >>= next) (parts.andThen act nextParts)
  lookup (name : String) : P D.value (lookup name) .none
  declare (name : String) {value : Value} : D.value value →
    P (fun _ => True) (declare name value) .none
  print (line : String) : P (fun _ => True) (print line) .none
  newFunction {name : String} {params : List String} {body : List Stmt} :
    (∀ id, D.value (.function ⟨id, name, params, body⟩)) →
      P (fun function => D.value (.function function)) (newFunction name params body) .none
  inBlock {α : Type} {Q : α → Prop} {act : Run α} {parts : Parts} :
    P Q act parts → P Q (inBlock act) parts.inBlock
  inCall {α : Type} {Q : α → Prop} {act : Run α} {parts : Parts} :
    P Q act parts → P Q (inCall act) parts.inCall
  eval {depth : Nat} {expr : Expr} :
    P D.value (eval patience depth expr) (taskParts patience depth (.eval expr)) →
      P D.value (Run.eval patience depth expr) (.one depth (.eval expr))
  exec {mode : Mode} {depth : Nat} {stmt : Stmt} : D.stmt mode stmt →
    P (D.signal mode) (execBody patience depth stmt) (taskParts patience depth (.exec stmt)) →
      P (D.signal mode) (exec patience depth stmt) (.one depth (.exec stmt))
  assign {mode : Mode} {depth : Nat} {name : String} {expr : Expr} {line : Option Int} :
    D.stmt mode (.assign name expr line) →
      P D.value (Run.eval patience depth expr) (.one depth (.eval expr)) →
        P (D.signal mode) (Run.exec patience (depth + 1) (.assign name expr line))
          (.one (depth + 1) (.exec (.assign name expr line)))

namespace Obeys

variable {Mode : Type} {D : Discipline Mode} {patience : Nat}
  {P : ∀ {α : Type}, (α → Prop) → Run α → Parts → Prop} (h : Obeys D patience P)
include h

/-- What follows has no parts of its own. -/
theorem bindPlain {α β : Type} {Q : α → Prop} {Q' : β → Prop} {act : Run α} {next : α → Run β}
    {parts : Parts} (hact : P Q act parts) (hnext : ∀ value, Q value → P Q' (next value) .none) :
    P Q' (act >>= next) parts := by
  have hbind := h.bind hact hnext
  rwa [Parts.andThen_none] at hbind

theorem ofExcept {result : Except Fault Value} (hok : ∀ value, result = .ok value → D.value value)
    (herror : ∀ fault, result = .error fault → fault.isStray = false) :
    P D.value (Run.ofExcept result) .none := by
  cases result with
  | ok value => exact h.pure (hok value rfl)
  | error fault => exact h.fail (herror fault rfl)

theorem condition (keyword : TokenKind) (value : Value) :
    P (fun _ => True) (Run.condition keyword value) .none := by
  cases value with
  | boolean value => exact h.pure trivial
  | null | number _ | string _ | function _ => exact h.fail rfl

theorem logicalOperand (op : BinaryOp) (value : Value) :
    P (fun _ => True) (Run.logicalOperand op value) .none := by
  cases value with
  | boolean value => exact h.pure trivial
  | null | number _ | string _ | function _ => exact h.fail rfl

theorem ofBinary (op : BinaryOp) (left right : Value) :
    P D.value (Run.ofExcept (op.apply left right)) .none :=
  h.ofExcept (fun _ hvalue => D.value_of_type_ne (BinaryOp.type_apply_ne hvalue))
    fun _ hfault => BinaryOp.isStray_apply hfault

theorem ofUnary (op : UnaryOp) (operand : Value) :
    P D.value (Run.ofExcept (op.apply operand)) .none :=
  h.ofExcept (fun _ hvalue => D.value_of_type_ne (UnaryOp.type_apply_ne hvalue))
    fun _ hfault => UnaryOp.isStray_apply hfault

theorem lookupFunction (callee : String) :
    P (fun function => D.value (.function function)) (Run.lookupFunction callee) .none := by
  refine h.bindPlain (h.lookup callee) fun value hvalue => ?_
  cases value with
  | function function => exact h.pure hvalue
  | null | boolean _ | number _ | string _ => exact h.fail rfl

theorem bindParams {pairs : List (String × Value)} (hpairs : ∀ pair ∈ pairs, D.value pair.2) :
    P (fun _ => True) (Run.bindParams pairs) .none := by
  induction pairs with
  | nil => exact h.pure trivial
  | cons pair rest ih =>
      rw [List.forall_mem_cons] at hpairs
      exact h.bindPlain (h.declare _ hpairs.1) fun _ _ => ih hpairs.2

section Level

variable {depth : Nat}
  (heval : ∀ expr, P D.value (Run.eval patience depth expr) (.one depth (.eval expr)))
  (hexec : ∀ mode stmt, D.stmt mode stmt →
    P (D.signal mode) (Run.exec patience depth stmt) (.one depth (.exec stmt)))

section

include heval

theorem arguments (exprs : List Expr) :
    P (fun values => ∀ value ∈ values, D.value value) (exprs.mapM (Run.eval patience depth))
      (argumentParts patience depth exprs) := by
  induction exprs with
  | nil => exact h.pure (List.forall_mem_nil _)
  | cons expr rest ih =>
      rw [List.mapM_cons]
      refine h.bind (heval expr) fun value hvalue => ?_
      exact h.bindPlain ih fun values hvalues => h.pure (List.forall_mem_cons.mpr ⟨hvalue, hvalues⟩)

end

section

include hexec

theorem statements {mode : Mode} {stmts : List Stmt} (hstmts : ∀ stmt ∈ stmts, D.stmt mode stmt) :
    P (D.signal mode) (Run.statements (Run.exec patience depth) stmts)
      (statementParts patience depth stmts) := by
  induction stmts with
  | nil => exact h.pure D.signal_normal
  | cons first rest ih =>
      rw [List.forall_mem_cons] at hstmts
      refine h.bind (hexec mode first hstmts.1) fun signal hsignal => ?_
      cases signal with
      | normal => exact ih hstmts.2
      | broke | continued | returned _ => exact h.pure hsignal

theorem block {mode : Mode} {body : List Stmt} (hbody : ∀ stmt ∈ body, D.stmt mode stmt) :
    P (D.signal mode) (Run.inBlock (Run.statements (Run.exec patience depth) body))
      (blockParts patience depth body) :=
  h.inBlock (h.statements hexec hbody)

theorem enter {function : Function} {args : List Value} (hfunction : D.value (.function function))
    (hargs : ∀ value ∈ args, D.value value) :
    P D.value (Run.enter (Run.exec patience depth) function args)
      (callParts patience depth function args) := by
  have hpairs : ∀ pair ∈ function.params.zip args, D.value pair.2 :=
    fun pair hpair => hargs _ (List.of_mem_zip hpair).2
  refine h.inCall (h.bind (h.bindParams hpairs) fun _ _ => ?_)
  refine h.bindPlain (h.statements hexec (D.body_of_value hfunction)) fun signal hsignal => ?_
  cases signal with
  | normal => exact h.pure (D.value_of_type_ne (by simp [Value.type]))
  | returned value => exact h.pure (D.value_of_signal hsignal)
  | broke => exact h.strayBreak hsignal
  | continued => exact h.strayContinue hsignal

end

include heval hexec

theorem alternative {mode : Mode} {otherwise : Alternative}
    (hblocks : ∀ block ∈ otherwise.blocks, ∀ stmt ∈ block, D.stmt mode stmt) :
    P (D.signal mode) (Run.alternative (Run.eval patience depth)
        (fun block => Run.inBlock (Run.statements (Run.exec patience depth) block)) otherwise)
      (alternativeParts patience depth otherwise) := by
  match otherwise with
  | .nothing => exact h.pure D.signal_normal
  | .otherwise body => exact h.block hexec (hblocks body List.mem_cons_self)
  | .elseIf test body next =>
      rw [Alternative.blocks, List.forall_mem_cons] at hblocks
      refine h.bind (heval test) fun value _ => h.bind (h.condition _ value) fun holds _ => ?_
      cases holds with
      | true => exact h.block hexec hblocks.1
      | false => exact alternative hblocks.2

theorem loop {mode : Mode} {test : Expr} {body : List Stmt}
    (hbody : ∀ stmt ∈ body, D.stmt (D.inLoop mode) stmt) (rounds : Nat) :
    P (D.signal mode) (Run.loop
        (Run.eval patience depth test >>= Run.condition .whileWord)
        (Run.inBlock (Run.statements (Run.exec patience depth) body)) rounds)
      (loopParts patience depth test body rounds) := by
  induction rounds with
  | zero => exact h.bound (by simp)
  | succ rounds ih =>
      rw [Run.loop, bind_assoc]
      refine h.bind (heval test) fun value _ => h.bind (h.condition _ value) fun holds _ => ?_
      cases holds with
      | false => exact h.pure D.signal_normal
      | true =>
          refine h.bind (h.block hexec hbody) fun signal hsignal => ?_
          cases signal with
          | normal | continued => exact ih
          | broke => exact h.pure D.signal_normal
          | returned value => exact h.pure (D.signal_of_inLoop hsignal)

/-- One level of evaluation, the property being known of the parts. -/
theorem eval_succ (expr : Expr) :
    P D.value (Run.eval patience (depth + 1) expr) (evalParts patience depth expr) := by
  rw [Run.eval.eq_def]
  cases expr with
  | number | string | boolean | null => exact h.pure (D.value_of_type_ne (by simp [Value.type]))
  | name name => exact h.lookup name
  | binary op left right =>
      dsimp only
      cases hop : op.decisive? with
      | some decisive =>
          simp only [evalParts, hop]
          refine h.bind (heval left) fun value _ =>
            h.bind (h.logicalOperand op value) fun first _ => ?_
          have hplain : ∀ b : Bool, D.value (.boolean b) :=
            fun b => D.value_of_type_ne (by simp [Value.type])
          by_cases hfirst : first = decisive
          · rw [if_pos hfirst, if_pos hfirst]
            exact h.pure (hplain first)
          · rw [if_neg hfirst, if_neg hfirst]
            exact h.bindPlain (heval right) fun value _ =>
              h.bindPlain (h.logicalOperand op value) fun second _ => h.pure (hplain second)
      | none =>
          simp only [evalParts, hop]
          exact h.bind (heval left) fun first _ =>
            h.bindPlain (heval right) fun second _ => h.ofBinary op first second
  | unary op operand => exact h.bindPlain (heval operand) fun value _ => h.ofUnary op value
  | call callee args =>
      refine h.bind (h.lookupFunction callee) fun function hfunction =>
        h.bind (h.arguments heval args) fun values hvalues => ?_
      by_cases hlength : values.length = function.params.length
      · rw [if_pos hlength, if_pos hlength]
        exact h.enter hexec hfunction hvalues
      · rw [if_neg hlength, if_neg hlength]
        exact h.fail rfl
  | misplaced sort => exact h.fail rfl

/-- One level of execution, the property being known of the parts. -/
theorem exec_succ {mode : Mode} {stmt : Stmt} (hstmt : D.stmt mode stmt) :
    P (D.signal mode) (Run.exec patience (depth + 1) stmt)
      (.one (depth + 1) (.exec stmt)) := by
  have hnormal : D.signal mode .normal := D.signal_normal
  cases stmt with
  | assign name value line => exact h.assign hstmt (heval value)
  | declare name value line =>
      exact h.exec hstmt (h.bindPlain (heval value) fun _ hvalue =>
        h.bindPlain (h.declare name hvalue) fun _ _ => h.pure hnormal)
  | print value line =>
      exact h.exec hstmt (h.bindPlain (heval value) fun _ _ =>
        h.bindPlain (h.print _) fun _ _ => h.pure hnormal)
  | ifThen test body otherwise line =>
      have hblocks := D.block_of_ifThen hstmt
      rw [List.forall_mem_cons] at hblocks
      refine h.exec hstmt (h.bind (heval test) fun value _ =>
        h.bind (h.condition _ value) fun holds _ => ?_)
      cases holds with
      | true => exact h.block hexec hblocks.1
      | false => exact h.alternative heval hexec hblocks.2
  | whileDo test body line =>
      exact h.exec hstmt (h.loop heval hexec (D.body_of_whileDo hstmt) patience)
  | breakLoop line => exact h.exec hstmt (h.pure (D.signal_broke hstmt))
  | continueLoop line => exact h.exec hstmt (h.pure (D.signal_continued hstmt))
  | function name params body line =>
      exact h.exec hstmt (h.bindPlain (h.newFunction (D.value_of_function hstmt)) fun _ hvalue =>
        h.bindPlain (h.declare name hvalue) fun _ _ => h.pure hnormal)
  | returnValue value line =>
      cases value with
      | none =>
          have hnull : D.value .null := D.value_of_type_ne (by simp [Value.type])
          exact h.exec hstmt (h.pure (D.signal_returned hstmt hnull))
      | some value =>
          exact h.exec hstmt (h.bindPlain (heval value) fun _ hvalue =>
            h.pure (D.signal_returned hstmt hvalue))
  | misplaced sort => exact h.exec hstmt (h.fail rfl)

end Level

/-- A property that obeys a discipline holds of all evaluations, and of all executions of the
statements that the discipline admits. -/
theorem eval_and_exec (depth : Nat) :
    (∀ expr, P D.value (Run.eval patience depth expr) (.one depth (.eval expr))) ∧
      ∀ mode stmt, D.stmt mode stmt →
        P (D.signal mode) (Run.exec patience depth stmt) (.one depth (.exec stmt)) := by
  induction depth with
  | zero =>
      refine ⟨fun expr => h.eval ?_, fun mode stmt hstmt => h.exec hstmt ?_⟩
      · rw [eval_zero]
        exact h.bound (by simp)
      · exact h.bound (by simp)
  | succ depth ih =>
      exact ⟨fun expr => h.eval (h.eval_succ ih.1 ih.2 expr),
        fun _ _ hstmt => h.exec_succ ih.1 ih.2 hstmt⟩

/-! ## Programs -/

section

variable {depth : Nat} {mode : Mode} {stmts : List Stmt}

theorem declareFunctions (hstmts : ∀ stmt ∈ stmts, D.stmt mode stmt) :
    P (fun _ => True) (Run.declareFunctions (Run.exec patience depth) stmts)
      (declarationParts patience depth stmts) := by
  induction stmts with
  | nil => exact h.pure trivial
  | cons first rest ih =>
      rw [List.forall_mem_cons] at hstmts
      rw [Run.declareFunctions, declarationParts]
      cases first.isFunction with
      | true =>
          exact h.bind ((h.eval_and_exec depth).2 mode first hstmts.1) fun _ _ => ih hstmts.2
      | false => exact ih hstmts.2

/-- The statements of a program that declare no functions, if the property also holds where a
signal is left at the end of one. -/
theorem topLevel (hstmts : ∀ stmt ∈ stmts, D.stmt mode stmt)
    (hstray : ∀ signal fault line, D.signal mode signal → signal.strayFault? = some fault →
      P (fun _ => True) (throw (.fault ⟨fault, line⟩) : Run Unit) .none) :
    P (fun _ => True) (Run.topLevel (Run.exec patience depth) stmts)
      (topLevelParts patience depth stmts) := by
  induction stmts with
  | nil => exact h.pure trivial
  | cons first rest ih =>
      rw [List.forall_mem_cons] at hstmts
      rw [Run.topLevel, topLevelParts]
      cases first.isFunction with
      | true => exact ih hstmts.2
      | false =>
          refine h.bind ((h.eval_and_exec depth).2 mode first hstmts.1) fun signal hsignal => ?_
          cases hfault : signal.strayFault? with
          | none => exact ih hstmts.2
          | some fault => exact hstray signal fault first.line hsignal hfault

/-- A whole program. -/
theorem program {program : Program} (hstmts : ∀ stmt ∈ program.statements, D.stmt mode stmt)
    (hstray : ∀ signal fault line, D.signal mode signal → signal.strayFault? = some fault →
      P (fun _ => True) (throw (.fault ⟨fault, line⟩) : Run Unit) .none) :
    P (fun _ => True) (program.run patience depth) (programParts patience depth program) :=
  h.bind (h.declareFunctions hstmts) fun _ _ => h.topLevel hstmts hstray

end

end Obeys

end Run

end Bol
