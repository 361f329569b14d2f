/-
# Simulations

Two runs are compared by a relation between computations. If the operations of a run are related,
and if putting related computations together gives related ones, then similar expressions,
statements and programs are related: this one induction over the depth of a run carries the
comparison of any two runs that go through the same operations. A `Simulation` says what may stand
for what: which names within one call, which expressions, statements and functions, which values,
and which faults on which lines.
-/

import Bol.Proofs.Run.Discipline
import Bol.Proofs.Run.Matching

namespace Bol

/-! ## Values -/

/-- Which values may stand for each other: equal ones, or functions that are shown alike, that take
as many arguments, and that are told apart in one run where they are in the other. That may depend
on how many functions have been made, and values that stand for each other go on to do so when more
are made. -/
structure ValueRelation where
  value : (made : Nat) → Value → Value → Prop
  value_mono : ∀ {made made' : Nat} {v v' : Value}, made ≤ made' → value made v v' →
    value made' v v'
  value_of_type_ne : ∀ {made : Nat} {v : Value}, v.type ≠ .function → value made v v
  eq_of_type_ne : ∀ {made : Nat} {v v' : Value}, value made v v' → v.type ≠ .function → v' = v
  function_of_value : ∀ {made : Nat} {function : Function} {v' : Value},
    value made (.function function) v' →
      ∃ function', v' = .function function' ∧ function.name = function'.name ∧
        function.params.length = function'.params.length
  equal_eq : ∀ {made : Nat} {v v' w w' : Value}, value made v v' → value made w w' →
    v.equal w = v'.equal w'

namespace ValueRelation

variable {V : ValueRelation} {made : Nat} {value value' other other' : Value}
  (h : V.value made value value')
include h

theorem type_eq : value.type = value'.type := by
  cases value with
  | function function =>
      obtain ⟨function', rfl, -⟩ := V.function_of_value h
      rfl
  | null | boolean _ | number _ | string _ => rw [V.eq_of_type_ne h (by simp [Value.type])]

theorem display_eq : value.display = value'.display := by
  cases value with
  | function function =>
      obtain ⟨function', rfl, hname, -⟩ := V.function_of_value h
      exact congrArg (fun name => s!"<karya {name}>") hname
  | null | boolean _ | number _ | string _ => rw [V.eq_of_type_ne h (by simp [Value.type])]

theorem shown_eq : Fault.shown value = Fault.shown value' := by
  rw [Fault.shown, Fault.shown, type_eq h, display_eq h]

/-- Operators look at functions only to show them and to tell them apart. -/
theorem apply_eq (op : BinaryOp) (hother : V.value made other other') :
    op.apply value other = op.apply value' other' := by
  by_cases hplain : value.type = .function ∨ other.type = .function
  · have hplain' : value'.type = .function ∨ other'.type = .function := by
      rwa [← type_eq h, ← type_eq hother]
    rw [BinaryOp.apply_of_function hplain, BinaryOp.apply_of_function hplain', type_eq h,
      display_eq h, type_eq hother, display_eq hother, V.equal_eq h hother]
  · rw [not_or] at hplain
    rw [V.eq_of_type_ne h hplain.1, V.eq_of_type_ne hother hplain.2]

theorem alike_conditionType (keyword : TokenKind) :
    Fault.Alike (.conditionType keyword value) (.conditionType keyword value') :=
  ⟨congrArg (fun shown => s!"'{keyword.spelling}' needs a boolean condition, got {shown}")
    (shown_eq h), rfl⟩

theorem alike_logicalOperand (op : BinaryOp) :
    Fault.Alike (.logicalOperand op value) (.logicalOperand op value') :=
  ⟨congrArg (fun shown => s!"'{op.spelling}' needs booleans, got {shown}") (shown_eq h), rfl⟩

theorem alike_notOperand : Fault.Alike (.notOperand value) (.notOperand value') :=
  ⟨congrArg (fun shown => s!"'nahi' needs a boolean, got {shown}") (shown_eq h), rfl⟩

theorem alike_negateOperand : Fault.Alike (.negateOperand value) (.negateOperand value') :=
  ⟨congrArg (fun shown => s!"unary '-' needs a number, got {shown}") (shown_eq h), rfl⟩

end ValueRelation

/-- The same way for a statement to end, with related values. -/
inductive Signal.Related (V : Value → Value → Prop) : Signal → Signal → Prop
  | normal : Related V .normal .normal
  | broke : Related V .broke .broke
  | continued : Related V .continued .continued
  | returned {value value' : Value} (h : V value value') :
      Related V (.returned value) (.returned value')

/-! ## Computations -/

open Run in
/-- What may stand for what in two runs, and that the operations of a run do not tell it apart.
`Runs` relates two computations and their results, in a frame, which says how the running calls
differ, and once some number of functions has been made. -/
structure Simulation extends ValueRelation where
  Frame : Type
  name : Frame → String → String → Prop
  expr : Frame → Expr → Expr → Prop
  stmt : Frame → Stmt → Stmt → Prop
  function : (params : List String) → (body : List Stmt) → (params' : List String) →
    (body' : List Stmt) → Prop
  fault : Fault → Fault → Prop
  line : Option Int → Option Int → Prop
  /-- How much more depth the second run has. -/
  lag : Nat
  Runs : {α β : Type} → Frame → (made : Nat) → ((made : Nat) → α → β → Prop) → Run α → Run β → Prop
  similar_or_runs : ∀ {frame : Frame} {e e' : Expr}, expr frame e e' →
    e.Similar (name frame) (expr frame) e' ∨ ∀ patience depth made,
      Runs frame made value (eval patience depth e) (eval patience (lag + depth) e')
  similar_of_stmt : ∀ {frame : Frame} {s s' : Stmt}, stmt frame s s' →
    s.Similar (name frame) (expr frame) (stmt frame) function s'
  line_of_stmt : ∀ {frame : Frame} {s s' : Stmt}, stmt frame s s' → line s.line s'.line
  fault_of_alike : ∀ {cause cause' : Fault}, cause.Alike cause' → fault cause cause'
  fault_notFunction : ∀ {frame : Frame} {callee callee' : String}, name frame callee callee' →
    fault (.notFunction callee) (.notFunction callee')
  fault_argumentCount : ∀ {frame : Frame} {callee callee' : String} (expected got : Nat),
    name frame callee callee' →
      fault (.argumentCount callee expected got) (.argumentCount callee' expected got)
  pure : ∀ {α β : Type} {frame : Frame} {made : Nat} {rel : Nat → α → β → Prop} {value : α}
    {value' : β}, (∀ made' ≥ made, rel made' value value') →
      Runs frame made rel (Pure.pure value) (Pure.pure value')
  fail : ∀ {α β : Type} {frame : Frame} {made : Nat} {rel : Nat → α → β → Prop}
    {cause cause' : Fault}, fault cause cause' →
      Runs frame made rel (Run.fail cause) (Run.fail cause')
  throw : ∀ {α β : Type} {frame : Frame} {made : Nat} {rel : Nat → α → β → Prop}
    {cause cause' : Fault} {place place' : Option Int}, fault cause cause' → line place place' →
      Runs frame made rel (MonadExcept.throw (.fault ⟨cause, place⟩))
        (MonadExcept.throw (.fault ⟨cause', place'⟩))
  unfinished : ∀ {α β : Type} {frame : Frame} {made : Nat} {rel : Nat → α → β → Prop},
    Runs frame made rel (MonadExcept.throw .unfinished) (MonadExcept.throw .unfinished)
  /-- Without any depth, the second run has none either, or nothing is said of the first one. -/
  tooDeep : ∀ {α β : Type} {frame : Frame} {made : Nat} {rel : Nat → α → β → Prop}
    (act : Nat → Run α) (act' : Nat → Run β), act 0 = MonadExcept.throw .tooDeep →
      act' 0 = MonadExcept.throw .tooDeep → Runs frame made rel (act 0) (act' (lag + 0))
  bind : ∀ {α β γ δ : Type} {frame : Frame} {made : Nat} {rel : Nat → α → β → Prop}
    {rel' : Nat → γ → δ → Prop} {act : Run α} {act' : Run β} {next : α → Run γ} {next' : β → Run δ},
    Runs frame made rel act act' →
      (∀ made' value value', made ≤ made' → rel made' value value' →
        Runs frame made' rel' (next value) (next' value')) →
      Runs frame made rel' (act >>= next) (act' >>= next')
  inBlock : ∀ {α β : Type} {frame : Frame} {made : Nat} {rel : Nat → α → β → Prop} {act : Run α}
    {act' : Run β}, Runs frame made rel act act' →
      Runs frame made rel (Run.inBlock act) (Run.inBlock act')
  onLine : ∀ {α β : Type} {frame : Frame} {made : Nat} {rel : Nat → α → β → Prop} {act : Run α}
    {act' : Run β} {place place' : Option Int}, line place place' → Runs frame made rel act act' →
      Runs frame made rel (Run.onLine place act) (Run.onLine place' act')
  lookup : ∀ {frame : Frame} {made : Nat} {x x' : String}, name frame x x' →
    Runs frame made value (Run.lookup x) (Run.lookup x')
  declare : ∀ {frame : Frame} {made : Nat} {x x' : String} {v v' : Value}, name frame x x' →
    value made v v' → Runs frame made (fun _ _ _ => True) (Run.declare x v) (Run.declare x' v')
  assign : ∀ {frame : Frame} {made : Nat} {x x' : String} {v v' : Value}, name frame x x' →
    value made v v' → Runs frame made (fun _ _ _ => True) (Run.assign x v) (Run.assign x' v')
  print : ∀ {frame : Frame} {made : Nat} (text : String),
    Runs frame made (fun _ _ _ => True) (Run.print text) (Run.print text)
  newFunction : ∀ {frame : Frame} {made : Nat} (name : String) {params params' : List String}
    {body body' : List Stmt}, function params body params' body' →
      Runs frame made (fun made f f' => value made (.function f) (.function f'))
        (Run.newFunction name params body) (Run.newFunction name params' body')
  /-- A call has a frame of its own for what comes after the parameters. -/
  call : ∀ (frame : Frame) {made : Nat} {f f' : Function} {args args' : List Value},
    value made (.function f) (.function f') → List.Forall₂ (value made) args args' →
      args.length = f.params.length →
      ∃ inner, List.Forall₂ (stmt inner) f.body f'.body ∧ ∀ {rest rest' : Run Value},
        (∀ made, Runs inner made value rest rest') →
          Runs frame made value
            (Run.inCall do
              bindParams (f.params.zip args)
              rest)
            (Run.inCall do
              bindParams (f'.params.zip args')
              rest')

namespace Simulation

open Run ValueRelation

variable {S : Simulation} {α β : Type} {frame : S.Frame} {made : Nat} {rel : Nat → α → β → Prop}

/-- How statements end. -/
abbrev Signals (S : Simulation) (made : Nat) : Signal → Signal → Prop :=
  Signal.Related (S.value made)

theorem fail_of_alike {cause cause' : Fault} (h : cause.Alike cause') :
    S.Runs frame made rel (Run.fail cause) (Run.fail cause') :=
  S.fail (S.fault_of_alike h)

/-! ## Expressions and statements -/

theorem ofBinary (op : BinaryOp) {left left' right right' : Value}
    (hleft : S.value made left left') (hright : S.value made right right') :
    S.Runs frame made S.value (ofExcept (op.apply left right))
      (ofExcept (op.apply left' right')) := by
  rw [← apply_eq hleft op hright]
  cases happly : op.apply left right with
  | ok value => exact S.pure fun _ _ => S.value_of_type_ne (BinaryOp.type_apply_ne happly)
  | error fault => exact fail_of_alike (.refl fault)

theorem ofUnary (op : UnaryOp) {value value' : Value} (h : S.value made value value') :
    S.Runs frame made S.value (ofExcept (op.apply value)) (ofExcept (op.apply value')) := by
  by_cases hplain : value.type = .function
  · have hnot := alike_notOperand h
    have hnegate := alike_negateOperand h
    have hplain' := type_eq h ▸ hplain
    cases value <;> cases hplain
    cases value' <;> cases hplain'
    cases op with
    | negate => exact fail_of_alike hnegate
    | not => exact fail_of_alike hnot
    | other spelling => exact fail_of_alike (.refl _)
  · rw [S.eq_of_type_ne h hplain]
    cases happly : op.apply value with
    | ok value => exact S.pure fun _ _ => S.value_of_type_ne (UnaryOp.type_apply_ne happly)
    | error fault => exact fail_of_alike (.refl fault)

/-- A computation that returns a boolean as it is and fails on every other value. -/
theorem ofBoolean {act : Value → Run Bool} {fault : Value → Fault}
    (hboolean : ∀ value, act (.boolean value) = Pure.pure value)
    (hother : ∀ value, value.type ≠ .boolean → act value = Run.fail (fault value))
    {value value' : Value} (h : S.value made value value')
    (hfault : (fault value).Alike (fault value')) :
    S.Runs frame made (fun _ => Eq) (act value) (act value') := by
  by_cases hvalue : value.type = .boolean
  · rw [S.eq_of_type_ne h (by simp [hvalue])]
    cases value <;> cases hvalue
    rw [hboolean]
    exact S.pure fun _ _ => rfl
  · rw [hother _ hvalue, hother _ (type_eq h ▸ hvalue)]
    exact fail_of_alike hfault

theorem condition (keyword : TokenKind) {value value' : Value} (h : S.value made value value') :
    S.Runs frame made (fun _ => Eq) (Run.condition keyword value)
      (Run.condition keyword value') := by
  refine ofBoolean (fun _ => rfl) (fun value hvalue => ?_) h (alike_conditionType h keyword)
  cases value with
  | boolean _ => exact absurd rfl hvalue
  | null | number _ | string _ | function _ => rfl

theorem logicalOperand (op : BinaryOp) {value value' : Value} (h : S.value made value value') :
    S.Runs frame made (fun _ => Eq) (Run.logicalOperand op value)
      (Run.logicalOperand op value') := by
  refine ofBoolean (fun _ => rfl) (fun value hvalue => ?_) h (alike_logicalOperand h op)
  cases value with
  | boolean _ => exact absurd rfl hvalue
  | null | number _ | string _ | function _ => rfl

theorem lookupFunction {callee callee' : String} (h : S.name frame callee callee') :
    S.Runs frame made (fun made function function' => S.value made (.function function)
        (.function function'))
      (Run.lookupFunction callee) (Run.lookupFunction callee') := by
  refine S.bind (S.lookup h) fun made' value value' _ hvalue => ?_
  have hfault := S.fault_notFunction h
  cases value with
  | function function =>
      obtain ⟨function', rfl, -⟩ := S.function_of_value hvalue
      exact S.pure fun _ hmade => S.value_mono hmade hvalue
  | null | boolean _ | number _ | string _ =>
      rw [S.eq_of_type_ne hvalue (by simp [Value.type])]
      exact S.fail hfault

section Parts

variable {exec exec' : Stmt → Run Signal} {eval eval' : Expr → Run Value}
  (heval : ∀ frame made expr expr', S.expr frame expr expr' →
    S.Runs frame made S.value (eval expr) (eval' expr'))
  (hexec : ∀ frame made stmt stmt', S.stmt frame stmt stmt' →
    S.Runs frame made S.Signals (exec stmt) (exec' stmt'))

section

include heval

theorem arguments {exprs exprs' : List Expr}
    (hexprs : List.Forall₂ (S.expr frame) exprs exprs') :
    S.Runs frame made (fun made => List.Forall₂ (S.value made)) (exprs.mapM eval)
      (exprs'.mapM eval') := by
  induction hexprs generalizing made with
  | nil => exact S.pure fun _ _ => .nil
  | cons hexpr _ ih =>
      rw [List.mapM_cons, List.mapM_cons]
      refine S.bind (heval _ _ _ _ hexpr) fun _ _ _ _ hvalue =>
        S.bind ih fun _ _ _ hmade hvalues => ?_
      exact S.pure fun _ hmade' => .cons (S.value_mono (Nat.le_trans hmade hmade') hvalue)
        (hvalues.imp fun _ _ => S.value_mono hmade')

/-- What follows a condition that does not hold. -/
theorem alternative {body body' : List Stmt → Run Signal}
    (hbody : ∀ made block block', List.Forall₂ (S.stmt frame) block block' →
      S.Runs frame made S.Signals (body block) (body' block'))
    {otherwise otherwise' : Alternative}
    (h : otherwise.Matches (S.expr frame) (S.stmt frame) otherwise') :
    S.Runs frame made S.Signals (Run.alternative eval body otherwise)
      (Run.alternative eval' body' otherwise') := by
  induction h generalizing made with
  | nothing => exact S.pure fun _ _ => .normal
  | otherwise hblock => exact hbody _ _ _ hblock
  | elseIf htest hblock _ ih =>
      refine S.bind (heval _ _ _ _ htest) fun _ _ _ _ hvalue =>
        S.bind (condition .elseIf hvalue) fun _ holds holds' _ hsame => ?_
      subst hsame
      cases holds with
      | true => exact hbody _ _ _ hblock
      | false => exact ih

end

section

include hexec

theorem statements {stmts stmts' : List Stmt} (hstmts : List.Forall₂ (S.stmt frame) stmts stmts') :
    S.Runs frame made S.Signals (Run.statements exec stmts) (Run.statements exec' stmts') := by
  induction hstmts generalizing made with
  | nil => exact S.pure fun _ _ => .normal
  | cons hfirst _ ih =>
      refine S.bind (hexec _ _ _ _ hfirst) fun _ signal signal' _ hsignal => ?_
      cases hsignal with
      | normal => exact ih
      | broke => exact S.pure fun _ _ => .broke
      | continued => exact S.pure fun _ _ => .continued
      | returned hvalue => exact S.pure fun _ hmade => .returned (S.value_mono hmade hvalue)

theorem enter {function function' : Function}
    (hfunction : S.value made (.function function) (.function function')) {args args' : List Value}
    (hargs : List.Forall₂ (S.value made) args args')
    (hlength : args.length = function.params.length) :
    S.Runs frame made S.value (Run.enter exec function args) (Run.enter exec' function' args') := by
  obtain ⟨inner, hbody, hcall⟩ := S.call frame hfunction hargs hlength
  refine hcall fun made => S.bind (statements hexec hbody) fun _ signal signal' _ hsignal => ?_
  cases hsignal with
  | normal => exact S.pure fun _ _ => S.value_of_type_ne (by simp [Value.type])
  | returned hvalue => exact S.pure fun _ hmade => S.value_mono hmade hvalue
  | broke => exact fail_of_alike (.refl _)
  | continued => exact fail_of_alike (.refl _)

end

theorem loop {test test' : Run Bool} {body body' : Run Signal}
    (htest : ∀ made, S.Runs frame made (fun _ => Eq) test test')
    (hbody : ∀ made, S.Runs frame made S.Signals body body') (rounds : Nat) :
    S.Runs frame made S.Signals (Run.loop test body rounds) (Run.loop test' body' rounds) := by
  induction rounds generalizing made with
  | zero => exact S.unfinished
  | succ rounds ih =>
      refine S.bind (htest _) fun _ holds holds' _ hsame => ?_
      subst hsame
      cases holds with
      | false => exact S.pure fun _ _ => .normal
      | true =>
          refine S.bind (hbody _) fun _ signal signal' _ hsignal => ?_
          cases hsignal with
          | normal => exact ih
          | continued => exact ih
          | broke => exact S.pure fun _ _ => .normal
          | returned hvalue => exact S.pure fun _ hmade => .returned (S.value_mono hmade hvalue)

end Parts

section Level

variable {patience depth : Nat}
  (heval : ∀ frame made expr expr', S.expr frame expr expr' →
    S.Runs frame made S.value (eval patience depth expr) (eval patience (S.lag + depth) expr'))
  (hexec : ∀ frame made stmt stmt', S.stmt frame stmt stmt' →
    S.Runs frame made S.Signals (exec patience depth stmt) (exec patience (S.lag + depth) stmt'))
include heval hexec

/-- One level of evaluation, the parts being known to be related. -/
theorem eval_succ {expr expr' : Expr} (h : S.expr frame expr expr') :
    S.Runs frame made S.value (eval patience (depth + 1) expr)
      (eval patience (S.lag + depth + 1) expr') := by
  obtain hsimilar | hruns := S.similar_or_runs h
  · rw [Run.eval.eq_def, Run.eval.eq_def patience (S.lag + depth + 1)]
    cases hsimilar with
    | number | string | boolean | null =>
        exact S.pure fun _ _ => S.value_of_type_ne (by simp [Value.type])
    | name hname => exact S.lookup hname
    | binary hleft hright =>
        rename_i op _ _ _ _
        dsimp only
        split
        · refine S.bind (heval _ _ _ _ hleft) fun _ value value' _ hvalue =>
            S.bind (logicalOperand op hvalue) fun _ first first' _ hsame => ?_
          subst hsame
          split
          · exact S.pure fun _ _ => S.value_of_type_ne (by simp [Value.type])
          · refine S.bind (heval _ _ _ _ hright) fun _ value value' _ hvalue =>
              S.bind (logicalOperand op hvalue) fun _ second second' _ hsame => ?_
            subst hsame
            exact S.pure fun _ _ => S.value_of_type_ne (by simp [Value.type])
        · exact S.bind (heval _ _ _ _ hleft) fun _ _ _ _ hleft =>
            S.bind (heval _ _ _ _ hright) fun _ _ _ hmade hright =>
              ofBinary op (S.value_mono hmade hleft) hright
    | unary hoperand =>
        exact S.bind (heval _ _ _ _ hoperand) fun _ _ _ _ hvalue => ofUnary _ hvalue
    | call hcallee hargs =>
        refine S.bind (lookupFunction hcallee) fun _ function function' _ hfunction =>
          S.bind (arguments heval hargs) fun _ values values' hmade hvalues => ?_
        obtain ⟨_, hsame, -, hlength⟩ := S.function_of_value hfunction
        cases hsame
        rw [← hlength, ← hvalues.length_eq]
        split
        · rename_i hcount
          exact enter hexec (S.value_mono hmade hfunction) hvalues hcount
        · exact S.fail (S.fault_argumentCount _ _ hcallee)
    | misplaced => exact fail_of_alike (.refl _)
  · exact hruns patience (depth + 1) made

/-- One level of execution, the parts being known to be related. -/
theorem exec_succ {stmt stmt' : Stmt} (h : S.stmt frame stmt stmt') :
    S.Runs frame made S.Signals (exec patience (depth + 1) stmt)
      (exec patience (S.lag + depth + 1) stmt') := by
  have hblock : ∀ made block block', List.Forall₂ (S.stmt frame) block block' →
      S.Runs frame made S.Signals (Run.inBlock (Run.statements (exec patience depth) block))
        (Run.inBlock (Run.statements (exec patience (S.lag + depth)) block')) :=
    fun _ _ _ hbody => S.inBlock (statements hexec hbody)
  rw [exec_eq_onLine, exec_eq_onLine patience (S.lag + depth + 1) stmt']
  apply S.onLine (S.line_of_stmt h)
  cases S.similar_of_stmt h with
  | declare hname hvalue =>
      exact S.bind (heval _ _ _ _ hvalue) fun _ _ _ _ hvalue =>
        S.bind (S.declare hname hvalue) fun _ _ _ _ _ => S.pure fun _ _ => .normal
  | assign hname hvalue =>
      exact S.bind (heval _ _ _ _ hvalue) fun _ _ _ _ hvalue =>
        S.bind (S.assign hname hvalue) fun _ _ _ _ _ => S.pure fun _ _ => .normal
  | print hvalue =>
      refine S.bind (heval _ _ _ _ hvalue) fun _ _ _ _ hvalue => ?_
      rw [← display_eq hvalue]
      exact S.bind (S.print _) fun _ _ _ _ _ => S.pure fun _ _ => .normal
  | ifThen htest hbody hotherwise =>
      refine S.bind (heval _ _ _ _ htest) fun _ _ _ _ hvalue =>
        S.bind (condition .ifWord hvalue) fun _ holds holds' _ hsame => ?_
      subst hsame
      cases holds with
      | true => exact hblock _ _ _ hbody
      | false => exact alternative heval hblock hotherwise
  | whileDo htest hbody =>
      exact loop (fun _ => S.bind (heval _ _ _ _ htest) fun _ _ _ _ hvalue =>
        condition .whileWord hvalue) (fun _ => hblock _ _ _ hbody) patience
  | breakLoop => exact S.pure fun _ _ => .broke
  | continueLoop => exact S.pure fun _ _ => .continued
  | function hname hfunction =>
      exact S.bind (S.newFunction _ hfunction) fun _ _ _ _ hvalue =>
        S.bind (S.declare hname hvalue) fun _ _ _ _ _ => S.pure fun _ _ => .normal
  | returnValue hvalue =>
      cases hvalue with
      | none => exact S.pure fun _ _ => .returned (S.value_of_type_ne (by simp [Value.type]))
      | some hvalue =>
          exact S.bind (heval _ _ _ _ hvalue) fun _ _ _ _ hvalue =>
            S.pure fun _ hmade => .returned (S.value_mono hmade hvalue)
  | misplaced => exact fail_of_alike (.refl _)

end Level

/-- Related expressions and statements run alike. -/
theorem eval_and_exec (S : Simulation) (patience depth : Nat) :
    (∀ frame made expr expr', S.expr frame expr expr' →
        S.Runs frame made S.value (eval patience depth expr)
          (eval patience (S.lag + depth) expr')) ∧
      ∀ frame made stmt stmt', S.stmt frame stmt stmt' →
        S.Runs frame made S.Signals (exec patience depth stmt)
          (exec patience (S.lag + depth) stmt') := by
  induction depth with
  | zero =>
      refine ⟨fun _ _ expr expr' _ => ?_, fun _ _ stmt stmt' _ => ?_⟩
      · exact S.tooDeep (eval patience · expr) (eval patience · expr') (eval_zero ..) (eval_zero ..)
      · exact S.tooDeep (exec patience · stmt) (exec patience · stmt') (exec_zero ..) (exec_zero ..)
  | succ depth ih =>
      exact ⟨fun _ _ _ _ h => eval_succ ih.1 ih.2 h, fun _ _ _ _ h => exec_succ ih.1 ih.2 h⟩

/-! ## Programs -/

section

variable (S frame) (patience depth : Nat) {stmts stmts' : List Stmt}
  (hstmts : List.Forall₂ (S.stmt frame) stmts stmts')
include hstmts

theorem declareFunctions :
    S.Runs frame made (fun _ _ _ => True) (Run.declareFunctions (exec patience depth) stmts)
      (Run.declareFunctions (exec patience (S.lag + depth)) stmts') := by
  induction hstmts generalizing made with
  | nil => exact S.pure fun _ _ => trivial
  | cons hfirst _ ih =>
      rw [Run.declareFunctions, Run.declareFunctions, (S.similar_of_stmt hfirst).isFunction_eq]
      split
      · exact S.bind ((S.eval_and_exec patience depth).2 _ _ _ _ hfirst) fun _ _ _ _ _ => ih
      · exact ih

theorem topLevel :
    S.Runs frame made (fun _ _ _ => True) (Run.topLevel (exec patience depth) stmts)
      (Run.topLevel (exec patience (S.lag + depth)) stmts') := by
  induction hstmts generalizing made with
  | nil => exact S.pure fun _ _ => trivial
  | cons hfirst _ ih =>
      have hline := S.line_of_stmt hfirst
      have hstray : ∀ cause : Fault, S.fault cause cause := fun _ => S.fault_of_alike (.refl _)
      rw [Run.topLevel, Run.topLevel, (S.similar_of_stmt hfirst).isFunction_eq]
      split
      · exact ih
      · refine S.bind ((S.eval_and_exec patience depth).2 _ _ _ _ hfirst)
          fun _ signal signal' _ hsignal => ?_
        cases hsignal with
        | normal => exact ih
        | broke | continued | returned _ => exact S.throw (hstray _) hline

end

/-- Programs of related statements run alike. -/
theorem program (S : Simulation) (frame : S.Frame) (patience depth : Nat)
    {program program' : Program}
    (h : List.Forall₂ (S.stmt frame) program.statements program'.statements) :
    S.Runs frame made (fun _ _ _ => True) (program.run patience depth)
      (program'.run patience (S.lag + depth)) :=
  S.bind (S.declareFunctions frame patience depth h) fun _ _ _ _ _ =>
    S.topLevel frame patience depth h

end Simulation

end Bol
