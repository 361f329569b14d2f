/-
# Parts of a run

A run consists of smaller runs: to run a statement is to evaluate its expressions and to run the
statements of its blocks, and a call runs the body of a function. `IsDirectPart` relates a run to
the runs that it starts itself and `IsPart` to all that are started in its course, each with the
state that it starts in. So a part says what happens at one moment of a run, and what a run has
done can be told from its parts.
-/

import Bol.Eval
import Bol.Proofs.Run.Operations
import Mathlib.Logic.Relation

namespace Bol

/-- Something to do: evaluate an expression or run a statement. -/
inductive Task
  | eval (expr : Expr)
  | exec (stmt : Stmt)

/-- Something to do, the depth that is left for it, and the state that it starts in. -/
structure Part where
  depth : Nat
  task : Task
  state : State

namespace State

/-- The state with one more scope in sight. -/
def openBlock (state : State) : State := { state with locals := .empty :: state.locals }

/-- The state without the innermost scope. -/
def closeBlock (state : State) : State := { state with locals := state.locals.tail }

/-- The state in which the body of a call starts. -/
def openCall (state : State) : State :=
  { state with locals := [.empty], callers := state.locals :: state.callers }

/-- The state in which the caller goes on. -/
def closeCall (state : State) : State :=
  { state with locals := state.callers.headD [], callers := state.callers.tail }

end State

namespace Run

theorem inBlock_eq {α : Type} (act : Run α) (state : State) :
    inBlock act state = ((act state.openBlock).1, (act state.openBlock).2.closeBlock) := rfl

theorem inCall_eq {α : Type} (act : Run α) (state : State) :
    inCall act state = ((act state.openCall).1, (act state.openCall).2.closeCall) := rfl

/-- The parts that a computation has when it starts in some state. -/
abbrev Parts := State → Part → Prop

namespace Parts

def none : Parts := fun _ _ => False

/-- A single part, which starts where the computation does. -/
def one (depth : Nat) (task : Task) : Parts := fun state part => part = ⟨depth, task, state⟩

/-- The parts of `act`, which are `first`, and of what follows if `act` has a value. -/
def andThen {α : Type} (first : Parts) (act : Run α) (next : α → Parts) : Parts :=
  fun state part =>
    first state part ∨ ∃ value after, act state = (.ok value, after) ∧ next value after part

def inBlock (parts : Parts) : Parts := fun state => parts state.openBlock

def inCall (parts : Parts) : Parts := fun state => parts state.openCall

@[simp]
theorem andThen_none {α : Type} (first : Parts) (act : Run α) :
    first.andThen act (fun _ => none) = first := by
  funext state part
  simp [andThen, none]

end Parts

/-! ## The parts of expressions and statements -/

section

variable (patience depth : Nat)

/-- The parts of statements that are run in order. -/
def statementParts : List Stmt → Parts
  | [] => .none
  | first :: rest =>
    .andThen (.one depth (.exec first)) (exec patience depth first) fun
      | .normal => statementParts rest
      | _ => .none

/-- The parts of statements that are run in a scope of their own. -/
def blockParts (body : List Stmt) : Parts := (statementParts patience depth body).inBlock

/-- The parts of a condition and of what depends on it. -/
def testParts (keyword : TokenKind) (test : Expr) (next : Bool → Parts) : Parts :=
  .andThen (.one depth (.eval test)) (eval patience depth test) fun value =>
    .andThen .none (condition keyword value) next

def alternativeParts : Alternative → Parts
  | .nothing => .none
  | .otherwise body => blockParts patience depth body
  | .elseIf test body next =>
    testParts patience depth .elseIf test fun holds =>
      if holds then blockParts patience depth body else alternativeParts next

def loopParts (test : Expr) (body : List Stmt) : (rounds : Nat) → Parts
  | 0 => .none
  | rounds + 1 =>
    testParts patience depth .whileWord test fun holds =>
      if holds then
        .andThen (blockParts patience depth body)
          (inBlock (statements (exec patience depth) body)) fun
            | .normal | .continued => loopParts test body rounds
            | .broke | .returned _ => .none
      else .none

/-- The parts of expressions that are evaluated in order. -/
def argumentParts : List Expr → Parts
  | [] => .none
  | first :: rest =>
    .andThen (.one depth (.eval first)) (eval patience depth first) fun _ => argumentParts rest

def callParts (function : Function) (args : List Value) : Parts :=
  (Parts.none.andThen (bindParams (function.params.zip args)) fun _ =>
    statementParts patience depth function.body).inCall

/-- The parts of an expression, `depth` being what is left for them. -/
def evalParts : Expr → Parts
  | .binary op left right =>
    .andThen (.one depth (.eval left)) (eval patience depth left) fun value =>
      match op.decisive? with
      | some decisive =>
        .andThen .none (logicalOperand op value) fun first =>
          if first = decisive then .none else .one depth (.eval right)
      | none => .one depth (.eval right)
  | .unary _ operand => .one depth (.eval operand)
  | .call callee args =>
    .andThen .none (lookupFunction callee) fun function =>
      .andThen (argumentParts patience depth args) (args.mapM (eval patience depth)) fun values =>
        if values.length = function.params.length then
          callParts patience depth function values
        else .none
  | _ => .none

/-- The parts of a statement, `depth` being what is left for them. -/
def execParts : Stmt → Parts
  | .declare _ value _ | .assign _ value _ | .print value _ | .returnValue (some value) _ =>
    .one depth (.eval value)
  | .ifThen test body otherwise _ =>
    testParts patience depth .ifWord test fun holds =>
      if holds then blockParts patience depth body
      else alternativeParts patience depth otherwise
  | .whileDo test body _ => loopParts patience depth test body patience
  | _ => .none

/-- The parts of the function declarations among the statements of a program. -/
def declarationParts : List Stmt → Parts
  | [] => .none
  | first :: rest =>
    if first.isFunction then
      .andThen (.one depth (.exec first)) (exec patience depth first) fun _ =>
        declarationParts rest
    else declarationParts rest

/-- The parts of the other statements of a program. -/
def topLevelParts : List Stmt → Parts
  | [] => .none
  | first :: rest =>
    if first.isFunction then topLevelParts rest
    else
      .andThen (.one depth (.exec first)) (exec patience depth first) fun signal =>
        match signal.strayFault? with
        | none => topLevelParts rest
        | some _ => .none

/-- The parts of a program. -/
def programParts (program : Program) : Parts :=
  .andThen (declarationParts patience depth program.statements)
    (declareFunctions (exec patience depth) program.statements) fun _ =>
      topLevelParts patience depth program.statements

end

/-- The parts of something to do, `depth` being what is left for it. Without any depth left,
nothing is done. -/
def taskParts (patience : Nat) : (depth : Nat) → Task → Parts
  | 0, _ => .none
  | depth + 1, .eval expr => evalParts patience depth expr
  | depth + 1, .exec stmt => execParts patience depth stmt

end Run

open Run

/-- The run of `whole` starts the run of `part` itself. -/
def IsDirectPart (patience : Nat) (whole part : Part) : Prop :=
  taskParts patience whole.depth whole.task whole.state part

/-- The run of `part` is the run of `whole` or is started in its course. -/
def IsPart (patience : Nat) : (whole part : Part) → Prop :=
  Relation.ReflTransGen (IsDirectPart patience)

/-- A part that is run in the course of a computation with the given parts. -/
def Run.InCourse (patience : Nat) (parts : Parts) (state : State) (part : Part) : Prop :=
  ∃ direct, parts state direct ∧ IsPart patience direct part

namespace Run

variable {patience : Nat} {state : State} {part : Part}

@[simp]
theorem not_inCourse_none : ¬ InCourse patience .none state part := by
  rintro ⟨_, hnone, -⟩
  exact hnone

theorem inCourse_andThen {α : Type} {first : Parts} {act : Run α} {next : α → Parts} :
    InCourse patience (first.andThen act next) state part ↔
      InCourse patience first state part ∨ ∃ value after,
        act state = (.ok value, after) ∧ InCourse patience (next value) after part := by
  constructor
  · rintro ⟨direct, hdirect | ⟨value, after, hact, hdirect⟩, hpart⟩
    · exact .inl ⟨direct, hdirect, hpart⟩
    · exact .inr ⟨value, after, hact, direct, hdirect, hpart⟩
  · rintro (⟨direct, hdirect, hpart⟩ | ⟨value, after, hact, direct, hdirect, hpart⟩)
    · exact ⟨direct, .inl hdirect, hpart⟩
    · exact ⟨direct, .inr ⟨value, after, hact, hdirect⟩, hpart⟩

theorem inCourse_one {depth : Nat} {task : Task} :
    InCourse patience (.one depth task) state part ↔ IsPart patience ⟨depth, task, state⟩ part := by
  simp [InCourse, Parts.one]

/-- What is run in the course of a task is the task itself and what is run in the course of its
parts. -/
theorem inCourse_one_iff {depth : Nat} {task : Task} :
    InCourse patience (.one depth task) state part ↔
      part = ⟨depth, task, state⟩ ∨
        InCourse patience (taskParts patience depth task) state part := by
  rw [inCourse_one, IsPart, Relation.ReflTransGen.cases_head_iff]
  constructor
  · rintro (rfl | ⟨direct, hdirect, hpart⟩)
    · exact .inl rfl
    · exact .inr ⟨direct, hdirect, hpart⟩
  · rintro (rfl | ⟨direct, hdirect, hpart⟩)
    · exact .inl rfl
    · exact .inr ⟨direct, hdirect, hpart⟩

end Run

namespace Part

/-- The state that a part leaves. -/
def after (patience : Nat) (part : Part) : State :=
  match part.task with
  | .eval expr => (eval patience part.depth expr part.state).2
  | .exec stmt => (exec patience part.depth stmt part.state).2

end Part

/-! ## A statement apart from its line -/

namespace Run

/-- What a statement does, apart from the line that its faults get. -/
def execBody (patience : Nat) : (depth : Nat) → Stmt → Run Signal
  | 0, _ => throw .tooDeep
  | depth + 1, .declare name value _ => do
    declare name (← eval patience depth value)
    return .normal
  | depth + 1, .assign name value _ => do
    assign name (← eval patience depth value)
    return .normal
  | depth + 1, .print value _ => do
    print (← eval patience depth value).display
    return .normal
  | depth + 1, .ifThen test body otherwise _ => do
    if ← condition .ifWord (← eval patience depth test) then
      inBlock (statements (exec patience depth) body)
    else
      alternative (eval patience depth)
        (fun block => inBlock (statements (exec patience depth) block)) otherwise
  | depth + 1, .whileDo test body _ =>
    loop (do condition .whileWord (← eval patience depth test))
      (inBlock (statements (exec patience depth) body)) patience
  | _ + 1, .breakLoop _ => return .broke
  | _ + 1, .continueLoop _ => return .continued
  | _ + 1, .function name params body _ => do
    declare name (.function (← newFunction name params body))
    return .normal
  | _ + 1, .returnValue none _ => return .returned .null
  | depth + 1, .returnValue (some value) _ => return .returned (← eval patience depth value)
  | _ + 1, .misplaced sort => fail (.unknownStatement sort)

theorem onLine_throw_bound {α : Type} (line : Option Int) (stop : Stop)
    (h : ∀ error, stop ≠ .fault error) : onLine line (throw stop : Run α) = throw stop := by
  funext state
  cases stop with
  | fault error => exact absurd rfl (h error)
  | tooDeep | unfinished => rfl

/-- A statement does what it does, and its line goes to the faults that have none. -/
theorem exec_eq_onLine (patience depth : Nat) (stmt : Stmt) :
    exec patience depth stmt = onLine stmt.line (execBody patience depth stmt) := by
  rw [exec.eq_def]
  cases depth with
  | zero => exact (onLine_throw_bound _ _ (by simp)).symm
  | succ depth =>
      cases stmt with
      | returnValue value line => cases value <;> rfl
      | misplaced sort => rfl
      | _ => rfl

end Run

end Bol
