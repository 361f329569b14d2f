/-
# Well-placed control flow

`thamb` and `pudhe ja` belong in loops and `parat` belongs in functions. Where they stand there, a
run never finds one without a loop or a function around it: what a statement may end with is
bounded by the place where it stands, a loop takes what its body sends it, and a call starts over
with the place that bodies of functions have. Functions go around as values, so the values that a
run meets have to be well placed as well, and they stay so.
-/

import Bol.Proofs.Run.Values

namespace Bol

/-- Where statements stand: whether there is a loop around them in the same function body, or in
no function, and whether there is a function around them. -/
structure Place where
  inLoop : Bool
  inFunction : Bool

namespace Place

/-- The place of the statements of a program. -/
def top : Place := ⟨false, false⟩

/-- The place of the body of a loop. -/
def loopBody (place : Place) : Place := { place with inLoop := true }

/-- The place of the body of a function. -/
def functionBody : Place := ⟨false, true⟩

end Place

mutual

/-- Whether control flow is well placed in a statement that stands at a place. -/
def Stmt.isPlaced : Place → Stmt → Bool
  | place, .ifThen _ body otherwise _ =>
    Stmt.listIsPlaced place body && Alternative.isPlaced place otherwise
  | place, .whileDo _ body _ => Stmt.listIsPlaced place.loopBody body
  | place, .breakLoop _ | place, .continueLoop _ => place.inLoop
  | _, .function _ _ body _ => Stmt.listIsPlaced .functionBody body
  | place, .returnValue _ _ => place.inFunction
  | _, .declare _ _ _ | _, .assign _ _ _ | _, .print _ _ | _, .misplaced _ => true

def Stmt.listIsPlaced : Place → List Stmt → Bool
  | _, [] => true
  | place, stmt :: rest => stmt.isPlaced place && Stmt.listIsPlaced place rest

def Alternative.isPlaced : Place → Alternative → Bool
  | _, .nothing => true
  | place, .otherwise body => Stmt.listIsPlaced place body
  | place, .elseIf _ body next => Stmt.listIsPlaced place body && next.isPlaced place

end

/-- Whether control flow is well placed in a program. -/
def Program.isPlaced (program : Program) : Bool := Stmt.listIsPlaced .top program.statements

/-- Whether a value is well placed, that is, the body of a function. -/
def Value.isPlaced : Value → Bool
  | .function value => Stmt.listIsPlaced .functionBody value.body
  | .null | .boolean _ | .number _ | .string _ => true

/-- Whether a statement that stands at a place may end in some way. -/
def Signal.isPlaced : Place → Signal → Bool
  | _, .normal => true
  | place, .broke | place, .continued => place.inLoop
  | place, .returned value => place.inFunction && value.isPlaced

theorem Stmt.listIsPlaced_iff {place : Place} {stmts : List Stmt} :
    Stmt.listIsPlaced place stmts = true ↔ ∀ stmt ∈ stmts, stmt.isPlaced place = true := by
  induction stmts with
  | nil => simp [listIsPlaced]
  | cons first rest ih => simp [listIsPlaced, ih]

theorem Alternative.isPlaced_iff {place : Place} (otherwise : Alternative) :
    otherwise.isPlaced place = true ↔
      ∀ block ∈ otherwise.blocks, ∀ stmt ∈ block, stmt.isPlaced place = true := by
  match otherwise with
  | .nothing => simp [isPlaced, blocks]
  | .otherwise body => simp [isPlaced, blocks, Stmt.listIsPlaced_iff]
  | .elseIf test body next =>
      simp [isPlaced, blocks, Stmt.listIsPlaced_iff, isPlaced_iff next]

/-- Well-placed code and values, each place being a mode. -/
def Discipline.placed : Discipline Place where
  stmt place stmt := stmt.isPlaced place = true
  signal place signal := signal.isPlaced place = true
  value value := value.isPlaced = true
  inLoop := Place.loopBody
  inCall := .functionBody
  value_of_type_ne {v} h := by
    cases v with
    | function => exact absurd rfl h
    | null | boolean _ | number _ | string _ => rfl
  body_of_value h := Stmt.listIsPlaced_iff.mp h
  value_of_function h _ := h
  block_of_ifThen h := by
    simp only [Stmt.isPlaced, Bool.and_eq_true] at h
    exact List.forall_mem_cons.mpr
      ⟨Stmt.listIsPlaced_iff.mp h.1, (Alternative.isPlaced_iff _).mp h.2⟩
  body_of_whileDo h := Stmt.listIsPlaced_iff.mp h
  signal_normal := rfl
  signal_broke h := h
  signal_continued h := h
  signal_returned hstmt hvalue := by
    simp only [Stmt.isPlaced] at hstmt
    simp [Signal.isPlaced, hstmt, hvalue]
  signal_of_inLoop h := h
  value_of_signal h := h

namespace Run

/-- The computation does not fail for control flow that goes astray. -/
def NeverStrays {α : Type} (act : Run α) (state : State) : Prop :=
  ∀ fault line, (act state).1 = .error (.fault ⟨fault, line⟩) → fault.isStray = false

theorem neverStrays_onLine {α : Type} {line : Option Int} {act : Run α} {state : State}
    (h : NeverStrays act state) : NeverStrays (onLine line act) state := by
  intro fault line' hfault
  rw [onLine_apply] at hfault
  obtain ⟨own, hact, -⟩ := exists_of_tagged_eq_fault hfault
  exact h fault own hact

/-- Well-placed code never goes astray. -/
theorem neverStrays_keeps (patience : Nat) :
    Keeps .placed patience fun act _ state => NeverStrays act state where
  pure _ _ _ _ h := by cases h
  bound _ hstop _ _ h := by cases h; exact absurd rfl (hstop _)
  fail _ hfault _ _ h := by cases h; exact hfault
  strayBreak _ hsignal := by cases hsignal
  strayContinue _ hsignal := by cases hsignal
  bind {α β act next _ _ state} hact hnext fault line h := by
    obtain hfirst | ⟨value, after, hresult, h⟩ := bind_eq_error_iff.mp h
    · exact hact fault line hfirst
    · exact hnext value after hresult fault line h
  lookup name state fault line h := by
    rw [lookup_apply] at h
    cases hvalue : Chain.get? state.chain name <;> rw [hvalue] at h <;> cases h
    rfl
  declare name value state fault line h := by
    obtain hfailed | ⟨hok, -⟩ := declare_cases name value state
    · rw [hfailed] at h
      cases h
      rfl
    · rw [hok] at h
      cases h
  print _ _ _ _ h := by cases h
  newFunction _ _ _ _ _ _ h := by cases h
  inBlock _ h := h
  inCall _ h := h
  eval _ h := h
  exec _ _ h := by
    rw [exec_eq_onLine]
    exact neverStrays_onLine h
  assign {_ depth name expr line state} _ _ h fault line' hfault := by
    rw [exec_assign_apply] at hfault
    rcases heval : eval patience depth expr state with ⟨stop | value, evaluated⟩ <;>
      rw [heval] at hfault <;> dsimp only at hfault <;>
      obtain ⟨own, hresult, -⟩ := exists_of_tagged_eq_fault hfault
    · cases hresult
      exact h fault own (by rw [heval])
    · obtain hfailed | ⟨hok, -⟩ := assign_cases name value evaluated
      · rw [hfailed] at hresult
        cases hresult
        rfl
      · rw [hok] at hresult
        cases hresult

/-- A loop ends normally or returns from the function around it. -/
theorem loop_yields {test : Run Bool} {body : Run Signal} {rounds : Nat} {state : State}
    {signal : Signal} (h : (loop test body rounds state).1 = .ok signal) :
    signal = .normal ∨ ∃ value, signal = .returned value := by
  induction rounds generalizing state with
  | zero => cases h
  | succ rounds ih =>
      rw [loop] at h
      obtain ⟨holds, tested, -, hround⟩ := exists_of_bind_eq_ok h
      cases holds with
      | false =>
          cases hround
          exact .inl rfl
      | true =>
          rw [if_pos rfl] at hround
          obtain ⟨ended, after, -, hrest⟩ := exists_of_bind_eq_ok hround
          cases ended with
          | normal | continued => exact ih hrest
          | broke =>
              cases hrest
              exact .inl rfl
          | returned value =>
              cases hrest
              exact .inr ⟨value, rfl⟩

theorem exec_whileDo_yields {patience depth : Nat} {test : Expr} {body : List Stmt}
    {line : Option Int} {state : State} {signal : Signal}
    (h : (exec patience depth (.whileDo test body line) state).1 = .ok signal) :
    signal = .normal ∨ ∃ value, signal = .returned value := by
  rw [exec_eq_onLine, onLine_apply] at h
  have hbody := of_tagged_eq_ok h
  cases depth with
  | zero => cases hbody
  | succ depth => exact loop_yields hbody

/-- What well-placed control flow comes to in a part of a run. -/
structure StaysPlaced (patience : Nat) (part : Part) : Prop where
  before : part.state.Holds fun value => value.isPlaced = true
  after : (part.after patience).Holds fun value => value.isPlaced = true
  eval : ∀ expr, part.task = .eval expr → NeverStrays (eval patience part.depth expr) part.state
  exec : ∀ stmt, part.task = .exec stmt → NeverStrays (exec patience part.depth stmt) part.state ∧
    ∃ place, stmt.isPlaced place = true ∧
      ∀ signal, (exec patience part.depth stmt part.state).1 = .ok signal →
        signal.isPlaced place = true
  loop : ∀ test body line signal, part.task = .exec (.whileDo test body line) →
    (Run.exec patience part.depth (.whileDo test body line) part.state).1 = .ok signal →
      signal = .normal ∨ ∃ value, signal = .returned value

theorem staysPlaced_of_isAdmitted {patience : Nat} {part : Part}
    (h : part.IsAdmitted .placed) : StaysPlaced patience part := by
  obtain ⟨depth, task, state⟩ := part
  obtain ⟨hstate, hstmt⟩ := h
  obtain ⟨heval, hexec⟩ := (neverStrays_keeps patience).obeys.eval_and_exec depth
  cases task with
  | eval expr =>
      obtain ⟨-, -, hafter, hproperty⟩ := heval expr state hstate
      exact ⟨hstate, hafter, fun _ htask => by cases htask; exact hproperty, nofun, nofun⟩
  | exec stmt =>
      obtain ⟨place, hplaced⟩ := hstmt stmt rfl
      obtain ⟨hsignal, -, hafter, hproperty⟩ := hexec place stmt hplaced state hstate
      exact ⟨hstate, hafter, nofun,
        fun _ htask => by cases htask; exact ⟨hproperty, place, hplaced, hsignal⟩,
        fun _ _ _ _ htask hsignal => by cases htask; exact exec_whileDo_yields hsignal⟩

/-- Where control flow is well placed in a program and in the functions stored when it starts, its
run never goes astray, however long it is: no fault says that a statement is used outside of a
loop or of a function. In its course every loop ends normally or with a return, every other
statement ends in a way that its place allows, and all functions that are stored stay well
placed. -/
theorem placed_program_never_strays (patience depth : Nat) (program : Program) (state : State)
    (hprogram : program.isPlaced = true)
    (hstate : state.Holds fun value => value.isPlaced = true) :
    NeverStrays (program.run patience depth) state ∧
      ((program.run patience depth state).2.Holds fun value => value.isPlaced = true) ∧
      ∀ part, InCourse patience (programParts patience depth program) state part →
        StaysPlaced patience part := by
  have hstmts := Stmt.listIsPlaced_iff.mp hprogram
  have hsignal : ∀ (signal : Signal) (fault : Fault), signal.isPlaced .top = true →
      signal.strayFault? ≠ some fault := by
    intro signal fault hplaced hfault
    cases signal <;> cases hfault <;> cases hplaced
  have hrun := (neverStrays_keeps patience).program depth hstmts hstate
    fun signal fault _ hplaced hfault => absurd hfault (hsignal signal fault hplaced)
  have hparts := (isAdmitted_keeps .placed patience).program depth hstmts hstate
    fun signal fault _ hplaced hfault => absurd hfault (hsignal signal fault hplaced)
  exact ⟨hrun.property, hrun.holds, fun part hpart =>
    staysPlaced_of_isAdmitted (hparts.property part hpart)⟩

/-- A function that leaves a loop by a return. -/
def leavesLoop : Function :=
  ⟨0, "f", [], [.whileDo (.boolean true) [.returnValue (some (.boolean false)) none] none]⟩

/-- A program whose loop asks the stored function whether to go on. -/
def asksInLoop : Program :=
  ⟨[.whileDo (.boolean true)
    [.ifThen (.call "f" []) [.continueLoop none] (.otherwise [.breakLoop none]) none] none]⟩

/-- A state in which `leavesLoop` is stored. -/
def storesLeavesLoop : State := ⟨⟨[("f", .function leavesLoop)]⟩, [], [], #[], 1⟩

/-- Program and stored function are well placed, and the run comes to a normal end. -/
theorem placed_program_never_strays_asksInLoop :
    NeverStrays (asksInLoop.run 2 9) storesLeavesLoop ∧
      (asksInLoop.run 2 9 storesLeavesLoop).1.toBool = true := by
  have hstored : storesLeavesLoop.Holds fun value => value.isPlaced = true := by
    simp [State.Holds, State.environments, Scope.Holds, storesLeavesLoop, Value.isPlaced]
    decide
  exact ⟨(placed_program_never_strays 2 9 asksInLoop storesLeavesLoop (by decide) hstored).1,
    by decide +kernel⟩

end Run

end Bol
