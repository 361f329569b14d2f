/-
# The statement that an error comes from

The line of an error is that of the innermost statement that was running when it came up. So to
every error with a line there is a statement, run in the course of the program, that the error came
up in without having a line yet; only a signal that nothing takes at the end of a statement of the
program itself is blamed on that statement. A statement that is run stands in the program or in the
body of a function that was declared before.
-/

import Bol.Proofs.Run.Values

namespace Bol

/-! ## Statements inside others -/

/-- The lists of statements directly inside a statement. -/
def Stmt.blocks : Stmt → List (List Stmt)
  | .ifThen _ body otherwise _ => body :: otherwise.blocks
  | .whileDo _ body _ | .function _ _ body _ => [body]
  | _ => []

/-- A statement stands in a list of statements or somewhere inside one of them. -/
inductive Stmt.OccursIn (stmt : Stmt) : List Stmt → Prop
  | here {stmts : List Stmt} (h : stmt ∈ stmts) : OccursIn stmt stmts
  | inside {stmts block : List Stmt} {outer : Stmt} (houter : outer ∈ stmts)
      (hblock : block ∈ outer.blocks) (h : OccursIn stmt block) : OccursIn stmt stmts

/-- A statement inside one that occurs in a list occurs there as well. -/
theorem Stmt.OccursIn.of_block {stmt outer : Stmt} {stmts block : List Stmt}
    (h : outer.OccursIn stmts) (hblock : block ∈ outer.blocks) (hstmt : stmt.OccursIn block) :
    stmt.OccursIn stmts := by
  induction h with
  | here houter => exact .inside houter hblock hstmt
  | inside houter hinner _ ih => exact .inside houter hinner ih

/-- All statements of the body of a function have a property. -/
def Value.BodyHolds (p : Stmt → Prop) : Value → Prop
  | .function called => ∀ stmt ∈ called.body, p stmt
  | _ => True

theorem Value.BodyHolds.mono {p q : Stmt → Prop} (h : ∀ stmt, p stmt → q stmt) {value : Value}
    (hvalue : value.BodyHolds p) : value.BodyHolds q := by
  cases value with
  | function called => exact fun stmt hstmt => h stmt (hvalue stmt hstmt)
  | null | boolean _ | number _ | string _ => trivial

/-- A property of statements that passes to the statements directly inside. -/
def Stmt.Inherited (p : Stmt → Prop) : Prop :=
  ∀ outer, p outer → ∀ block ∈ outer.blocks, ∀ inner ∈ block, p inner

/-- The discipline that admits statements with the property `p` in a program and statements with
the property `q` in the bodies of functions. The mode tells whether a function is around. -/
def Discipline.origins {p q : Stmt → Prop} (hp : Stmt.Inherited p) (hq : Stmt.Inherited q)
    (hbody : ∀ name params body line, p (.function name params body line) →
      ∀ inner ∈ body, q inner) :
    Discipline Bool where
  stmt
    | false, stmt => p stmt
    | true, stmt => q stmt
  signal _ signal := ∀ value, signal = .returned value → value.BodyHolds q
  value := Value.BodyHolds q
  inLoop := id
  inCall := true
  value_of_type_ne {v} h := by
    cases v with
    | function => exact absurd rfl h
    | null | boolean _ | number _ | string _ => trivial
  body_of_value h := h
  value_of_function {mode name params body line} h _ := by
    cases mode with
    | false => exact hbody name params body line h
    | true => exact hq _ h body List.mem_cons_self
  block_of_ifThen {mode _ _ _ _} h := by
    cases mode with
    | false => exact hp _ h
    | true => exact hq _ h
  body_of_whileDo {mode _ body _} h := by
    cases mode with
    | false => exact hp _ h body List.mem_cons_self
    | true => exact hq _ h body List.mem_cons_self
  signal_normal _ h := by cases h
  signal_broke _ _ h := by cases h
  signal_continued _ _ h := by cases h
  signal_returned _ hvalue _ h := by cases h; exact hvalue
  signal_of_inLoop h := h
  value_of_signal h := h _ rfl

namespace Run

variable {patience : Nat}

/-! ## Errors of parts -/

/-- An error came up in a statement that was run in the course of a computation with the given
parts: the statement itself has put its line to the error. -/
def RaisedInside (patience : Nat) (parts : Parts) (state : State) (stmt : Stmt) (fault : Fault) :
    Prop :=
  ∃ part, InCourse patience parts state part ∧ part.task = .exec stmt ∧
    (execBody patience part.depth stmt part.state).1 = .error (.fault ⟨fault, none⟩)

/-- To every error with a line there is a statement that has put it there. -/
def Traced (patience : Nat) {α : Type} (act : Run α) (parts : Parts) (state : State) : Prop :=
  ∀ fault line, (act state).1 = .error (.fault ⟨fault, some line⟩) →
    ∃ stmt, RaisedInside patience parts state stmt fault ∧ stmt.line = some line

/-- An operation that puts no line to its errors. -/
theorem traced_of_faulty {α : Type} {act : Run α} {parts : Parts} {state : State}
    (h : ∀ stop, (act state).1 = .error stop → ∀ fault line, stop ≠ .fault ⟨fault, some line⟩) :
    Traced patience act parts state :=
  fun fault line herror => absurd rfl (h _ herror fault line)

theorem RaisedInside.of_andThen {α : Type} {first : Parts} {act : Run α} {next : α → Parts}
    {state after : State} {value : α} {stmt : Stmt} {fault : Fault}
    (hact : act state = (.ok value, after))
    (h : RaisedInside patience (next value) after stmt fault) :
    RaisedInside patience (first.andThen act next) state stmt fault := by
  obtain ⟨part, hpart, hraised⟩ := h
  exact ⟨part, inCourse_andThen.mpr (.inr ⟨value, after, hact, hpart⟩), hraised⟩

theorem RaisedInside.andThen {α : Type} {first : Parts} {act : Run α} {next : α → Parts}
    {state : State} {stmt : Stmt} {fault : Fault}
    (h : RaisedInside patience first state stmt fault) :
    RaisedInside patience (first.andThen act next) state stmt fault := by
  obtain ⟨part, hpart, hraised⟩ := h
  exact ⟨part, inCourse_andThen.mpr (.inl hpart), hraised⟩

theorem RaisedInside.one {depth : Nat} {task : Task} {state : State} {stmt : Stmt} {fault : Fault}
    (h : RaisedInside patience (taskParts patience depth task) state stmt fault) :
    RaisedInside patience (.one depth task) state stmt fault := by
  obtain ⟨part, hpart, hraised⟩ := h
  exact ⟨part, inCourse_one_iff.mpr (.inr hpart), hraised⟩

theorem traced_bind {α β : Type} {act : Run α} {next : α → Run β} {parts : Parts}
    {nextParts : α → Parts} {state : State} (hact : Traced patience act parts state)
    (hnext : ∀ value after, act state = (.ok value, after) →
      Traced patience (next value) (nextParts value) after) :
    Traced patience (act >>= next) (parts.andThen act nextParts) state := by
  intro fault line herror
  obtain hfirst | ⟨value, after, hresult, hsecond⟩ := bind_eq_error_iff.mp herror
  · obtain ⟨stmt, hraised, hline⟩ := hact fault line hfirst
    exact ⟨stmt, hraised.andThen, hline⟩
  · obtain ⟨stmt, hraised, hline⟩ := hnext value after hresult fault line hsecond
    exact ⟨stmt, hraised.of_andThen hresult, hline⟩

/-- A statement puts its line to the errors that come up in it without one. -/
theorem traced_exec {depth : Nat} {stmt : Stmt} {state : State}
    (h : Traced patience (execBody patience depth stmt) (taskParts patience depth (.exec stmt))
      state) :
    Traced patience (exec patience depth stmt) (.one depth (.exec stmt)) state := by
  intro fault line herror
  rw [exec_eq_onLine, onLine_apply] at herror
  obtain ⟨own, hbody, hline⟩ := exists_of_tagged_eq_fault herror
  cases own with
  | none => exact ⟨stmt, ⟨_, inCourse_one_iff.mpr (.inl rfl), rfl, hbody⟩, hline.symm⟩
  | some own =>
      obtain rfl : line = own := Option.some.inj hline
      obtain ⟨inner, hraised, hinner⟩ := h fault line hbody
      exact ⟨inner, hraised.one, hinner⟩

theorem traced_keeps {Mode : Type} (D : Discipline Mode) (patience : Nat) :
    Keeps D patience (Traced patience) where
  pure _ _ := traced_of_faulty (by rintro _ ⟨⟩)
  bound _ hstop := traced_of_faulty (by rintro _ ⟨⟩ fault line; exact hstop _)
  fail _ _ := traced_of_faulty (by rintro _ ⟨⟩ fault line ⟨⟩)
  strayBreak _ _ := traced_of_faulty (by rintro _ ⟨⟩ fault line ⟨⟩)
  strayContinue _ _ := traced_of_faulty (by rintro _ ⟨⟩ fault line ⟨⟩)
  bind := traced_bind
  lookup name state := by
    refine traced_of_faulty fun stop hstop fault line => ?_
    rw [lookup_apply] at hstop
    split at hstop <;> cases hstop
    simp
  declare name value state := by
    refine traced_of_faulty fun stop hstop fault line => ?_
    obtain hfailed | ⟨hdone, -⟩ := declare_cases name value state
    · rw [hfailed] at hstop
      cases hstop
      simp
    · rw [hdone] at hstop
      cases hstop
  print _ _ := traced_of_faulty (by rintro _ ⟨⟩)
  newFunction _ _ _ _ := traced_of_faulty (by rintro _ ⟨⟩)
  inBlock _ h := h
  inCall _ h := h
  eval _ h fault line herror := by
    obtain ⟨stmt, hraised, hline⟩ := h fault line herror
    exact ⟨stmt, hraised.one, hline⟩
  exec _ _ h := traced_exec h
  assign {_ depth name expr line state} _ _ h := by
    refine traced_exec ?_
    have hassign : ∀ value after, Traced patience (do
        assign name value
        return Signal.normal) .none after := by
      refine fun value after => traced_of_faulty fun stop hstop fault line => ?_
      obtain hassign | ⟨_, _, -, ⟨⟩⟩ := bind_eq_error_iff.mp hstop
      obtain hfailed | ⟨hdone, -⟩ := assign_cases name value after
      · rw [hfailed] at hassign
        cases hassign
        simp
      · rw [hdone] at hassign
        cases hassign
    have hbody := traced_bind h fun value after _ => hassign value after
    rw [Parts.andThen_none] at hbody
    exact hbody

/-! ## Errors of programs -/

/-- What an error comes from in a computation with the given parts: a statement that it came up in
first, or one that the computation starts itself and that ends with a signal nothing takes. -/
inductive Raises (patience : Nat) (parts : Parts) (state : State) (stmt : Stmt) (fault : Fault) :
    Prop
  | inside (h : RaisedInside patience parts state stmt fault)
  | stray {depth : Nat} {start : State} {signal : Signal}
      (hpart : parts state ⟨depth, .exec stmt, start⟩)
      (hsignal : (exec patience depth stmt start).1 = .ok signal)
      (hfault : signal.strayFault? = some fault)

theorem Raises.of_andThen {α : Type} {first : Parts} {act : Run α} {next : α → Parts}
    {state after : State} {value : α} {stmt : Stmt} {fault : Fault}
    (hact : act state = (.ok value, after)) (h : Raises patience (next value) after stmt fault) :
    Raises patience (first.andThen act next) state stmt fault := by
  cases h with
  | inside h => exact .inside (h.of_andThen hact)
  | stray hpart hsignal hfault =>
      exact .stray (.inr ⟨value, after, hact, hpart⟩) hsignal hfault

/-- What an error comes from is run in the course of the computation. -/
theorem Raises.exists_part {parts : Parts} {state : State} {stmt : Stmt} {fault : Fault}
    (h : Raises patience parts state stmt fault) :
    ∃ part, InCourse patience parts state part ∧ part.task = .exec stmt := by
  cases h with
  | inside h =>
      obtain ⟨part, hpart, htask, -⟩ := h
      exact ⟨part, hpart, htask⟩
  | stray hpart => exact ⟨_, ⟨_, hpart, .refl⟩, rfl⟩

theorem holds_free (state : State) : state.Holds Discipline.free.value :=
  fun _ _ _ _ => trivial

theorem traced_exec_one (patience depth : Nat) (stmt : Stmt) (state : State) :
    Traced patience (exec patience depth stmt) (.one depth (.exec stmt)) state :=
  (((traced_keeps .free patience).obeys.eval_and_exec depth).2 () stmt trivial state
    (holds_free state)).property

theorem exists_raises_of_topLevel {depth : Nat} {stmts : List Stmt} {state : State} {fault : Fault}
    {line : Int}
    (h : (topLevel (exec patience depth) stmts state).1 = .error (.fault ⟨fault, some line⟩)) :
    ∃ stmt, Raises patience (topLevelParts patience depth stmts) state stmt fault ∧
      stmt.line = some line := by
  induction stmts generalizing state with
  | nil => cases h
  | cons first rest ih =>
      rw [topLevel] at h
      rw [topLevelParts]
      cases hfunction : first.isFunction with
      | true =>
          rw [hfunction] at h
          exact ih h
      | false =>
          rw [hfunction] at h
          obtain hfirst | ⟨signal, after, hresult, h⟩ := bind_eq_error_iff.mp h
          · obtain ⟨stmt, hraised, hline⟩ :=
              traced_exec_one patience depth first state fault line hfirst
            exact ⟨stmt, .inside hraised.andThen, hline⟩
          · -- Without a stray signal the rest is run; with one, it is blamed on this statement.
            cases hstray : signal.strayFault? with
            | none =>
                rw [hstray] at h
                obtain ⟨stmt, hraised, hline⟩ := ih h
                refine ⟨stmt, Raises.of_andThen hresult ?_, hline⟩
                simpa only [hstray] using hraised
            | some stray =>
                rw [hstray] at h
                have herror := Stop.fault.inj (Except.error.inj h)
                obtain ⟨rfl, hline⟩ := RuntimeError.mk.inj herror
                exact ⟨first, .stray (.inl rfl) (by rw [hresult]) hstray, hline⟩

/-- To every error of a program that has a line there is a statement of that line that it comes
from. -/
theorem exists_raises {depth : Nat} {program : Program} {state : State} {fault : Fault} {line : Int}
    (h : (program.run patience depth state).1 = .error (.fault ⟨fault, some line⟩)) :
    ∃ stmt, Raises patience (programParts patience depth program) state stmt fault ∧
      stmt.line = some line := by
  rw [Program.run] at h
  have hdeclared : Traced patience (declareFunctions (exec patience depth) program.statements)
      (declarationParts patience depth program.statements) state := by
    have hadmitted : ∀ stmt ∈ program.statements, Discipline.free.stmt () stmt :=
      fun _ _ => trivial
    exact ((traced_keeps .free patience).obeys.declareFunctions hadmitted state
      (holds_free state)).property
  obtain hfirst | ⟨_, after, hresult, h⟩ := bind_eq_error_iff.mp h
  · obtain ⟨stmt, hraised, hline⟩ := hdeclared fault line hfirst
    exact ⟨stmt, .inside hraised.andThen, hline⟩
  · obtain ⟨stmt, hraised, hline⟩ := exists_raises_of_topLevel h
    exact ⟨stmt, hraised.of_andThen hresult, hline⟩

/-- The statement that an error comes from is one that is admitted where it runs. -/
theorem Raises.admitted {Mode : Type} {D : Discipline Mode} {mode : Mode} {depth : Nat}
    {program : Program} {state : State} {stmt : Stmt} {fault : Fault}
    (h : Raises patience (programParts patience depth program) state stmt fault)
    (hstmts : ∀ stmt ∈ program.statements, D.stmt mode stmt) (hstate : state.Holds D.value) :
    ∃ mode, D.stmt mode stmt := by
  obtain ⟨part, hpart, htask⟩ := h.exists_part
  have hadmitted := (isAdmitted_keeps D patience).program depth hstmts hstate
    fun _ _ _ _ _ _ _ hnone => absurd hnone not_inCourse_none
  exact (hadmitted.property part hpart).stmt stmt htask

end Run

end Bol
