/-
# The values of names

A run never takes a binding away from a scope, and it gives a name another value only by running
an assignment to that very name. Scopes are told apart by their places in the order of opening:
as long as a scope is open, it keeps its place. Together with what becomes of the names of scopes,
this is all that can happen to variables in the course of a run.
-/

import Bol.Proofs.Run.Values

namespace Bol

namespace State

/-- The value of a name in the scope at a place. -/
def value? (state : State) (place : Nat) (name : String) : Option Value :=
  state.environments[place]?.bind (·.get? name)

/-- Every binding of `before` is still there in `after`, with its value or with one that was
written to the name in that scope. -/
def KeepsBut (written : Nat → String → Value → Prop) (before after : State) : Prop :=
  ∀ place name value, before.value? place name = some value →
    after.value? place name = some value ∨
      ∃ new, written place name new ∧ after.value? place name = some new

section

variable {before after last : State} {written written' : Nat → String → Value → Prop}

theorem KeepsBut.refl (state : State) : KeepsBut written state state :=
  fun _ _ _ hvalue => .inl hvalue

theorem KeepsBut.of_environments (h : after.environments = before.environments) :
    KeepsBut written before after := by
  intro place name value hvalue
  rw [value?, h]
  exact .inl hvalue

theorem KeepsBut.trans (h : KeepsBut written before after) (h' : KeepsBut written after last) :
    KeepsBut written before last := by
  intro place name value hvalue
  obtain hsame | ⟨new, hwritten, hnew⟩ := h place name value hvalue
  · exact h' place name value hsame
  · obtain hsame | hchanged := h' place name new hnew
    · exact .inr ⟨new, hwritten, hsame⟩
    · exact .inr hchanged

theorem KeepsBut.mono (h : KeepsBut written before after)
    (hwritten : ∀ place name value, written place name value → written' place name value) :
    KeepsBut written' before after := by
  intro place name value hvalue
  exact (h place name value hvalue).imp_right fun ⟨new, hnew, hafter⟩ =>
    ⟨new, hwritten _ _ _ hnew, hafter⟩

theorem value?_lt {state : State} {place : Nat} {name : String} {value : Value}
    (h : state.value? place name = some value) : place < state.environments.length := by
  refine Nat.lt_of_not_le fun hplace => ?_
  rw [value?, List.getElem?_eq_none hplace] at h
  cases h

/-- Scopes that are opened later do not matter for what was there before. -/
theorem KeepsBut.of_opened {more : List Scope} (h : KeepsBut written after last)
    (hopened : after.environments = before.environments ++ more) :
    KeepsBut written before last := by
  intro place name value hvalue
  have hsame : after.value? place name = before.value? place name := by
    rw [value?, value?, hopened, List.getElem?_append_left (value?_lt hvalue)]
  exact h place name value (hsame.trans hvalue)

/-- Nor does it matter that they are closed in the end. -/
theorem KeepsBut.closed {more : List Scope} (h : KeepsBut written before after)
    (hclosed : after.environments = last.environments ++ more)
    (hlength : last.environments.length = before.environments.length) :
    KeepsBut written before last := by
  intro place name value hvalue
  have hsame : after.value? place name = last.value? place name := by
    rw [value?, value?, hclosed, List.getElem?_append_left (hlength ▸ value?_lt hvalue)]
  rw [← hsame]
  exact h place name value hvalue

/-- If one scope is replaced, the others keep their values. -/
theorem value?_of_replaced {earlier later : List Scope} {scope scope' : Scope}
    (hbefore : before.environments = earlier ++ scope :: later)
    (hafter : after.environments = earlier ++ scope' :: later) (place : Nat) (name : String) :
    place = earlier.length ∧ before.value? place name = scope.get? name ∧
        after.value? place name = scope'.get? name ∨
      place ≠ earlier.length ∧ after.value? place name = before.value? place name := by
  rw [value?, value?, hbefore, hafter]
  obtain hlt | rfl | hgt := Nat.lt_trichotomy place earlier.length
  · right
    rw [List.getElem?_append_left hlt, List.getElem?_append_left hlt]
    exact ⟨Nat.ne_of_lt hlt, rfl⟩
  · left
    simp
  · right
    rw [List.getElem?_append_right (Nat.le_of_lt hgt),
      List.getElem?_append_right (Nat.le_of_lt hgt)]
    obtain ⟨rest, hrest⟩ := Nat.exists_eq_add_one_of_ne_zero (Nat.sub_ne_zero_of_lt hgt)
    rw [hrest, List.getElem?_cons_succ, List.getElem?_cons_succ]
    exact ⟨Nat.ne_of_gt hgt, rfl⟩

/-- If one scope is replaced, what becomes of its bindings decides. -/
theorem KeepsBut.of_replaced {earlier later : List Scope} {scope scope' : Scope}
    (hbefore : before.environments = earlier ++ scope :: later)
    (hafter : after.environments = earlier ++ scope' :: later)
    (hscope : ∀ name value, scope.get? name = some value → scope'.get? name = some value ∨
      ∃ new, written earlier.length name new ∧ scope'.get? name = some new) :
    KeepsBut written before after := by
  intro place name value hvalue
  obtain ⟨rfl, hold, hnew⟩ | ⟨-, hsame⟩ := value?_of_replaced hbefore hafter place name
  · rw [hnew]
    exact hscope name value (hold ▸ hvalue)
  · exact .inl (hsame.trans hvalue)

/-- A write changes nothing but the name that is written. -/
theorem Writes.keepsBut {place : Nat} {name : String} {value : Value}
    (h : Writes before after place name value) (hwritten : written place name value) :
    KeepsBut written before after := by
  obtain ⟨earlier, scope, later, hbefore, rfl, -, hafter⟩ := h
  refine .of_replaced hbefore hafter fun name' old hold => ?_
  by_cases hname : name' = name
  · subst hname
    exact .inr ⟨value, hwritten, by simp [Scope.get?_set, hold]⟩
  · exact .inl (by rw [Scope.get?_set, if_neg hname, hold])

/-- A declaration changes nothing that was there. -/
theorem Adds.keepsBut {name : String} {value : Value} (h : Adds before after name value) :
    KeepsBut written before after := by
  obtain ⟨earlier, scope, later, hbefore, hnew, hafter⟩ := h
  refine .of_replaced hbefore hafter fun name' old hold => .inl ?_
  have hname : name' ≠ name := by
    rintro rfl
    simp [Scope.has, hold] at hnew
  rw [Scope.get?_add, if_neg hname, hold]

end

end State

open State

/-- The run of a part is that of an assignment: it evaluates its expression to `value` and then
binds `name` to it in the scope at `place`. -/
def Part.Assigns (patience : Nat) (part : Part) (place : Nat) (name : String) (value : Value) :
    Prop :=
  ∃ depth expr line evaluated, part.depth = depth + 1 ∧ part.task = .exec (.assign name expr line) ∧
    Run.eval patience depth expr part.state = (.ok value, evaluated) ∧
      Writes evaluated (part.after patience) place name value

namespace Run

/-- In the course of a computation, an assignment binds `name` to `value` at `place`. -/
def Assigned (patience : Nat) (parts : Parts) (state : State) (place : Nat) (name : String)
    (value : Value) : Prop :=
  ∃ part, InCourse patience parts state part ∧ part.Assigns patience place name value

/-- In the course of the computation, and when it ends, all bindings are there that were there
before, and a name has another value only if an assignment to it has been run. -/
structure KeepsBindings (patience : Nat) {α : Type} (act : Run α) (parts : Parts)
    (state : State) : Prop where
  result : KeepsBut (Assigned patience parts state) state (act state).2
  course : ∀ part, InCourse patience parts state part →
    KeepsBut (Assigned patience parts state) state part.state

theorem Assigned.mono {patience : Nat} {parts parts' : Parts} {state state' : State} {place : Nat}
    {name : String} {value : Value} (h : Assigned patience parts state place name value)
    (hcourse : ∀ part, InCourse patience parts state part → InCourse patience parts' state' part) :
    Assigned patience parts' state' place name value :=
  have ⟨part, hpart, hassigns⟩ := h
  ⟨part, hcourse part hpart, hassigns⟩

namespace KeepsBindings

variable {α β : Type} {patience : Nat} {act : Run α} {parts : Parts} {state : State}

/-- A computation without parts that keeps all bindings. -/
theorem of_keepsBut (h : ∀ written, KeepsBut written state (act state).2) :
    KeepsBindings patience act .none state :=
  ⟨h _, fun _ hpart => absurd hpart not_inCourse_none⟩

theorem of_environments (h : (act state).2.environments = state.environments) :
    KeepsBindings patience act .none state :=
  of_keepsBut fun _ => .of_environments h

theorem bind {next : α → Run β} {nextParts : α → Parts} (h : KeepsBindings patience act parts state)
    (hnext : ∀ value after, act state = (.ok value, after) →
      KeepsBindings patience (next value) (nextParts value) after) :
    KeepsBindings patience (act >>= next) (parts.andThen act nextParts) state := by
  have hfirst : ∀ part, InCourse patience parts state part →
      InCourse patience (parts.andThen act nextParts) state part :=
    fun _ hpart => inCourse_andThen.mpr (.inl hpart)
  have hresult := h.result.mono fun _ _ _ hwritten => hwritten.mono hfirst
  have hcourse := fun part hpart =>
    (h.course part hpart).mono fun _ _ _ hwritten => hwritten.mono hfirst
  rcases hact : act state with ⟨stop | value, after⟩ <;> rw [hact] at hresult
  · have hstopped : (act >>= next) state = (.error stop, after) := bind_apply_of_error hact
    refine ⟨by rwa [hstopped], fun part hpart => ?_⟩
    obtain hpart | ⟨_, _, hvalue, -⟩ := inCourse_andThen.mp hpart
    · exact hcourse part hpart
    · rw [hact] at hvalue
      cases hvalue
  · have hthen : (act >>= next) state = next value after := bind_apply_of_ok hact
    have hsecond : ∀ part, InCourse patience (nextParts value) after part →
        InCourse patience (parts.andThen act nextParts) state part :=
      fun _ hpart => inCourse_andThen.mpr (.inr ⟨value, after, hact, hpart⟩)
    have hresult' := (hnext value after hact).result.mono fun _ _ _ hwritten =>
      hwritten.mono hsecond
    have hcourse' := fun part hpart =>
      ((hnext value after hact).course part hpart).mono fun _ _ _ hwritten =>
        hwritten.mono hsecond
    refine ⟨by rw [hthen]; exact hresult.trans hresult', fun part hpart => ?_⟩
    obtain hpart | ⟨_, _, hvalue, hpart⟩ := inCourse_andThen.mp hpart
    · exact hcourse part hpart
    · rw [hact] at hvalue
      cases hvalue
      exact hresult.trans (hcourse' part hpart)

theorem lookup (name : String) : KeepsBindings patience (lookup name) .none state := by
  refine of_environments ?_
  rw [lookup_apply]
  cases Chain.get? state.chain name <;> rfl

theorem declare (name : String) (value : Value) :
    KeepsBindings patience (declare name value) .none state := by
  refine of_keepsBut fun written => ?_
  obtain hfailed | ⟨-, -, hadds⟩ := declare_cases name value state
  · rw [hfailed]
    exact .refl state
  · exact hadds.keepsBut

theorem inBlock (hscopes : SameScopes state.openBlock (act state.openBlock).2)
    (h : KeepsBindings patience act parts state.openBlock) :
    KeepsBindings patience (inBlock act) parts.inBlock state := by
  have hopened := environments_openBlock state
  obtain ⟨scope, hclosed⟩ := hscopes.environments_closeBlock
  exact ⟨(h.result.of_opened hopened).closed hclosed hscopes.closeBlock.length_environments,
    fun part hpart => (h.course part hpart).of_opened hopened⟩

theorem inCall (hscopes : SameScopes state.openCall (act state.openCall).2)
    (h : KeepsBindings patience act parts state.openCall) :
    KeepsBindings patience (inCall act) parts.inCall state := by
  have hopened := environments_openCall state
  have hclosed := hscopes.environments_closeCall
  exact ⟨(h.result.of_opened hopened).closed hclosed hscopes.closeCall.length_environments,
    fun part hpart => (h.course part hpart).of_opened hopened⟩

/-- What is run in the course of a task is what is run in the course of its parts, and the task
itself. -/
theorem one {depth : Nat} {task : Task}
    (h : KeepsBindings patience act (taskParts patience depth task) state) :
    KeepsBindings patience act (.one depth task) state := by
  have hcourse : ∀ part, InCourse patience (taskParts patience depth task) state part →
      InCourse patience (.one depth task) state part :=
    fun _ hpart => inCourse_one_iff.mpr (.inr hpart)
  refine ⟨h.result.mono fun _ _ _ hwritten => hwritten.mono hcourse, fun part hpart => ?_⟩
  obtain rfl | hpart := inCourse_one_iff.mp hpart
  · exact .refl state
  · exact (h.course part hpart).mono fun _ _ _ hwritten => hwritten.mono hcourse

theorem exec {depth : Nat} {stmt : Stmt}
    (h : KeepsBindings patience (execBody patience depth stmt)
      (taskParts patience depth (.exec stmt)) state) :
    KeepsBindings patience (exec patience depth stmt) (.one depth (.exec stmt)) state := by
  rw [exec_eq_onLine]
  refine one ⟨?_, h.course⟩
  rw [onLine_apply]
  exact h.result

/-- An assignment is the one statement that changes the value of a name. -/
theorem assign {depth : Nat} {name : String} {expr : Expr} {line : Option Int}
    (h : KeepsBindings patience (eval patience depth expr) (.one depth (.eval expr)) state) :
    KeepsBindings patience (Run.exec patience (depth + 1) (.assign name expr line))
      (.one (depth + 1) (.exec (.assign name expr line))) state := by
  have hcourse : ∀ part, InCourse patience (.one depth (.eval expr)) state part →
      InCourse patience (.one (depth + 1) (.exec (.assign name expr line))) state part :=
    fun _ hpart => inCourse_one_iff.mpr (.inr hpart)
  refine ⟨?_, fun part hpart => ?_⟩
  · have hevaluated := h.result.mono fun _ _ _ hwritten => hwritten.mono hcourse
    have hexec := exec_assign_apply patience depth name expr line state
    rcases heval : eval patience depth expr state with ⟨stop | value, evaluated⟩ <;>
      rw [heval] at hevaluated hexec <;> dsimp only at hevaluated hexec
    · rwa [hexec]
    · rw [hexec]
      refine hevaluated.trans ?_
      obtain hfailed | ⟨-, -, place, hwrites⟩ := assign_cases name value evaluated
      · rw [hfailed]
        exact .refl evaluated
      · refine hwrites.keepsBut ⟨_, inCourse_one.mpr .refl, depth, expr, line, evaluated, rfl,
          rfl, heval, ?_⟩
        simpa only [Part.after, hexec] using hwrites
  · obtain rfl | hpart := inCourse_one_iff.mp hpart
    · exact .refl state
    · exact (h.course part hpart).mono fun _ _ _ hwritten => hwritten.mono hcourse

end KeepsBindings

theorem keepsBindings_keeps (patience : Nat) : Keeps .free patience (KeepsBindings patience) where
  pure _ _ := .of_environments rfl
  bound _ _ := .of_environments rfl
  fail _ _ := .of_environments rfl
  strayBreak _ _ := .of_environments rfl
  strayContinue _ _ := .of_environments rfl
  bind h hnext := h.bind hnext
  lookup name _ := .lookup name
  declare name value _ := .declare name value
  print _ _ := .of_environments rfl
  newFunction _ _ _ _ := .of_environments rfl
  inBlock hscopes h := h.inBlock hscopes
  inCall hscopes h := h.inCall hscopes
  eval _ h := h.one
  exec _ _ h := h.exec
  assign _ _ h := h.assign

/-- What runs of all kinds do to the bindings that are there when they start. -/
structure KeepsAllBindings (patience depth : Nat) (state : State) : Prop where
  eval : ∀ expr, KeepsBindings patience (eval patience depth expr) (.one depth (.eval expr)) state
  exec : ∀ stmt, KeepsBindings patience (exec patience depth stmt) (.one depth (.exec stmt)) state
  statements : ∀ body, KeepsBindings patience (statements (Run.exec patience depth) body)
    (statementParts patience depth body) state
  call : ∀ function args, KeepsBindings patience (enter (Run.exec patience depth) function args)
    (callParts patience depth function args) state
  program : ∀ program : Program, KeepsBindings patience (program.run patience depth)
    (programParts patience depth program) state

/-- What runs of all kinds do to the names of the scopes that are open when they start. -/
structure KeepsNames (patience depth : Nat) (state : State) : Prop where
  eval : ∀ expr, (eval patience depth expr state).2.names = state.names
  call : ∀ function args,
    (enter (exec patience depth) function args state).2.names = state.names
  ifThen : ∀ test body otherwise line,
    (exec patience depth (.ifThen test body otherwise line) state).2.names = state.names
  whileDo : ∀ test body line,
    (exec patience depth (.whileDo test body line) state).2.names = state.names
  rounds : ∀ test body line part,
    IsDirectPart patience ⟨depth, .exec (.whileDo test body line), state⟩ part →
      SeesRound test body state part
  statements : ∀ body, DeclaresOnly (Stmt.declaredIn body) state
    (statements (exec patience depth) body state).2
  program : ∀ program : Program, DeclaresOnly (Stmt.declaredIn program.statements) state
    (program.run patience depth state).2

theorem keepsAllBindings (patience depth : Nat) (state : State) :
    KeepsAllBindings patience depth state := by
  have hkeeps := keepsBindings_keeps patience
  obtain ⟨heval, hexec⟩ := hkeeps.obeys.eval_and_exec depth
  have hstmts : ∀ stmts : List Stmt, ∀ stmt ∈ stmts, Discipline.free.stmt () stmt :=
    fun _ _ _ => trivial
  have hstate : state.Holds Discipline.free.value := fun _ _ _ _ => trivial
  exact {
    eval := fun expr => (heval expr state hstate).property
    exec := fun stmt => (hexec () stmt trivial state hstate).property
    statements := fun body =>
      (hkeeps.obeys.statements hexec (hstmts body) state hstate).property
    call := fun function args =>
      (hkeeps.obeys.enter hexec trivial (fun _ _ => trivial) state hstate).property
    program := fun program =>
      (hkeeps.program depth (hstmts program.statements) hstate fun _ _ _ _ _ _ =>
        .of_environments rfl).property }

theorem keepsNames (patience depth : Nat) (state : State) : KeepsNames patience depth state := by
  obtain ⟨heval, hexec⟩ := eval_and_exec_declares patience depth
  exact {
    eval := fun expr => (heval expr state).names_eq
    call := fun function args => (Declares.enter hexec function args state).names_eq
    ifThen := fun test body otherwise line =>
      (hexec (.ifThen test body otherwise line) state).names_eq
    whileDo := fun test body line => (hexec (.whileDo test body line) state).names_eq
    rounds := fun test body line part hpart => by
      cases depth with
      | zero => exact hpart.elim
      | succ depth => exact loopParts_names (.refl state) hpart
    statements := fun body => (Declares.statements hexec body state).declaresOnly
    program := fun program => (program_declares patience depth program state).declaresOnly }

/-- Scopes keep their bindings through every run, whether or not it ends early. No binding goes
away, and a name gets another value only by an assignment to it in that scope. Expressions, calls,
conditionals and loops leave all scopes with the names they had, so what one round of a loop
declares is in sight neither of its condition nor of the next round; and statements that are run in
a scope add to it only names that they declare themselves. -/
theorem scope_invariant (patience depth : Nat) (state : State) :
    KeepsAllBindings patience depth state ∧ KeepsNames patience depth state :=
  ⟨keepsAllBindings patience depth state, keepsNames patience depth state⟩

end Run

end Bol
