/-
# The order of declarations

The functions of a program are declared before its other statements run. So it does not matter
where the declarations stand, among the other statements or among themselves, as long as their names
are new and distinct. What depends on it is the order in which the functions are made, which shows
only in their numbers.
-/

import Bol.Proofs.Run.Numbering
import Bol.Proofs.Run.Scopes
import Bol.Proofs.Source.Likeness

namespace Bol

namespace Program

/-- The statements of a program that declare functions. -/
def functions (program : Program) : List Stmt := program.statements.filter Stmt.isFunction

/-- The statements of a program that declare no functions. -/
def others (program : Program) : List Stmt := program.statements.filter (!·.isFunction)

/-- The same statements in another order, in which those that declare no functions follow each other
as before. -/
structure Reordered (program program' : Program) : Prop where
  statements : program.statements.Perm program'.statements
  others : program.others = program'.others

/-- The numbers that one function has in two runs from a state in which `made` functions have been
made: the function was there before, or it is what one declaration makes, or it is made later, when
all functions of the program have been declared. -/
@[mk_iff]
inductive SameFunction (made : Nat) (program program' : Program) : Nat → Nat → Prop
  | earlier {id : Nat} (h : id < made) : SameFunction made program program' id id
  | declared {i j : Nat} {stmt : Stmt} (h : program.functions[i]? = some stmt)
      (h' : program'.functions[j]? = some stmt) :
      SameFunction made program program' (made + i) (made + j)
  | later {id : Nat} (h : made + program.functions.length ≤ id) :
      SameFunction made program program' id id

end Program

/-! ## Declaring the functions of a program -/

/-- The state once a function has been declared. -/
def State.withFunction (state : State) (name : String) (params : List String) (body : List Stmt) :
    State :=
  { state with
    globals := state.globals.add name (.function ⟨state.functions, name, params, body⟩)
    functions := state.functions + 1 }

/-- The state once the functions among the statements have been declared. -/
def State.withFunctions (state : State) : List Stmt → State
  | [] => state
  | .function name params body _ :: rest => (state.withFunction name params body).withFunctions rest
  | _ :: rest => state.withFunctions rest

namespace Run

theorem exec_function_apply (patience depth : Nat) {state : State} (hlocals : state.locals = [])
    {name : String} (hnew : state.globals.has name = false) (params : List String)
    (body : List Stmt) (line : Option Int) :
    exec patience (depth + 1) (.function name params body line) state =
      (.ok .normal, state.withFunction name params body) := by
  obtain ⟨globals, locals, callers, output, functions⟩ := state
  subst hlocals
  have hbody : execBody patience (depth + 1) (.function name params body line) = (do
    declare name (.function (← newFunction name params body))
    return Signal.normal) := rfl
  rw [exec_eq_onLine, onLine_apply, hbody, bind_apply_of_ok (newFunction_apply ..), bind_apply,
    declare_apply]
  dsimp only
  rw [Scope.declare?, hnew]
  rfl

/-- Functions with names that are new and distinct are declared. -/
theorem declareFunctions_apply (patience depth : Nat) {stmts : List Stmt} {state : State}
    (hlocals : state.locals = [])
    (hdistinct : (Stmt.declaredIn (stmts.filter Stmt.isFunction)).Nodup)
    (hnew : ∀ name ∈ Stmt.declaredIn (stmts.filter Stmt.isFunction),
      state.globals.has name = false) :
    declareFunctions (exec patience (depth + 1)) stmts state =
      (.ok (), state.withFunctions (stmts.filter Stmt.isFunction)) := by
  induction stmts generalizing state with
  | nil => rfl
  | cons stmt rest ih =>
      cases stmt with
      | function name params body line =>
          obtain ⟨hnotin, hdistinct⟩ := List.nodup_cons.mp hdistinct
          obtain ⟨hname, hnew⟩ := List.forall_mem_cons.mp hnew
          have hfunction : (Stmt.function name params body line).isFunction = true := rfl
          rw [declareFunctions, if_pos hfunction,
            bind_apply_of_ok (exec_function_apply patience depth hlocals hname params body line)]
          refine ih hlocals hdistinct fun other hother => ?_
          have hne : other ≠ name := fun hsame => hnotin (hsame ▸ hother)
          rw [Scope.has, State.withFunction, Scope.get?_add, if_neg hne]
          exact hnew other hother
      | _ => exact ih hlocals hdistinct hnew

/-- The other statements run as if there were no declarations between them. -/
theorem topLevel_filter (exec : Stmt → Run Signal) (stmts : List Stmt) :
    topLevel exec (stmts.filter (!·.isFunction)) = topLevel exec stmts := by
  induction stmts with
  | nil => rfl
  | cons stmt rest ih =>
      cases hfunction : stmt.isFunction with
      | true => rw [List.filter_cons_of_neg (by simp [hfunction]), topLevel, if_pos hfunction, ih]
      | false =>
          rw [List.filter_cons_of_pos (by simp [hfunction]), topLevel, topLevel, hfunction, ih]

end Run

namespace State

variable {state : State}

theorem functions_withFunctions {stmts : List Stmt} (h : ∀ stmt ∈ stmts, stmt.isFunction = true) :
    (state.withFunctions stmts).functions = state.functions + stmts.length := by
  induction stmts generalizing state with
  | nil => rfl
  | cons stmt rest ih =>
      obtain ⟨hfirst, hrest⟩ := List.forall_mem_cons.mp h
      cases stmt with
      | function name params body line =>
          rw [withFunctions, ih hrest, withFunction, List.length_cons, Nat.add_assoc,
            Nat.add_comm 1]
      | _ => cases hfirst

/-- Declaring functions opens no scopes and prints nothing. -/
theorem withFunctions_keeps (state : State) (stmts : List Stmt) :
    (state.withFunctions stmts).locals = state.locals ∧
      (state.withFunctions stmts).callers = state.callers ∧
      (state.withFunctions stmts).output = state.output := by
  induction stmts generalizing state with
  | nil => exact ⟨rfl, rfl, rfl⟩
  | cons stmt rest ih =>
      cases stmt with
      | function name params body line => exact ih (state.withFunction name params body)
      | _ => exact ih state

/-- A name that is not declared is bound to what it was bound to. -/
theorem get?_withFunctions_of_notMem {stmts : List Stmt} {name : String}
    (h : name ∉ Stmt.declaredIn stmts) :
    (state.withFunctions stmts).globals.get? name = state.globals.get? name := by
  induction stmts generalizing state with
  | nil => rfl
  | cons stmt rest ih =>
      rw [Stmt.declaredIn, List.flatMap_cons, List.mem_append, not_or] at h
      cases stmt with
      | function other params body line =>
          rw [withFunctions, ih h.2, withFunction, Scope.get?_add]
          exact if_neg (List.ne_of_not_mem_cons h.1)
      | _ => exact ih h.2

/-- The name of a declaration is bound to the function that the declaration makes, whose number
tells the place of the declaration among all of them. -/
theorem get?_withFunctions (state : State) {stmts : List Stmt}
    (h : ∀ stmt ∈ stmts, stmt.isFunction = true)
    (hdistinct : (Stmt.declaredIn stmts).Nodup) {i : Nat} {name : String} {params : List String}
    {body : List Stmt} {line : Option Int}
    (hplace : stmts[i]? = some (.function name params body line)) :
    (state.withFunctions stmts).globals.get? name =
      some (.function ⟨state.functions + i, name, params, body⟩) := by
  induction stmts generalizing state i with
  | nil => cases hplace
  | cons stmt rest ih =>
      obtain ⟨hfirst, hrest⟩ := List.forall_mem_cons.mp h
      cases stmt with
      | function other params' body' line' =>
          obtain ⟨hnotin, hdistinct⟩ := List.nodup_cons.mp hdistinct
          cases i with
          | zero =>
              cases hplace
              rw [withFunctions, get?_withFunctions_of_notMem hnotin, withFunction, Scope.get?_add,
                if_pos rfl, Nat.add_zero]
          | succ i =>
              rw [withFunctions, ih _ hrest hdistinct hplace, withFunction, Nat.add_assoc,
                Nat.add_comm 1]
      | _ => cases hfirst

end State

namespace Program

variable {program program' : Program}

theorem Reordered.functions (h : program.Reordered program') :
    program.functions.Perm program'.functions :=
  h.statements.filter _

theorem isFunction_of_mem_functions {stmt : Stmt} (h : stmt ∈ program.functions) :
    stmt.isFunction = true :=
  (List.mem_filter.mp h).2

/-- Statements that declare distinct names are at one place each. -/
theorem place_unique (hdistinct : (Stmt.declaredIn program.functions).Nodup) {i j : Nat}
    {stmt : Stmt} (hi : program.functions[i]? = some stmt)
    (hj : program.functions[j]? = some stmt) : i = j := by
  have hfunctions : ∀ stmt ∈ program.functions, stmt.isFunction = true :=
    fun _ => isFunction_of_mem_functions
  have hfunction := hfunctions stmt (List.mem_of_getElem? hi)
  cases stmt with
  | function name params body line =>
      have hsame := State.initial.get?_withFunctions hfunctions hdistinct hi
      rw [State.initial.get?_withFunctions hfunctions hdistinct hj] at hsame
      simpa using hsame.symm
  | _ => cases hfunction

theorem Reordered.nodup (h : program.Reordered program')
    (hdistinct : (Stmt.declaredIn program.functions).Nodup) :
    (Stmt.declaredIn program'.functions).Nodup :=
  (h.functions.flatMap_right Stmt.declared).nodup hdistinct

namespace SameFunction

variable {made id id' other : Nat}

theorem symm (h : SameFunction made program program' id id') (horder : program.Reordered program') :
    SameFunction made program' program id' id := by
  cases h with
  | earlier h => exact .earlier h
  | declared h h' => exact .declared h' h
  | later h => exact .later (horder.functions.length_eq ▸ h)

theorem unique (h : SameFunction made program program' id id')
    (hother : SameFunction made program program' id other)
    (hdistinct : (Stmt.declaredIn program'.functions).Nodup) : id' = other := by
  rw [sameFunction_iff] at h hother
  obtain ⟨hlt, rfl⟩ | ⟨i, j, stmt, hi, hj, rfl, rfl⟩ | ⟨hle, rfl⟩ := h
  · obtain ⟨-, rfl⟩ | ⟨i, j, stmt, hi, hj, rfl, rfl⟩ | ⟨-, rfl⟩ := hother
    · rfl
    · omega
    · rfl
  · have hplace := (List.getElem?_eq_some_iff.mp hi).1
    obtain ⟨hlt, rfl⟩ | ⟨i', j', stmt', hi', hj', hid, rfl⟩ | ⟨hle, rfl⟩ := hother
    · omega
    · obtain rfl : i' = i := by omega
      obtain rfl := Option.some_inj.mp (hi.symm.trans hi')
      rw [place_unique hdistinct hj hj']
    · omega
  · obtain ⟨-, rfl⟩ | ⟨i, j, stmt, hi, hj, rfl, rfl⟩ | ⟨-, rfl⟩ := hother
    · rfl
    · have hplace := (List.getElem?_eq_some_iff.mp hi).1
      omega
    · rfl

end SameFunction

/-- The numbers of functions correspond one to one. -/
theorem Reordered.biUnique (h : program.Reordered program')
    (hdistinct : (Stmt.declaredIn program.functions).Nodup) (made : Nat) :
    Relator.BiUnique (SameFunction made program program') := by
  constructor
  · intro id other id' hid hother
    exact (hid.symm h).unique (hother.symm h) hdistinct
  · intro id id' other hid hother
    exact hid.unique hother (h.nodup hdistinct)

/-- Functions of the two runs correspond if one declaration makes them. -/
def Reordered.correspondence (h : program.Reordered program')
    (hdistinct : (Stmt.declaredIn program.functions).Nodup) (made : Nat) : Correspondence :=
  .renumbering (fun _ => SameFunction made program program') (made + program.functions.length)
    (fun _ _ _ _ _ hid => hid) (fun _ => h.biUnique hdistinct made) fun _ hmade => .later hmade

/-- Once all functions have been declared, a name is bound to what the same declaration makes in
both runs, or to what it was bound to before. -/
theorem Reordered.globals (h : program.Reordered program')
    (hdistinct : (Stmt.declaredIn program.functions).Nodup) {state : State}
    (hstate : state.AtRest) :
    (state.withFunctions program.functions).globals.Renumbered
      (SameFunction state.functions program program')
      (state.withFunctions program'.functions).globals := by
  have hfunctions : ∀ stmt ∈ program.functions, stmt.isFunction = true :=
    fun _ => isFunction_of_mem_functions
  have hfunctions' : ∀ stmt ∈ program'.functions, stmt.isFunction = true :=
    fun _ => isFunction_of_mem_functions
  have hnames := h.functions.flatMap_right Stmt.declared
  intro name
  by_cases hname : name ∈ Stmt.declaredIn program.functions
  · obtain ⟨stmt, hmem, hdeclares⟩ := List.mem_flatMap.mp hname
    obtain ⟨i, hi⟩ := List.mem_iff_getElem?.mp hmem
    obtain ⟨j, hj⟩ := List.mem_iff_getElem?.mp (h.functions.mem_iff.mp hmem)
    have hfunction := hfunctions stmt hmem
    cases stmt with
    | function declared params body line =>
        obtain rfl := List.mem_singleton.mp hdeclares
        rw [state.get?_withFunctions hfunctions hdistinct hi,
          state.get?_withFunctions hfunctions' (h.nodup hdistinct) hj]
        exact .some (.function (.declared hi hj))
    | _ => cases hfunction
  · have hname' : name ∉ Stmt.declaredIn program'.functions :=
      fun hmem => hname (hnames.mem_iff.mpr hmem)
    rw [State.get?_withFunctions_of_notMem hname, State.get?_withFunctions_of_notMem hname']
    exact hstate.renumbered (fun _ => .earlier) name

/-- Once their functions have been declared, the two runs are in corresponding states. -/
theorem Reordered.states (h : program.Reordered program')
    (hdistinct : (Stmt.declaredIn program.functions).Nodup) {state : State}
    (hstate : state.AtRest) :
    (h.correspondence hdistinct state.functions).States (state.withFunctions program.functions)
      (state.withFunctions program'.functions) := by
  have hcount : (state.withFunctions program.functions).functions =
      state.functions + program.functions.length :=
    State.functions_withFunctions fun _ => isFunction_of_mem_functions
  have hcount' : (state.withFunctions program'.functions).functions =
      state.functions + program'.functions.length :=
    State.functions_withFunctions fun _ => isFunction_of_mem_functions
  obtain ⟨hlocals, hcallers, houtput⟩ := state.withFunctions_keeps program.functions
  obtain ⟨hlocals', hcallers', houtput'⟩ := state.withFunctions_keeps program'.functions
  refine ⟨Nat.le_of_eq hcount.symm, h.globals hdistinct hstate, ?_, ?_, ?_, ?_⟩
  · rw [hlocals, hlocals', hstate.locals]
    exact .nil
  · rw [hcallers, hcallers', hstate.callers]
    exact .nil
  · rw [houtput, houtput']
  · rw [hcount, hcount', h.functions.length_eq]

end Program

namespace State

/-- A program declares its functions and then runs its other statements. -/
theorem run_eq_withFunctions (patience : Nat) {depth : Nat} (hdepth : 0 < depth)
    {program : Program} {state : State} (hlocals : state.locals = [])
    (hdistinct : (Stmt.declaredIn program.functions).Nodup)
    (hnew : ∀ name ∈ Stmt.declaredIn program.functions, state.globals.has name = false) :
    program.run patience depth state =
      Run.topLevel (Run.exec patience depth) program.others
        (state.withFunctions program.functions) := by
  obtain ⟨depth, rfl⟩ := Nat.exists_eq_add_one.mpr hdepth
  rw [Program.run,
    Run.bind_apply_of_ok (Run.declareFunctions_apply patience depth hlocals hdistinct hnew),
    Program.others, Run.topLevel_filter]
  rfl

/-- States at rest are what runs start in and what they leave. -/
theorem AtRest.run {state : State} (h : state.AtRest) (program : Program) :
    (state.run program).2.AtRest := by
  rw [State.run, perform_apply]
  exact h.program loopPatience depthLimit program

/-- It does not matter where functions are declared. A program whose functions have distinct names,
none of which is global, may be reordered, its other statements following each other as before: it
prints the same lines, succeeds or fails with the same error, and leaves the same global bindings,
the functions of both runs corresponding one to one by the declarations that make them. -/
theorem run_reordered {program program' : Program} (horder : program.Reordered program')
    {state : State} (hstate : state.AtRest)
    (hdistinct : (Stmt.declaredIn program.functions).Nodup)
    (hnew : ∀ name ∈ Stmt.declaredIn program.functions, state.globals.has name = false) :
    (state.run program).1 = (state.run program').1 ∧
      (state.run program).2.output = (state.run program').2.output ∧
      (state.run program).2.globals.Renumbered
        (Program.SameFunction state.functions program program') (state.run program').2.globals ∧
      Relator.BiUnique (Program.SameFunction state.functions program program') := by
  have hnew' : ∀ name ∈ Stmt.declaredIn program'.functions, state.globals.has name = false :=
    fun name hname => hnew name ((horder.functions.flatMap_right Stmt.declared).mem_iff.mpr hname)
  have hruns : (horder.correspondence hdistinct state.functions).Runs 0 (fun _ _ _ => True)
      (Run.topLevel (Run.exec loopPatience depthLimit) program.others)
      (Run.topLevel (Run.exec loopPatience (0 + depthLimit)) program'.others) :=
    .topLevel loopPatience depthLimit (List.forall₂_eq_eq_eq ▸ horder.others)
  rw [Nat.zero_add] at hruns
  obtain ⟨-, hresult, hafter⟩ :=
    hruns _ _ (Nat.zero_le _) (horder.states hdistinct hstate) False.elim
  have hdepth : 0 < depthLimit := by decide
  rw [State.run, State.run, perform_apply, perform_apply,
    run_eq_withFunctions loopPatience hdepth hstate.locals hdistinct hnew,
    run_eq_withFunctions loopPatience hdepth hstate.locals (horder.nodup hdistinct) hnew']
  exact ⟨hresult.mapError_eq fun _ _ h => h, hafter.output, hafter.globals,
    horder.biUnique hdistinct state.functions⟩

/-- A statement and the two functions it needs, of which one mentions the other. -/
def asksFirst : Program :=
  ⟨[.print (.binary .equal (.call "f" []) (.name "g")) (some 1),
    .function "f" [] [.returnValue (some (.name "g")) (some 2)] (some 2),
    .function "g" [] [] (some 3)]⟩

/-- What a program leaves that declares another function. -/
def withHello : State := (State.initial.run ⟨[.function "hello" [] [] (some 1)]⟩).2

/-- The same statements from the last to the first, where a function has been declared before. -/
theorem run_reordered_asksFirst :
    (withHello.run asksFirst).1 = (withHello.run ⟨asksFirst.statements.reverse⟩).1 ∧
      (withHello.run ⟨asksFirst.statements.reverse⟩).2.output = #["khara"] := by
  have horder : asksFirst.Reordered ⟨asksFirst.statements.reverse⟩ :=
    ⟨(List.reverse_perm _).symm, rfl⟩
  have hsame := run_reordered horder (AtRest.initial.run ⟨[.function "hello" [] [] (some 1)]⟩)
    (by decide +kernel) (by decide +kernel)
  exact ⟨hsame.1, by decide +kernel⟩

end State

end Bol
