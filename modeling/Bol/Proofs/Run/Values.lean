/-
# Runs from states with known values

A discipline admits values. In a run that starts with admitted values only, no other values occur:
what the operations of the run find and leave in scopes is admitted, and so is every result. What
is known of the operations in such states is then known of all evaluations and executions.
-/

import Bol.Proofs.Run.Discipline
import Bol.Proofs.Run.Scopes

namespace Bol

/-- All values in a scope have a property. -/
def Scope.Holds (p : Value → Prop) (scope : Scope) : Prop := ∀ binding ∈ scope.bindings, p binding.2

namespace Scope

variable {p : Value → Prop} {scope : Scope} {name : String} {value : Value}

theorem holds_empty : empty.Holds p := List.forall_mem_nil _

theorem Holds.of_get? (h : scope.Holds p) (hvalue : scope.get? name = some value) : p value := by
  have hmem : ∀ bindings : List (String × Value), bindings.lookup name = some value →
      (name, value) ∈ bindings := by
    intro bindings
    induction bindings with
    | nil => intro h; cases h
    | cons binding rest ih =>
        intro h
        rw [lookup_cons_ite] at h
        split at h
        · rename_i hname
          cases h
          exact List.mem_cons.mpr (.inl (by rw [hname]))
        · exact List.mem_cons_of_mem _ (ih h)
  exact h _ (hmem _ hvalue)

theorem Holds.add (h : scope.Holds p) (hvalue : p value) : (scope.add name value).Holds p :=
  List.forall_mem_cons.mpr ⟨hvalue, h⟩

theorem Holds.set (h : scope.Holds p) (hvalue : p value) : (scope.set name value).Holds p := by
  intro binding hbinding
  obtain ⟨old, hold, rfl⟩ := List.mem_map.mp hbinding
  split
  · exact hvalue
  · exact h old hold

end Scope

/-- All values in all scopes have a property. -/
def State.Holds (p : Value → Prop) (state : State) : Prop :=
  ∀ scope ∈ state.environments, scope.Holds p

namespace State

variable {p : Value → Prop} {state : State}

theorem Holds.mono {q : Value → Prop} (h : state.Holds p) (hpq : ∀ value, p value → q value) :
    state.Holds q :=
  fun scope hscope binding hbinding => hpq _ (h scope hscope binding hbinding)

theorem Holds.of_append {state' : State} {more : List Scope} (h : state.Holds p)
    (hscopes : state.environments = state'.environments ++ more) : state'.Holds p := by
  intro scope hscope
  apply h
  rw [hscopes]
  exact List.mem_append_left more hscope

theorem Holds.opened {state' : State} (h : state.Holds p)
    (hscopes : state'.environments = state.environments ++ [.empty]) : state'.Holds p := by
  intro scope hscope
  rw [hscopes] at hscope
  obtain hscope | hscope := List.mem_append.mp hscope
  · exact h scope hscope
  · rw [List.mem_singleton.mp hscope]
    exact Scope.holds_empty

/-- If one scope is replaced, it decides. -/
theorem Holds.of_replaced {state' : State} {earlier later : List Scope} {scope scope' : Scope}
    (h : state.Holds p) (hbefore : state.environments = earlier ++ scope :: later)
    (hafter : state'.environments = earlier ++ scope' :: later)
    (hscope : scope.Holds p → scope'.Holds p) : state'.Holds p := by
  unfold Holds at h ⊢
  rw [hbefore, List.forall_mem_append, List.forall_mem_cons] at h
  rw [hafter, List.forall_mem_append, List.forall_mem_cons]
  exact ⟨h.1, hscope h.2.1, h.2.2⟩

theorem Holds.adds {state' : State} {name : String} {value : Value} (h : state.Holds p)
    (hadds : Adds state state' name value) (hvalue : p value) : state'.Holds p := by
  obtain ⟨earlier, scope, later, hbefore, -, hafter⟩ := hadds
  exact h.of_replaced hbefore hafter fun hscope => hscope.add hvalue

theorem Holds.writes {state' : State} {place : Nat} {name : String} {value : Value}
    (h : state.Holds p) (hwrites : Writes state state' place name value) (hvalue : p value) :
    state'.Holds p := by
  obtain ⟨earlier, scope, later, hbefore, -, -, hafter⟩ := hwrites
  exact h.of_replaced hbefore hafter fun hscope => hscope.set hvalue

/-- What is bound to a name in sight has the property. -/
theorem Holds.of_get? {name : String} {value : Value} (h : state.Holds p)
    (hvalue : Chain.get? state.chain name = some value) : p value := by
  obtain ⟨scope, hscope, hget⟩ := List.exists_of_findSome?_eq_some hvalue
  exact (h scope (mem_environments_of_mem_chain hscope)).of_get? hget

theorem Holds.declare {name : String} {value : Value} (h : state.Holds p) (hvalue : p value) :
    (Run.declare name value state).2.Holds p := by
  obtain hfailed | ⟨-, -, hadds⟩ := Run.declare_cases name value state
  · rwa [hfailed]
  · exact h.adds hadds hvalue

theorem Holds.assign {name : String} {value : Value} (h : state.Holds p) (hvalue : p value) :
    (Run.assign name value state).2.Holds p := by
  obtain hfailed | ⟨-, -, place, hwrites⟩ := Run.assign_cases name value state
  · rwa [hfailed]
  · exact h.writes hwrites hvalue

end State

namespace Run

open State

/-- The run of an assignment evaluates its expression and assigns the value, if there is one. -/
theorem exec_assign_apply (patience depth : Nat) (name : String) (expr : Expr) (line : Option Int)
    (state : State) :
    exec patience (depth + 1) (.assign name expr line) state =
      match eval patience depth expr state with
      | (.ok value, evaluated) =>
        (tagged line ((assign name value evaluated).1.map fun _ => .normal),
          (assign name value evaluated).2)
      | (.error stop, evaluated) => (tagged line (.error stop), evaluated) := by
  rw [exec_eq_onLine, onLine_apply]
  have hbody : execBody patience (depth + 1) (.assign name expr line) = (do
    assign name (← eval patience depth expr)
    return Signal.normal) := rfl
  rw [hbody, bind_apply]
  rcases eval patience depth expr state with ⟨stop | value, evaluated⟩
  · rfl
  · dsimp only
    rw [bind_apply]
    rcases assign name value evaluated with ⟨stop | _, after⟩ <;> rfl

/-- A property of a computation from one state on, and of its parts there, that passes from the
parts of a run to the whole, where all values are admitted. -/
structure Keeps {Mode : Type} (D : Discipline Mode) (patience : Nat)
    (K : ∀ {α : Type}, Run α → Parts → State → Prop) : Prop where
  pure {α : Type} (value : α) (state : State) : K (Pure.pure value : Run α) .none state
  bound {α : Type} {stop : Stop} (state : State) : (∀ error, stop ≠ .fault error) →
    K (throw stop : Run α) .none state
  fail {α : Type} {fault : Fault} (state : State) : fault.isStray = false →
    K (fail fault : Run α) .none state
  strayBreak {α : Type} (state : State) : D.signal D.inCall .broke →
    K (Run.fail .breakOutsideLoop : Run α) .none state
  strayContinue {α : Type} (state : State) : D.signal D.inCall .continued →
    K (Run.fail .continueOutsideLoop : Run α) .none state
  bind {α β : Type} {act : Run α} {next : α → Run β} {parts : Parts} {nextParts : α → Parts}
    {state : State} : K act parts state →
      (∀ value after, act state = (.ok value, after) → K (next value) (nextParts value) after) →
        K (act >>= next) (parts.andThen act nextParts) state
  lookup (name : String) (state : State) : K (lookup name) .none state
  declare (name : String) (value : Value) (state : State) : K (declare name value) .none state
  print (line : String) (state : State) : K (print line) .none state
  newFunction (name : String) (params : List String) (body : List Stmt) (state : State) :
    K (newFunction name params body) .none state
  inBlock {α : Type} {act : Run α} {parts : Parts} {state : State} :
    SameScopes state.openBlock (act state.openBlock).2 → K act parts state.openBlock →
      K (inBlock act) parts.inBlock state
  inCall {α : Type} {act : Run α} {parts : Parts} {state : State} :
    SameScopes state.openCall (act state.openCall).2 → K act parts state.openCall →
      K (inCall act) parts.inCall state
  eval {depth : Nat} {expr : Expr} {state : State} : state.Holds D.value →
    K (eval patience depth expr) (taskParts patience depth (.eval expr)) state →
      K (Run.eval patience depth expr) (.one depth (.eval expr)) state
  exec {mode : Mode} {depth : Nat} {stmt : Stmt} {state : State} : state.Holds D.value →
    D.stmt mode stmt →
      K (execBody patience depth stmt) (taskParts patience depth (.exec stmt)) state →
        K (exec patience depth stmt) (.one depth (.exec stmt)) state
  assign {mode : Mode} {depth : Nat} {name : String} {expr : Expr} {line : Option Int}
    {state : State} : state.Holds D.value → D.stmt mode (.assign name expr line) →
      K (Run.eval patience depth expr) (.one depth (.eval expr)) state →
        K (Run.exec patience (depth + 1) (.assign name expr line))
          (.one (depth + 1) (.exec (.assign name expr line))) state

/-- What a computation does where all values are admitted: its result is admitted, if there is
one, it leaves the scopes that it finds open, with admitted values only, and it has the property
`K`. -/
structure Admitted {Mode : Type} (D : Discipline Mode)
    (K : ∀ {α : Type}, Run α → Parts → State → Prop) {α : Type} (Q : α → Prop) (act : Run α)
    (parts : Parts) (state : State) : Prop where
  value : ∀ value, (act state).1 = .ok value → Q value
  scopes : SameScopes state (act state).2
  holds : (act state).2.Holds D.value
  property : K act parts state

namespace Keeps

variable {Mode : Type} {D : Discipline Mode} {patience : Nat}
  {K : ∀ {α : Type}, Run α → Parts → State → Prop}

theorem admitted_bind (h : Keeps D patience K) {α β : Type} {Q : α → Prop} {Q' : β → Prop}
    {act : Run α} {next : α → Run β} {parts : Parts} {nextParts : α → Parts} {state : State}
    (hact : Admitted D K Q act parts state)
    (hnext : ∀ value, Q value → ∀ after, after.Holds D.value →
      Admitted D K Q' (next value) (nextParts value) after) :
    Admitted D K Q' (act >>= next) (parts.andThen act nextParts) state := by
  obtain ⟨hvalue, hscopes, hholds, hproperty⟩ := hact
  have hproperty := h.bind hproperty fun value after hresult =>
    (hnext value (hvalue value (by rw [hresult])) after (by rwa [hresult] at hholds)).property
  rcases hact : act state with ⟨stop | value, after⟩ <;> rw [hact] at hvalue hscopes hholds
  · have hstopped : (act >>= next) state = (.error stop, after) := bind_apply_of_error hact
    exact ⟨fun _ hok => (by rw [hstopped] at hok; cases hok), by rwa [hstopped], by rwa [hstopped],
      hproperty⟩
  · have hthen : (act >>= next) state = next value after := bind_apply_of_ok hact
    obtain ⟨hvalue', hscopes', hholds', -⟩ := hnext value (hvalue value rfl) after hholds
    exact ⟨by rwa [hthen], by rw [hthen]; exact hscopes.trans hscopes', by rwa [hthen], hproperty⟩

theorem admitted_of_state_eq {α : Type} {Q : α → Prop} {act : Run α} {state : State}
    (hstate : state.Holds D.value) (hact : (act state).2 = state)
    (hvalue : ∀ value, (act state).1 = .ok value → Q value) (hproperty : K act .none state) :
    Admitted D K Q act .none state :=
  ⟨hvalue, by rw [hact]; exact .refl state, by rwa [hact], hproperty⟩

theorem admitted_lookup (h : Keeps D patience K) (name : String) {state : State}
    (hstate : state.Holds D.value) : Admitted D K D.value (Run.lookup name) .none state := by
  have hlookup := lookup_apply name state
  cases hvalue : Chain.get? state.chain name with
  | none =>
      rw [hvalue] at hlookup
      exact admitted_of_state_eq hstate (by rw [hlookup]; rfl)
        (fun _ hok => (by rw [hlookup] at hok; cases hok)) (h.lookup name state)
  | some value =>
      rw [hvalue] at hlookup
      refine admitted_of_state_eq hstate (by rw [hlookup]) (fun _ hok => ?_) (h.lookup name state)
      rw [hlookup] at hok
      cases hok
      exact hstate.of_get? hvalue

theorem admitted_declare (h : Keeps D patience K) (name : String) {value : Value} {state : State}
    (hstate : state.Holds D.value) (hvalue : D.value value) :
    Admitted D K (fun _ => True) (Run.declare name value) .none state := by
  refine ⟨fun _ _ => trivial, ?_, hstate.declare hvalue, h.declare name value state⟩
  obtain hfailed | ⟨-, hscopes, -⟩ := declare_cases name value state
  · rw [hfailed]
    exact .refl state
  · exact hscopes

theorem admitted_assign (h : Keeps D patience K) {mode : Mode} {depth : Nat} {name : String}
    {expr : Expr} {line : Option Int} {state : State} (hstate : state.Holds D.value)
    (hstmt : D.stmt mode (.assign name expr line))
    (hexpr : Admitted D K D.value (Run.eval patience depth expr) (.one depth (.eval expr)) state) :
    Admitted D K (D.signal mode) (Run.exec patience (depth + 1) (.assign name expr line))
      (.one (depth + 1) (.exec (.assign name expr line))) state := by
  obtain ⟨hvalue, hscopes, hholds, hproperty⟩ := hexpr
  have hproperty := h.assign hstate hstmt hproperty
  have hexec := exec_assign_apply patience depth name expr line state
  rcases heval : Run.eval patience depth expr state with ⟨stop | value, evaluated⟩ <;>
    rw [heval] at hvalue hscopes hholds hexec <;>
    dsimp only at hvalue hscopes hholds hexec
  · refine ⟨fun _ hok => ?_, by rwa [hexec], by rwa [hexec], hproperty⟩
    rw [hexec] at hok
    cases of_tagged_eq_ok hok
  · refine ⟨fun signal hok => ?_, ?_, ?_, hproperty⟩
    · rw [hexec] at hok
      rcases hassign : (Run.assign name value evaluated).1 with stop | _ <;>
        cases (hassign ▸ of_tagged_eq_ok hok : Except.map _ _ = Except.ok signal)
      exact D.signal_normal
    · rw [hexec]
      refine hscopes.trans ?_
      obtain hfailed | ⟨-, hassigned, -⟩ := assign_cases name value evaluated
      · rw [hfailed]
        exact .refl evaluated
      · exact hassigned
    · rw [hexec]
      exact hholds.assign (hvalue value rfl)

theorem obeys (h : Keeps D patience K) :
    Obeys D patience fun Q act parts => ∀ state, state.Holds D.value →
      Admitted D K Q act parts state where
  pure hvalue state hstate :=
    admitted_of_state_eq hstate rfl (fun _ hok => by cases hok; exact hvalue) (h.pure _ state)
  bound hstop state hstate :=
    admitted_of_state_eq hstate rfl (fun _ hok => by cases hok) (h.bound state hstop)
  fail hfault state hstate :=
    admitted_of_state_eq hstate rfl (fun _ hok => by cases hok) (h.fail state hfault)
  strayBreak hsignal state hstate :=
    admitted_of_state_eq hstate rfl (fun _ hok => by cases hok) (h.strayBreak state hsignal)
  strayContinue hsignal state hstate :=
    admitted_of_state_eq hstate rfl (fun _ hok => by cases hok) (h.strayContinue state hsignal)
  bind hact hnext state hstate := h.admitted_bind (hact state hstate) hnext
  lookup name _ hstate := h.admitted_lookup name hstate
  declare name _ hvalue _ hstate := h.admitted_declare name hstate hvalue
  print line state hstate := ⟨fun _ _ => trivial, ⟨rfl, rfl⟩, hstate, h.print line state⟩
  newFunction hfunction state hstate :=
    ⟨fun _ hok => by cases hok; exact hfunction _, ⟨rfl, rfl⟩, hstate,
      h.newFunction _ _ _ state⟩
  inBlock hact state hstate :=
    have hopened := hact state.openBlock (hstate.opened (environments_openBlock state))
    have ⟨_, hclosed⟩ := hopened.scopes.environments_closeBlock
    ⟨hopened.value, hopened.scopes.closeBlock, hopened.holds.of_append hclosed,
      h.inBlock hopened.scopes hopened.property⟩
  inCall hact state hstate :=
    have hopened := hact state.openCall (hstate.opened (environments_openCall state))
    ⟨hopened.value, hopened.scopes.closeCall,
      hopened.holds.of_append hopened.scopes.environments_closeCall,
      h.inCall hopened.scopes hopened.property⟩
  eval hexpr state hstate :=
    have hparts := hexpr state hstate
    ⟨hparts.value, hparts.scopes, hparts.holds, h.eval hstate hparts.property⟩
  exec hstmt hbody state hstate := by
    obtain ⟨hvalue, hscopes, hholds, hproperty⟩ := hbody state hstate
    have hproperty := h.exec hstate hstmt hproperty
    rw [exec_eq_onLine] at hproperty ⊢
    refine ⟨fun _ hok => ?_, ?_, ?_, hproperty⟩ <;> rw [onLine_apply] at *
    · exact hvalue _ (of_tagged_eq_ok hok)
    · exact hscopes
    · exact hholds
  assign hstmt hexpr state hstate := h.admitted_assign hstate hstmt (hexpr state hstate)

/-- A whole program, if `K` also holds where a signal is left at the end of a statement. -/
theorem program (h : Keeps D patience K) (depth : Nat) {mode : Mode} {program : Program}
    {state : State} (hstmts : ∀ stmt ∈ program.statements, D.stmt mode stmt)
    (hstate : state.Holds D.value)
    (hstray : ∀ signal fault line, D.signal mode signal → signal.strayFault? = some fault →
      ∀ state, K (throw (.fault ⟨fault, line⟩) : Run Unit) .none state) :
    Admitted D K (fun _ => True) (program.run patience depth) (programParts patience depth program)
      state := by
  refine h.obeys.program hstmts (fun signal fault line hsignal hfault state hstate => ?_) state
    hstate
  exact admitted_of_state_eq hstate rfl (fun _ _ => trivial)
    (hstray signal fault line hsignal hfault state)

end Keeps

end Run

/-- A part that starts with admitted values only and runs, if a statement, an admitted one. -/
structure Part.IsAdmitted {Mode : Type} (D : Discipline Mode) (part : Part) : Prop where
  state : part.state.Holds D.value
  stmt : ∀ stmt, part.task = .exec stmt → ∃ mode, D.stmt mode stmt

namespace Run

/-- What is admitted has only admitted parts. -/
theorem isAdmitted_keeps {Mode : Type} (D : Discipline Mode) (patience : Nat) :
    Keeps D patience fun _ parts state =>
      ∀ part, InCourse patience parts state part → part.IsAdmitted D where
  pure _ _ _ hpart := absurd hpart not_inCourse_none
  bound _ _ _ hpart := absurd hpart not_inCourse_none
  fail _ _ _ hpart := absurd hpart not_inCourse_none
  strayBreak _ _ _ hpart := absurd hpart not_inCourse_none
  strayContinue _ _ _ hpart := absurd hpart not_inCourse_none
  bind hact hnext part hpart := by
    obtain hpart | ⟨value, after, hresult, hpart⟩ := inCourse_andThen.mp hpart
    · exact hact part hpart
    · exact hnext value after hresult part hpart
  lookup _ _ _ hpart := absurd hpart not_inCourse_none
  declare _ _ _ _ hpart := absurd hpart not_inCourse_none
  print _ _ _ hpart := absurd hpart not_inCourse_none
  newFunction _ _ _ _ _ hpart := absurd hpart not_inCourse_none
  inBlock _ h := h
  inCall _ h := h
  eval hstate h part hpart := by
    obtain rfl | hpart := inCourse_one_iff.mp hpart
    · exact ⟨hstate, fun _ htask => by cases htask⟩
    · exact h part hpart
  exec {mode _ _ _} hstate hstmt h part hpart := by
    obtain rfl | hpart := inCourse_one_iff.mp hpart
    · exact ⟨hstate, fun _ htask => by cases htask; exact ⟨mode, hstmt⟩⟩
    · exact h part hpart
  assign {mode _ _ _ _ _} hstate hstmt h part hpart := by
    obtain rfl | hpart := inCourse_one_iff.mp hpart
    · exact ⟨hstate, fun _ htask => by cases htask; exact ⟨mode, hstmt⟩⟩
    · exact h part hpart

end Run

end Bol
