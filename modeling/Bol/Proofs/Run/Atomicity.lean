/-
# Expressions without calls are pure, and their statements are atomic

The evaluation of an expression without calls leaves the state as it is, and its result depends on
nothing but the values of the names that it uses. So a declaration, an assignment or a print
statement with such an expression has one effect, at the very end: it fails and leaves the state as
it was, or it sets one binding or prints one line.
-/

import Bol.Proofs.Program.Renaming
import Bol.Proofs.Run.Bindings
import Bol.Proofs.Run.Purity
import Bol.Proofs.Scope.Related

namespace Bol

namespace State

variable {before after : State} {place : Nat} {name : String} {value : Value}

/-- A name is in sight with a value afterwards. The output and the number of functions are as
before. -/
structure Binds (before after : State) (name : String) (value : Value) : Prop where
  inSight : Chain.get? after.chain name = some value
  output : after.output = before.output
  functions : after.functions = before.functions

/-- One binding is set: the scope at `place` has `value` for `name` afterwards, and that is the one
in sight. All other bindings of all scopes are as before. -/
structure Sets (before after : State) (place : Nat) (name : String) (value : Value) : Prop
    extends SameScopes before after, Binds before after name value where
  bindings : ∀ place' name', after.value? place' name' =
    if place' = place ∧ name' = name then some value else before.value? place' name'

/-- One scope is replaced by one that differs from it in a single binding. -/
theorem Sets.of_replaced {earlier later : List Scope} {scope scope' : Scope}
    (hscopes : SameScopes before after) (hbinds : Binds before after name value)
    (hbefore : before.environments = earlier ++ scope :: later)
    (hafter : after.environments = earlier ++ scope' :: later)
    (hscope : ∀ name', scope'.get? name' = if name' = name then some value else scope.get? name') :
    Sets before after earlier.length name value := by
  refine ⟨hscopes, hbinds, fun place' name' => ?_⟩
  obtain ⟨rfl, hold, hnew⟩ | ⟨hplace, hsame⟩ := value?_of_replaced hbefore hafter place' name'
  · rw [hnew, hold, hscope]
    simp only [true_and]
  · rw [hsame, if_neg fun h => hplace h.1]

theorem value?_of_environments {earlier later : List Scope} {scope : Scope}
    (h : before.environments = earlier ++ scope :: later) :
    before.value? earlier.length name = scope.get? name := by
  rw [value?, h]
  simp

end State

namespace Run

open State

variable {α β : Type}

/-! ## Two runs at once -/

/-- Run from either state, a computation has the same result, and both states stay as they are. -/
def ReadsAlike (act : Run α) (state state' : State) : Prop :=
  ∃ result, act state = (result, state) ∧ act state' = (result, state')

namespace ReadsAlike

variable {act : Run α} {next : α → Run β} {state state' : State}

theorem pure (value : α) : ReadsAlike (Pure.pure value : Run α) state state' :=
  ⟨.ok value, rfl, rfl⟩

theorem throw (stop : Stop) : ReadsAlike (MonadExcept.throw stop : Run α) state state' :=
  ⟨.error stop, rfl, rfl⟩

theorem ofExcept (result : Except Fault α) : ReadsAlike (Run.ofExcept result) state state' := by
  cases result with
  | error fault => exact throw _
  | ok value => exact pure value

theorem bind (h : ReadsAlike act state state')
    (hnext : ∀ value, ReadsAlike (next value) state state') :
    ReadsAlike (act >>= next) state state' := by
  obtain ⟨stop | value, hstate, hstate'⟩ := h
  · exact ⟨.error stop, bind_apply_of_error hstate, bind_apply_of_error hstate'⟩
  · obtain ⟨result, hnextState, hnextState'⟩ := hnext value
    exact ⟨result, (bind_apply_of_ok hstate).trans hnextState,
      (bind_apply_of_ok hstate').trans hnextState'⟩

theorem lookup {name : String}
    (h : Chain.get? state.chain name = Chain.get? state'.chain name) :
    ReadsAlike (lookup name) state state' := by
  unfold ReadsAlike
  rw [lookup_apply, lookup_apply, ← h]
  cases Chain.get? state.chain name with
  | none => exact ⟨_, rfl, rfl⟩
  | some value => exact ⟨_, rfl, rfl⟩

theorem logicalOperand (op : BinaryOp) (value : Value) :
    ReadsAlike (logicalOperand op value) state state' := by
  rw [logicalOperand_eq]
  exact ofExcept _

end ReadsAlike

/-- An expression without calls reads nothing but the values of its names. -/
theorem readsAlike_eval {expr : Expr} (hfree : expr.isCallFree = true) (patience depth : Nat)
    {state state' : State}
    (hnames : ∀ name ∈ expr.names, Chain.get? state.chain name = Chain.get? state'.chain name) :
    ReadsAlike (eval patience depth expr) state state' := by
  induction expr using Expr.isCallFree.induct generalizing depth with
  | case1 op left right ihleft ihright =>
      obtain ⟨hleft, hright⟩ := (Bool.and_eq_true _ _).mp hfree
      cases depth with
      | zero => rw [eval]; exact .throw _
      | succ depth =>
          have hfirst := ihleft hleft depth fun name h =>
            hnames name (List.mem_append.mpr (.inl h))
          have hsecond := ihright hright depth fun name h =>
            hnames name (List.mem_append.mpr (.inr h))
          rw [eval]
          cases op.decisive? with
          | none => exact hfirst.bind fun _ => hsecond.bind fun _ => .ofExcept _
          | some decisive =>
              -- Whether the second operand is evaluated depends on the value of the first one,
              -- which is the same in both runs.
              refine hfirst.bind fun value => (ReadsAlike.logicalOperand op value).bind
                fun first => ?_
              split
              · exact .pure _
              · exact hsecond.bind fun value => (ReadsAlike.logicalOperand op value).bind
                  fun _ => .pure _
  | case2 op operand ih =>
      cases depth with
      | zero => rw [eval]; exact .throw _
      | succ depth => rw [eval]; exact (ih hfree depth hnames).bind fun _ => .ofExcept _
  | case3 => cases hfree
  | case8 used =>
      cases depth with
      | zero => rw [eval]; exact .throw _
      | succ depth => rw [eval]; exact .lookup (hnames used (List.mem_singleton.mpr rfl))
  | _ =>
      cases depth with
      | zero => rw [eval]; exact .throw _
      | succ depth => rw [eval]; exact ⟨_, rfl, rfl⟩

/-- The evaluation of an expression without calls leaves the state as it is. -/
theorem eval_state_eq {expr : Expr} (hfree : expr.isCallFree = true) (patience depth : Nat)
    (state : State) : (eval patience depth expr state).2 = state := by
  obtain ⟨result, hresult, -⟩ : ReadsAlike (eval patience depth expr) state state :=
    readsAlike_eval hfree patience depth fun _ _ => rfl
  rw [hresult]

/-! ## The one effect of a statement -/

theorem declare_binds {name : String} {value : Value} {state after : State}
    (h : declare name value state = (.ok (), after)) : Binds state after name value := by
  rw [declare_apply] at h
  cases hlocals : state.locals with
  | nil =>
      rw [hlocals] at h
      dsimp only at h
      cases hdeclare : state.globals.declare? name value with
      | none => rw [hdeclare] at h; cases h
      | some globals =>
          rw [hdeclare] at h
          cases h
          obtain ⟨-, rfl⟩ := declare?_eq_some hdeclare
          refine ⟨?_, rfl, rfl⟩
          rw [State.get?_chain]
          simp [Chain.get?, Scope.get?_add]
  | cons scope outer =>
      rw [hlocals] at h
      dsimp only at h
      cases hdeclare : scope.declare? name value with
      | none => rw [hdeclare] at h; cases h
      | some scope' =>
          rw [hdeclare] at h
          cases h
          obtain ⟨-, rfl⟩ := declare?_eq_some hdeclare
          refine ⟨?_, rfl, rfl⟩
          rw [State.get?_chain]
          simp [Chain.get?, Scope.get?_add]

/-- An assignment to a chain is found again by the name. -/
theorem get?_of_assign? {name : String} {value : Value} {chain chain' : List Scope}
    (h : Chain.assign? name value chain = some chain') : Chain.get? chain' name = some value := by
  induction chain generalizing chain' with
  | nil => cases h
  | cons scope outer ih =>
      rw [Chain.assign?] at h
      split at h
      · rename_i hhas
        cases h
        obtain ⟨old, hold⟩ := Option.isSome_iff_exists.mp hhas
        simp [Chain.get?, Scope.get?_set, hold]
      · rename_i hlacks
        obtain ⟨outer', houter, rfl⟩ := Option.map_eq_some_iff.mp h
        have hnone : scope.get? name = none := by simpa [Scope.has] using hlacks
        rw [Chain.get?, List.findSome?_cons, hnone]
        exact ih houter

theorem assign_binds {name : String} {value : Value} {state after : State}
    (h : assign name value state = (.ok (), after)) : Binds state after name value := by
  rw [assign_apply] at h
  cases hassign : Chain.assign? name value state.locals with
  | some locals =>
      rw [hassign] at h
      cases h
      refine ⟨?_, rfl, rfl⟩
      rw [State.get?_chain, get?_of_assign? hassign]
      rfl
  | none =>
      rw [hassign] at h
      dsimp only at h
      split at h
      · rename_i hhas
        cases h
        obtain ⟨old, hold⟩ := Option.isSome_iff_exists.mp hhas
        refine ⟨?_, rfl, rfl⟩
        rw [State.get?_chain, (Chain.assign?_eq_none_iff value).mp hassign]
        simp [Scope.get?_set, hold]
      · cases h

/-- A declaration fails and changes nothing, or it sets a binding that was not there. -/
theorem declare_sets (name : String) (value : Value) (state : State) :
    declare name value state = faulty (.alreadyDeclared name) state ∨
      ∃ place after, declare name value state = (.ok (), after) ∧
        state.value? place name = none ∧ Sets state after place name value := by
  obtain hfailed | ⟨hok, hscopes, earlier, scope, later, hbefore, hnew, hafter⟩ :=
    declare_cases name value state
  · exact .inl hfailed
  · have hdeclare : declare name value state = (.ok (), (declare name value state).2) :=
      Prod.ext hok rfl
    refine .inr ⟨earlier.length, _, hdeclare, ?_,
      .of_replaced hscopes (declare_binds hdeclare) hbefore hafter fun _ => Scope.get?_add ..⟩
    rw [value?_of_environments hbefore]
    simpa [Scope.has] using hnew

/-- An assignment fails and changes nothing, or it sets a binding that was there. -/
theorem assign_sets (name : String) (value : Value) (state : State) :
    assign name value state = faulty (.assignUndeclared name) state ∨
      ∃ place after, assign name value state = (.ok (), after) ∧
        state.value? place name ≠ none ∧ Sets state after place name value := by
  obtain hfailed | ⟨hok, hscopes, place, earlier, scope, later, hbefore, rfl, hhas, hafter⟩ :=
    assign_cases name value state
  · exact .inl hfailed
  · have hassign : assign name value state = (.ok (), (assign name value state).2) :=
      Prod.ext hok rfl
    obtain ⟨old, hold⟩ := Option.isSome_iff_exists.mp hhas
    refine .inr ⟨earlier.length, _, hassign, ?_,
      .of_replaced hscopes (assign_binds hassign) hbefore hafter fun name' => ?_⟩
    · rw [value?_of_environments hbefore, hold]
      exact Option.some_ne_none old
    · rw [Scope.get?_set, hold]
      rfl

/-- A statement with an expression is atomic: it stops and leaves the state as it was, or the
expression has a value there and the statement ends normally with its effect. -/
def Atomic (patience depth : Nat) (stmt : Stmt) (expr : Expr) (state : State)
    (effect : Value → State → Prop) : Prop :=
  (∃ stop, exec patience depth stmt state = (.error stop, state)) ∨
    ∃ within value after, eval patience within expr state = (.ok value, state) ∧
      exec patience depth stmt state = (.ok .normal, after) ∧ effect value after

/-- An operation on the value of an expression without calls that is all or nothing makes an atomic
statement. -/
theorem atomic_of_operation {patience depth : Nat} {stmt : Stmt} {expr : Expr} {state : State}
    {effect : Value → State → Prop} {operation : Value → Run Unit}
    (hfree : expr.isCallFree = true)
    (hexec : ∀ depth, exec patience (depth + 1) stmt = onLine stmt.line do
      operation (← eval patience depth expr)
      return .normal)
    (hoperation : ∀ value, (∃ stop, operation value state = (.error stop, state)) ∨
      ∃ after, operation value state = (.ok (), after) ∧ effect value after) :
    Atomic patience depth stmt expr state effect := by
  cases depth with
  | zero => exact .inl ⟨.tooDeep, by rw [exec_zero]; rfl⟩
  | succ depth =>
      have hexec := congrFun (hexec depth) state
      rw [onLine_apply] at hexec
      have hstate := eval_state_eq hfree patience depth state
      rcases heval : eval patience depth expr state with ⟨stop | value, evaluated⟩ <;>
        rw [heval] at hstate <;> cases hstate
      · rw [bind_apply_of_error heval] at hexec
        obtain ⟨stop', hstop⟩ := exists_tagged_eq_error stmt.line stop
        exact .inl ⟨stop', hexec.trans (by rw [hstop])⟩
      · rw [bind_apply_of_ok heval] at hexec
        obtain ⟨stop, hstopped⟩ | ⟨after, hdone, heffect⟩ := hoperation value
        · rw [bind_apply_of_error hstopped] at hexec
          obtain ⟨stop', hstop⟩ := exists_tagged_eq_error stmt.line stop
          exact .inl ⟨stop', hexec.trans (by rw [hstop])⟩
        · rw [bind_apply_of_ok hdone] at hexec
          exact .inr ⟨depth, value, after, heval, hexec, heffect⟩

/-- What an expression and the statements with it do, run from a state. -/
structure ActsAtomically (patience depth : Nat) (expr : Expr) (state : State) : Prop where
  pure : (eval patience depth expr state).2 = state
  reads : ∀ state' : State,
    (∀ name ∈ expr.names, Chain.get? state'.chain name = Chain.get? state.chain name) →
      (eval patience depth expr state').1 = (eval patience depth expr state).1
  declare : ∀ name line, Atomic patience depth (.declare name expr line) expr state
    fun value after => ∃ place, state.value? place name = none ∧ Sets state after place name value
  assign : ∀ name line, Atomic patience depth (.assign name expr line) expr state
    fun value after => ∃ place, state.value? place name ≠ none ∧ Sets state after place name value
  print : ∀ line, Atomic patience depth (.print expr line) expr state
    fun value after => after = { state with output := state.output.push value.display }

/-- Expressions without calls are pure, and declarations, assignments and print statements with
them are atomic. Evaluation prints nothing and changes no scope, and its result is the same in every
state that has the same values in sight for the names of the expression. Such a statement fails and
leaves the state as it was, or it sets exactly one binding or prints exactly one line. -/
theorem callFree_atomic {expr : Expr} (hfree : expr.isCallFree = true) (patience depth : Nat)
    (state : State) : ActsAtomically patience depth expr state where
  pure := eval_state_eq hfree patience depth state
  reads state' hnames := by
    obtain ⟨result, hstate', hstate⟩ := readsAlike_eval hfree patience depth hnames
    rw [hstate', hstate]
  declare name line := by
    refine atomic_of_operation hfree (fun depth => by rw [exec]; rfl) fun value => ?_
    obtain hfailed | ⟨place, after, hdeclare, hnew, hsets⟩ := declare_sets name value state
    · exact .inl ⟨_, hfailed⟩
    · exact .inr ⟨after, hdeclare, place, hnew, hsets⟩
  assign name line := by
    refine atomic_of_operation hfree (fun depth => by rw [exec]; rfl) fun value => ?_
    obtain hfailed | ⟨place, after, hassign, hheld, hsets⟩ := assign_sets name value state
    · exact .inl ⟨_, hfailed⟩
    · exact .inr ⟨after, hassign, place, hheld, hsets⟩
  print line := atomic_of_operation hfree (fun depth => by rw [exec]; rfl)
    fun value => .inr ⟨_, print_apply value.display state, rfl⟩

/-- The expression `ready ani nahi done`. -/
def readyNotDone : Expr := .binary .and (.name "ready") (.unary .not (.name "done"))

/-- In a function with a variable `ready` of its own, which hides a global one. -/
def inFunction : State where
  globals := (Scope.empty.add "ready" .null).add "done" (.boolean false)
  locals := [.empty, Scope.empty.add "ready" (.boolean true)]
  callers := []
  output := #["start"]
  functions := 1

theorem callFree_atomic_readyNotDone :
    readyNotDone.isCallFree = true ∧ ActsAtomically 9 4 readyNotDone inFunction ∧
      eval 9 4 readyNotDone inFunction = (.ok (.boolean true), inFunction) :=
  ⟨rfl, callFree_atomic rfl 9 4 inFunction, rfl⟩

end Run

end Bol
