/-
# Empty scopes

A scope that holds nothing has no part in what a computation does: looking names up and assigning
to them pass it over. Only a declaration can tell that it is there, and only if it is the innermost
scope. So every statement ignores an empty scope that has another one inside it, and expressions
and conditionals, which declare nothing in the scope where they stand, ignore all of them: a block
around a conditional makes no difference.
-/

import Bol.Proofs.Run.Environments
import Bol.Proofs.Run.Isolation

namespace Bol

namespace Chain

theorem get?_insertIdx_empty (name : String) (inner : Nat) (chain : List Scope) :
    get? (chain.insertIdx inner .empty) name = get? chain name := by
  induction inner generalizing chain with
  | zero => simp [get?, List.findSome?_cons]
  | succ inner ih =>
      cases chain with
      | nil => rfl
      | cons scope outer =>
          simp only [get?, List.insertIdx_succ_cons, List.findSome?_cons] at ih ⊢
          rw [ih]

theorem assign?_insertIdx_empty (name : String) (value : Value) (inner : Nat)
    (chain : List Scope) :
    assign? name value (chain.insertIdx inner .empty) =
      (assign? name value chain).map (·.insertIdx inner .empty) := by
  induction inner generalizing chain with
  | zero => simp [assign?, Scope.has]
  | succ inner ih =>
      cases chain with
      | nil => rfl
      | cons scope outer =>
          simp only [assign?, List.insertIdx_succ_cons, ih]
          split
          · rfl
          · simp [Option.map_map, Function.comp_def]

theorem length_of_assign? {name : String} {value : Value} {chain chain' : List Scope}
    (h : assign? name value chain = some chain') : chain'.length = chain.length := by
  obtain ⟨inner, scope, outer, rfl, -, rfl⟩ := Run.assign?_eq_some h
  simp

end Chain

/-- The same state with an empty scope around the `inner` innermost ones of the running call. -/
def State.widened (state : State) (inner : Nat) : State :=
  { state with locals := state.locals.insertIdx inner .empty }

theorem State.get?_chain_widened (state : State) (inner : Nat) (name : String) :
    Chain.get? (state.widened inner).chain name = Chain.get? state.chain name := by
  have hlocals := Chain.get?_insertIdx_empty name inner state.locals
  simp only [Chain.get?] at hlocals
  simp only [Chain.get?, State.chain, State.widened, List.findSome?_append, hlocals]

namespace Run

/-- An empty scope around the `inner` innermost ones has no part in what the computation does,
which leaves it and these where they are. -/
def IgnoresEmpty {α : Type} (inner : Nat) (act : Run α) : Prop :=
  ∀ state, inner ≤ state.locals.length →
    act (state.widened inner) = ((act state).1, (act state).2.widened inner) ∧
      inner ≤ (act state).2.locals.length

namespace IgnoresEmpty

variable {α β : Type} {inner : Nat} {act : Run α}

theorem bind {next : α → Run β} (h : IgnoresEmpty inner act)
    (hnext : ∀ value, IgnoresEmpty inner (next value)) : IgnoresEmpty inner (act >>= next) := by
  intro state hinner
  obtain ⟨hact, hafter⟩ := h state hinner
  rw [bind_apply, bind_apply, hact]
  rcases hfirst : act state with ⟨stop | value, after⟩
  · rw [hfirst] at hafter
    exact ⟨rfl, hafter⟩
  · rw [hfirst] at hafter
    exact hnext value after hafter

theorem lookup (name : String) : IgnoresEmpty inner (lookup name) := by
  intro state hinner
  rw [lookup_apply, lookup_apply, state.get?_chain_widened]
  cases Chain.get? state.chain name with
  | none => exact ⟨rfl, hinner⟩
  | some value => exact ⟨rfl, hinner⟩

theorem declare (name : String) (value : Value) :
    IgnoresEmpty (inner + 1) (declare name value) := by
  rintro ⟨globals, locals, callers, output, functions⟩ hinner
  cases locals with
  | nil => exact absurd hinner (Nat.not_succ_le_zero inner)
  | cons scope outer =>
      rw [declare_apply, declare_apply]
      dsimp only [State.widened, List.insertIdx_succ_cons]
      cases scope.declare? name value with
      | none => exact ⟨rfl, hinner⟩
      | some scope => exact ⟨rfl, hinner⟩

theorem assign (name : String) (value : Value) : IgnoresEmpty inner (assign name value) := by
  rintro ⟨globals, locals, callers, output, functions⟩ hinner
  rw [assign_apply, assign_apply]
  dsimp only [State.widened]
  rw [Chain.assign?_insertIdx_empty]
  cases hassign : Chain.assign? name value locals with
  | some locals => exact ⟨rfl, Chain.length_of_assign? hassign ▸ hinner⟩
  | none => by_cases hhas : globals.has name = true <;> simpa [hhas, faulty] using hinner

/-- The scope of the block is one more that stands inside. -/
theorem inBlock (h : IgnoresEmpty (inner + 1) act) : IgnoresEmpty inner (inBlock act) := by
  intro state hinner
  obtain ⟨hact, hafter⟩ := h state.openBlock (Nat.succ_le_succ hinner)
  have hopen : (state.widened inner).openBlock = state.openBlock.widened (inner + 1) := rfl
  rw [inBlock_eq, inBlock_eq, hopen, hact]
  generalize act state.openBlock = outcome at hafter
  obtain ⟨result, globals, locals, callers, output, functions⟩ := outcome
  cases locals with
  | nil => exact absurd hafter (Nat.not_succ_le_zero inner)
  | cons scope outer => exact ⟨rfl, Nat.le_of_succ_le_succ hafter⟩

/-- Inside a call no scope of its caller is in sight. -/
theorem inCall (h : IgnoresCallers act) : IgnoresEmpty inner (inCall act) := by
  intro state hinner
  have htop : (state.widened inner).atTop = state.atTop := rfl
  rw [h.inCall_eq (state.widened inner), h.inCall_eq state, htop]
  exact ⟨rfl, hinner⟩

theorem onLine (line : Option Int) (h : IgnoresEmpty inner act) :
    IgnoresEmpty inner (onLine line act) := by
  intro state hinner
  obtain ⟨hact, hafter⟩ := h state hinner
  rw [onLine_apply, onLine_apply, hact]
  exact ⟨rfl, hafter⟩

/-- A block around the computation makes no difference if it ignores the scope of the block. -/
theorem inBlock_eq_self (h : IgnoresEmpty 0 act) : Run.inBlock act = act := by
  funext state
  have hopen : state.openBlock = state.widened 0 := rfl
  rw [inBlock_eq, hopen, (h state (Nat.zero_le _)).1]
  rfl

end IgnoresEmpty

/-- Being the same computation, which ignores an empty scope around the `inner` innermost ones. -/
theorem ignoresEmpty_sequencing (inner : Nat) :
    Sequencing fun act act' => act = act' ∧ IgnoresEmpty inner act where
  pure _ := ⟨rfl, fun _ hinner => ⟨rfl, hinner⟩⟩
  throw _ := ⟨rfl, fun _ hinner => ⟨rfl, hinner⟩⟩
  bind hact hnext := by
    obtain ⟨rfl, hact⟩ := hact
    obtain rfl := funext fun value => (hnext value).1
    exact ⟨rfl, hact.bind fun value => (hnext value).2⟩
  lookup name := ⟨rfl, .lookup name⟩

/-- Being the same computation, which ignores callers and all empty scopes but the innermost
one. -/
theorem ignoresEmpty_congruence :
    Congruence fun act act' =>
      act = act' ∧ IgnoresCallers act ∧ ∀ inner, IgnoresEmpty (inner + 1) act where
  pure value := ⟨rfl, (ignoresCallers_congruence.pure value).2,
    fun inner => ((ignoresEmpty_sequencing (inner + 1)).pure value).2⟩
  throw stop := ⟨rfl, (ignoresCallers_congruence.throw stop).2,
    fun inner => ((ignoresEmpty_sequencing (inner + 1)).throw stop).2⟩
  bind hact hnext := by
    obtain ⟨rfl, hcallers, hempty⟩ := hact
    obtain rfl := funext fun value => (hnext value).1
    exact ⟨rfl, hcallers.bind fun value => (hnext value).2.1,
      fun inner => (hempty inner).bind fun value => (hnext value).2.2 inner⟩
  lookup name := ⟨rfl, .lookup name, fun _ => .lookup name⟩
  declare name value := ⟨rfl, .declare name value, fun _ => .declare name value⟩
  assign name value := ⟨rfl, .assign name value, fun _ => .assign name value⟩
  print line := ⟨rfl, .print line, fun _ _ hinner => ⟨rfl, hinner⟩⟩
  newFunction _ _ _ := ⟨rfl, fun _ _ _ => rfl, fun _ _ hinner => ⟨rfl, hinner⟩⟩
  inBlock h := ⟨h.1 ▸ rfl, h.2.1.inBlock, fun inner => (h.2.2 (inner + 1)).inBlock⟩
  inCall h := ⟨h.1 ▸ rfl, h.2.1.inCall, fun _ => .inCall h.2.1⟩
  onLine line _ _ h := ⟨h.1 ▸ rfl, h.2.1.onLine line, fun inner => (h.2.2 inner).onLine line⟩

/-- Statements ignore an empty scope that has another one inside it. -/
theorem exec_ignoresEmpty (patience depth : Nat) (stmt : Stmt) :
    exec patience depth stmt = exec patience depth stmt ∧
      IgnoresCallers (exec patience depth stmt) ∧
        ∀ inner, IgnoresEmpty (inner + 1) (exec patience depth stmt) :=
  (ignoresEmpty_congruence.eval_and_exec (.inl rfl) (.inl rfl)).2 stmt

/-- Blocks ignore all empty scopes: their own one stands inside. -/
theorem block_ignoresEmpty (patience depth inner : Nat) (stmts : List Stmt) :
    IgnoresEmpty inner (inBlock (statements (exec patience depth) stmts)) :=
  .inBlock ((ignoresEmpty_congruence.statements (exec_ignoresEmpty patience depth) stmts).2.2
    inner)

/-- Expressions ignore all empty scopes: what declares is a call, in a scope of its own. -/
theorem eval_ignoresEmpty (patience depth inner : Nat) (expr : Expr) :
    IgnoresEmpty inner (eval patience depth expr) := by
  have hsequencing := ignoresEmpty_sequencing inner
  suffices h : eval patience depth expr = eval patience depth expr ∧
      IgnoresEmpty inner (eval patience depth expr) from h.2
  induction depth generalizing expr with
  | zero => exact eval_zero patience expr ▸ hsequencing.throw _
  | succ depth ih =>
      refine hsequencing.eval_succ ih (fun function args => ⟨rfl, .inCall ?_⟩) expr
      exact (ignoresEmpty_congruence.callBody (exec_ignoresEmpty patience depth) function args).2.1

/-- So do conditionals. -/
theorem ifThen_ignoresEmpty (patience depth inner : Nat) (test : Expr) (body : List Stmt)
    (otherwise : Alternative) (line : Option Int) :
    IgnoresEmpty inner (exec patience depth (.ifThen test body otherwise line)) := by
  have hsequencing := ignoresEmpty_sequencing inner
  cases depth with
  | zero => exact exec_zero patience _ ▸ (hsequencing.throw _).2
  | succ depth =>
      rw [exec.eq_def]
      refine .onLine line (.bind (eval_ignoresEmpty patience depth inner test) fun value =>
        .bind (hsequencing.condition _ value).2 fun holds => ?_)
      cases holds with
      | true => exact block_ignoresEmpty patience depth inner body
      | false =>
          exact (hsequencing.alternative
            (fun expr => ⟨rfl, eval_ignoresEmpty patience depth inner expr⟩)
            (fun block => ⟨rfl, block_ignoresEmpty patience depth inner block⟩) otherwise).2

theorem statements_singleton (exec : Stmt → Run Signal) (stmt : Stmt) :
    statements exec [stmt] = exec stmt := by
  funext state
  rw [statements, bind_apply]
  rcases exec stmt state with ⟨_ | _ | _ | _ | _, after⟩ <;> rfl

/-- A block that holds nothing but a conditional does what the conditional does. -/
theorem block_ifThen (patience depth : Nat) (test : Expr) (body : List Stmt)
    (otherwise : Alternative) (line : Option Int) :
    inBlock (statements (exec patience depth) [.ifThen test body otherwise line]) =
      exec patience depth (.ifThen test body otherwise line) := by
  rw [statements_singleton]
  exact (ifThen_ignoresEmpty patience depth 0 test body otherwise line).inBlock_eq_self

end Run

end Bol
