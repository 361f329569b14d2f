/-
# Isolation of calls

A function has neither a closure nor its caller's variables: its body sees its own scopes and the
global one. So a call is determined by the function, the arguments and the global scope. Wherever
it takes place, it does what it would do at the top level, and it leaves all other scopes that it
finds as they are. The induction over the body of the call shows that nothing a run does reads or
writes the scopes of waiting callers.
-/

import Bol.Proofs.Run.Bounds

namespace Bol

/-- The same state with other calls waiting and other lines printed before. -/
def State.framed (state : State) (callers : List (List Scope)) (earlier : Array String) : State :=
  { state with callers, output := earlier ++ state.output }

/-- The same globals, with other scopes in sight, other calls waiting and other lines printed. -/
def State.elsewhere (state : State) (locals : List Scope) (callers : List (List Scope))
    (output : Array String) : State := { state with locals, callers, output }

/-- The same state without scopes besides the global one and with nothing printed yet. -/
def State.atTop (state : State) : State := { state with locals := [], callers := [], output := #[] }

namespace Run

/-- Neither the scopes of waiting callers nor the lines printed before have a part in what the
computation does, and it leaves both as they are. -/
def IgnoresCallers {α : Type} (act : Run α) : Prop :=
  ∀ state callers earlier,
    act (state.framed callers earlier) =
      ((act state).1, (act state).2.framed callers earlier)

namespace IgnoresCallers

variable {α β : Type} {act : Run α}

theorem bind {next : α → Run β} (h : IgnoresCallers act)
    (hnext : ∀ value, IgnoresCallers (next value)) : IgnoresCallers (act >>= next) := by
  intro state callers earlier
  rw [bind_apply, bind_apply, h state callers earlier]
  rcases act state with ⟨stop | value, after⟩
  · rfl
  · exact hnext value after callers earlier

theorem lookup (name : String) : IgnoresCallers (lookup name) := by
  intro state callers earlier
  have hchain : (state.framed callers earlier).chain = state.chain := rfl
  rw [lookup_apply, lookup_apply, hchain]
  cases Chain.get? state.chain name <;> rfl

theorem declare (name : String) (value : Value) : IgnoresCallers (declare name value) := by
  rintro ⟨globals, locals, own, output, functions⟩ callers earlier
  rw [declare_apply, declare_apply]
  cases locals with
  | nil =>
      dsimp only [State.framed]
      cases globals.declare? name value <;> rfl
  | cons scope outer =>
      dsimp only [State.framed]
      cases scope.declare? name value <;> rfl

theorem assign (name : String) (value : Value) : IgnoresCallers (assign name value) := by
  rintro ⟨globals, locals, own, output, functions⟩ callers earlier
  rw [assign_apply, assign_apply]
  dsimp only [State.framed]
  cases Chain.assign? name value locals with
  | some locals => rfl
  | none => by_cases hhas : globals.has name = true <;> simp [hhas, faulty]

theorem print (line : String) : IgnoresCallers (print line) := by
  intro state callers earlier
  rw [print_apply, print_apply]
  simp [State.framed]

theorem inBlock (h : IgnoresCallers act) : IgnoresCallers (inBlock act) := by
  intro state callers earlier
  rw [inBlock_apply, inBlock_apply]
  have hsame := h { state with locals := .empty :: state.locals } callers earlier
  rw [State.framed] at hsame ⊢
  rw [hsame]
  rfl

/-- A call does what it does at the top level, and it brings the caller's scopes back. -/
theorem inCall_eq (h : IgnoresCallers act) (state : State) :
    inCall act state =
      ((inCall act state.atTop).1,
        { (inCall act state.atTop).2 with
          locals := state.locals
          callers := state.callers
          output := state.output ++ (inCall act state.atTop).2.output }) := by
  have hinside : { state with locals := [.empty], callers := state.locals :: state.callers } =
      { state.atTop with locals := [.empty], callers := [[]] }.framed
        (state.locals :: state.callers) state.output := by
    simp [State.framed, State.atTop]
  rw [inCall_apply, inCall_apply, hinside, h]
  rfl

theorem inCall (h : IgnoresCallers act) : IgnoresCallers (inCall act) := by
  intro state callers earlier
  rw [inCall_eq h (state.framed callers earlier), inCall_eq h state]
  simp [State.framed, State.atTop]

theorem onLine (line : Option Int) (h : IgnoresCallers act) : IgnoresCallers (onLine line act) := by
  intro state callers earlier
  rw [onLine_apply, onLine_apply, h state callers earlier]

end IgnoresCallers

/-- Being the same computation, which ignores callers. -/
theorem ignoresCallers_congruence :
    Congruence fun act act' => act = act' ∧ IgnoresCallers act where
  pure _ := ⟨rfl, fun _ _ _ => rfl⟩
  throw _ := ⟨rfl, fun _ _ _ => rfl⟩
  bind hact hnext := by
    obtain ⟨rfl, hact⟩ := hact
    obtain rfl := funext fun value => (hnext value).1
    exact ⟨rfl, hact.bind fun value => (hnext value).2⟩
  lookup name := ⟨rfl, .lookup name⟩
  declare name value := ⟨rfl, .declare name value⟩
  assign name value := ⟨rfl, .assign name value⟩
  print line := ⟨rfl, .print line⟩
  newFunction _ _ _ := ⟨rfl, fun _ _ _ => rfl⟩
  inBlock h := ⟨h.1 ▸ rfl, h.2.inBlock⟩
  inCall h := ⟨h.1 ▸ rfl, h.2.inCall⟩
  onLine line _ _ h := ⟨h.1 ▸ rfl, h.2.onLine line⟩

/-- What happens in a call is what happens in the same call at the top level. -/
theorem enter_eq_atTop (patience depth : Nat) (function : Function) (args : List Value)
    (state : State) :
    enter (exec patience depth) function args state =
      ((enter (exec patience depth) function args state.atTop).1,
        { (enter (exec patience depth) function args state.atTop).2 with
          locals := state.locals
          callers := state.callers
          output := state.output ++
            (enter (exec patience depth) function args state.atTop).2.output }) := by
  have hexec : ∀ stmt, exec patience depth stmt = exec patience depth stmt ∧
      IgnoresCallers (exec patience depth stmt) := fun stmt =>
    (ignoresCallers_congruence.eval_and_exec (.inl rfl) (.inl rfl)).2 stmt
  exact (ignoresCallers_congruence.callBody hexec function args).2.inCall_eq state

/-- Two outcomes of one call that no bound cuts short are the same. -/
theorem enter_eq_of_not_isCut {patience patience' depth depth' : Nat} {function : Function}
    {args : List Value} {state : State}
    (h : ¬ IsCut (enter (exec patience depth) function args state).1)
    (h' : ¬ IsCut (enter (exec patience' depth') function args state).1) :
    enter (exec patience depth) function args state =
      enter (exec patience' depth') function args state := by
  have hextends := fun {p p' d d' : Nat} (hp : p ≤ p') (hd : d ≤ d') =>
    isExtendedBy_congruence.enter (exec_isExtendedBy hp hd) function args state
  rw [← hextends (Nat.le_max_left patience patience') (Nat.le_max_left depth depth') h,
    ← hextends (Nat.le_max_right patience patience') (Nat.le_max_right depth depth') h']

theorem lookupFunction_apply (callee : String) (state : State) :
    lookupFunction callee state =
      match Chain.get? state.chain callee with
      | some (.function function) => (.ok function, state)
      | some _ => faulty (.notFunction callee) state
      | none => faulty (.undeclared callee) state := by
  rw [lookupFunction, bind_apply, lookup_apply]
  rcases Chain.get? state.chain callee with _ | (_ | _ | _ | _ | _) <;> rfl

theorem lookupFunction_apply_of_ok {callee : String} {function : Function} {state : State}
    (h : (lookupFunction callee state).1 = .ok function) :
    lookupFunction callee state = (.ok function, state) := by
  rw [lookupFunction_apply] at h ⊢
  generalize Chain.get? state.chain callee = value at h ⊢
  rcases value with _ | (_ | _ | _ | _ | found) <;> cases h
  rfl

/-- With as many arguments as parameters, a call expression comes to the call itself in the state
that the arguments leave. -/
theorem eval_call_eq_enter {patience depth : Nat} {callee : String} {exprs : List Expr}
    {before state : State} {function : Function} {args : List Value}
    (hfunction : (lookupFunction callee before).1 = .ok function)
    (hargs : exprs.mapM (eval patience depth) before = (.ok args, state))
    (hlength : args.length = function.params.length) :
    eval patience (depth + 1) (.call callee exprs) before =
      enter (exec patience depth) function args state := by
  rw [eval.eq_def]
  dsimp only
  rw [bind_apply_of_ok (lookupFunction_apply_of_ok hfunction), bind_apply_of_ok hargs,
    if_pos hlength]

/-- What the call `act` from `here` and the call `act'` from `there` have in common: the value or
the error, the global scope, and the lines that are printed. -/
structure SameCall (act act' : Run Value) (here there : State) : Prop where
  result : (act here).1 = (act' there).1
  globals : (act here).2.globals = (act' there).2.globals
  functions : (act here).2.functions = (act' there).2.functions
  printed : ∃ lines,
    (act here).2.output = here.output ++ lines ∧ (act' there).2.output = there.output ++ lines

/-- The scopes that a call finds, the global one apart, hold afterwards what they held. -/
structure KeepsScopes (act : Run Value) (state : State) : Prop where
  locals : (act state).2.locals = state.locals
  callers : (act state).2.callers = state.callers

theorem sameCall_elsewhere (patience depth : Nat) (function : Function) (args : List Value)
    (state : State) (locals : List Scope) (callers : List (List Scope)) (output : Array String) :
    SameCall (enter (exec patience depth) function args) (enter (exec patience depth) function args)
      state (state.elsewhere locals callers output) := by
  have hhere := enter_eq_atTop patience depth function args state
  have hthere := enter_eq_atTop patience depth function args (state.elsewhere locals callers output)
  exact ⟨by rw [hhere, hthere]; rfl, by rw [hhere, hthere]; rfl, by rw [hhere, hthere]; rfl,
    _, by rw [hhere], by rw [hthere]; rfl⟩

/-- A call is isolated from its caller. Whatever scopes are in sight, whatever calls are waiting
and whatever was printed where it takes place, it has the same value or error, prints the same
lines and leaves the same global scope; so it does under other bounds, unless one of them cuts it
short. All scopes that it finds, the global one apart, keep their bindings, and a call expression
comes to such a call in the state that its arguments leave. -/
theorem call_isolated (patience depth : Nat) (function : Function) (args : List Value)
    (state : State) :
    (∀ locals callers output,
      SameCall (enter (exec patience depth) function args)
        (enter (exec patience depth) function args) state
        (state.elsewhere locals callers output)) ∧
    (∀ locals callers output patience' depth',
      ¬ IsCut (enter (exec patience depth) function args state).1 →
      ¬ IsCut (enter (exec patience' depth') function args
        (state.elsewhere locals callers output)).1 →
      SameCall (enter (exec patience depth) function args)
        (enter (exec patience' depth') function args) state
        (state.elsewhere locals callers output)) ∧
    KeepsScopes (enter (exec patience depth) function args) state ∧
    (∀ callee exprs before, (lookupFunction callee before).1 = .ok function →
      exprs.mapM (eval patience depth) before = (.ok args, state) →
      args.length = function.params.length →
      eval patience (depth + 1) (.call callee exprs) before =
        enter (exec patience depth) function args state) := by
  have hsame := sameCall_elsewhere patience depth function args state
  refine ⟨hsame, fun locals callers output patience' depth' hcut hcut' => ?_, ?_,
    fun callee exprs before => eval_call_eq_enter⟩
  · have hthere := hsame locals callers output
    have hbounds := enter_eq_of_not_isCut (hthere.result ▸ hcut) hcut'
    exact ⟨hbounds ▸ hthere.result, hbounds ▸ hthere.globals, hbounds ▸ hthere.functions,
      hbounds ▸ hthere.printed⟩
  · have hkept := enter_eq_atTop patience depth function args state
    exact ⟨by rw [hkept], by rw [hkept]⟩

/-- A function that prints its argument and then uses a variable `x`. -/
def usesX : Function :=
  ⟨0, "f", ["a"], [.print (.name "a") none, .returnValue (some (.name "x")) none]⟩

/-- A state inside a block that has a variable `x`, with `usesX` declared globally. -/
def besideX : State := ⟨⟨[("f", .function usesX)]⟩, [⟨[("x", .boolean true)]⟩], [], #[], 1⟩

/-- The `x` of the caller is not seen: the call fails in the block as it does at the top level. -/
theorem call_isolated_from_x :
    SameCall (enter (exec 1 9) usesX [.null]) (enter (exec 2 5) usesX [.null]) besideX
        (besideX.elsewhere [] [] #[]) ∧
      eval 1 10 (.call "f" [.null]) besideX = enter (exec 1 9) usesX [.null] besideX :=
  ⟨(call_isolated 1 9 usesX [.null] besideX).2.1 [] [] #[] 2 5 (by decide) (by decide),
    (call_isolated 1 9 usesX [.null] besideX).2.2.2 "f" [.null] besideX rfl rfl rfl⟩

end Run

end Bol
