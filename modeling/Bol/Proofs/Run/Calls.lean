/-
# What a call does in order

A call looks its function up, then evaluates its arguments from left to right, then compares their
number with that of the parameters, and only then binds the parameters and runs the body. Each step
starts in the state that the one before it leaves, so wherever a call fails, what was done up to
there stays and nothing else is done. The function is the one that was found first, whatever the
arguments make of its name.
-/

import Mathlib.Data.List.Induction
import Mathlib.Data.List.Nodup
import Mathlib.Tactic.ByContra
import Bol.Proofs.Run.Isolation
import Bol.Proofs.Run.Parts

namespace Bol

/-- The scope binds each parameter to the argument in the same place and holds nothing else. -/
structure Scope.BindsExactly (scope : Scope) (params : List String) (args : List Value) : Prop where
  get?_param {place : Nat} {name : String} (h : params[place]? = some name) :
    scope.get? name = args[place]?
  get?_other {name : String} (h : name ∉ params) : scope.get? name = none

/-- The state in which the body of a call runs: the scope is the only one besides the global one. -/
def State.inScope (state : State) (scope : Scope) : State :=
  { state with locals := [scope], callers := state.locals :: state.callers }

/-- The first name of a list that occurs before in it. -/
def IsFirstRepeated (names : List String) (name : String) : Prop :=
  ∃ earlier later, names = earlier ++ name :: later ∧ earlier.Nodup ∧ name ∈ earlier

theorem exists_isFirstRepeated {names : List String} (h : ¬ names.Nodup) :
    ∃ name, IsFirstRepeated names name := by
  induction names using List.reverseRecOn with
  | nil => exact absurd List.nodup_nil h
  | append_singleton names last ih =>
      by_cases hnames : names.Nodup
      · refine ⟨last, names, [], rfl, hnames, ?_⟩
        by_contra hlast
        exact h (List.nodup_append_comm.mp (List.nodup_cons.mpr ⟨hlast, hnames⟩))
      · obtain ⟨name, earlier, later, rfl, hearlier⟩ := ih hnames
        exact ⟨name, earlier, later ++ [last], by simp, hearlier⟩

namespace Run

/-! ## The arguments -/

section Arguments

variable {eval : Expr → Run Value} {args : List Expr} {values : List Value}
  {before after : State} {stop : Stop}

theorem mapM_apply (h : EvaluateTo eval args values before after) :
    args.mapM eval before = (.ok values, after) := by
  induction h with
  | nil => rfl
  | cons hexpr _ ih => rw [List.mapM_cons, bind_apply_of_ok hexpr, bind_apply_of_ok ih]; rfl

/-- Evaluated in order from the state `before`, some of the expressions have values and the one
after them stops the run; `after` is the state that it leaves. -/
def StopsAt (eval : Expr → Run Value) (args : List Expr) (before : State) (stop : Stop)
    (after : State) : Prop :=
  ∃ earlier arg later values middle, args = earlier ++ arg :: later ∧
    EvaluateTo eval earlier values before middle ∧ eval arg middle = (.error stop, after)

/-- The first argument that fails is the last one that is evaluated. -/
theorem mapM_apply_of_stopsAt (h : StopsAt eval args before stop after) :
    args.mapM eval before = (.error stop, after) := by
  obtain ⟨earlier, arg, later, values, middle, rfl, hearlier, harg⟩ := h
  induction hearlier with
  | nil => rw [List.nil_append, List.mapM_cons, bind_apply_of_error harg]
  | cons hexpr _ ih =>
      rw [List.cons_append, List.mapM_cons, bind_apply_of_ok hexpr, bind_apply_of_error (ih harg)]

/-- All arguments have values, or there is a first one that fails. -/
theorem evaluateTo_or_stopsAt (eval : Expr → Run Value) (args : List Expr) (before : State) :
    (∃ values after, EvaluateTo eval args values before after) ∨
      ∃ stop after, StopsAt eval args before stop after := by
  induction args generalizing before with
  | nil => exact .inl ⟨[], before, .nil before⟩
  | cons arg args ih =>
      rcases harg : eval arg before with ⟨stop | value, middle⟩
      · exact .inr ⟨stop, middle, [], arg, args, [], before, rfl, .nil before, harg⟩
      · rcases ih middle with ⟨values, after, h⟩ |
          ⟨stop, after, earlier, last, later, values, next, rfl, h, hlast⟩
        · exact .inl ⟨value :: values, after, .cons harg h⟩
        · exact .inr ⟨stop, after, arg :: earlier, last, later, value :: values, next, rfl,
            .cons harg h, hlast⟩

end Arguments

/-! ## The parameters -/

section Parameters

variable {params : List String} {args : List Value} {scope : Scope}

theorem bindParams_append (pairs more : List (String × Value)) :
    bindParams (pairs ++ more) = bindParams pairs >>= fun _ => bindParams more := by
  induction pairs with
  | nil => rfl
  | cons pair pairs ih => simp only [List.cons_append, bindParams, ih, bind_assoc]

/-- Parameters that are new to the innermost scope are added to it, each with its argument. -/
theorem exists_bound (hlength : args.length = params.length) (hnodup : params.Nodup)
    (hnew : ∀ name ∈ params, scope.get? name = none) :
    ∃ bound : Scope,
      (∀ (state : State) outer, state.locals = scope :: outer →
        bindParams (params.zip args) state = (.ok (), { state with locals := bound :: outer })) ∧
      (∀ (place : Nat) (name : String), params[place]? = some name →
        bound.get? name = args[place]?) ∧
      ∀ name, name ∉ params → bound.get? name = scope.get? name := by
  induction params generalizing args scope with
  | nil =>
      refine ⟨scope, fun state outer hlocals => ?_, by simp, fun _ _ => rfl⟩
      rw [← hlocals]
      rfl
  | cons param params ih =>
      obtain ⟨arg, args, rfl⟩ := List.exists_cons_of_length_eq_add_one hlength
      obtain ⟨hparam, hnodup⟩ := List.nodup_cons.mp hnodup
      have hfree : scope.has param = false := by
        rw [Scope.has, hnew param List.mem_cons_self]
        rfl
      obtain ⟨bound, hbind, hget, hother⟩ := @ih args (scope.add param arg)
        (Nat.succ.inj hlength) hnodup fun name hname => by
          have hne : name ≠ param := fun heq => hparam (heq ▸ hname)
          rw [Scope.get?_add, if_neg hne]
          exact hnew name (List.mem_cons_of_mem param hname)
      refine ⟨bound, fun state outer hlocals => ?_, fun place name hplace => ?_,
        fun name hname => ?_⟩
      · rw [List.zip_cons_cons, bindParams,
          bind_apply_of_ok (declare_apply_of_free hlocals hfree)]
        exact hbind _ outer rfl
      · cases place with
        | zero =>
            obtain rfl : param = name := Option.some.inj hplace
            rw [hother param hparam, Scope.get?_add, if_pos rfl]
            rfl
        | succ place => exact hget place name hplace
      · obtain ⟨hne, hname⟩ := not_or.mp (mt List.mem_cons.mpr hname)
        rw [hother name hname, Scope.get?_add, if_neg hne]

/-- A parameter that occurs before in the list is found in the innermost scope. -/
theorem bindParams_of_repeated {name : String} (hlength : args.length = params.length)
    (hname : IsFirstRepeated params name) {state : State} {outer : List Scope}
    (hlocals : state.locals = .empty :: outer) :
    ∃ bound : Scope, bindParams (params.zip args) state =
      faulty (.alreadyDeclared name) { state with locals := bound :: outer } := by
  obtain ⟨earlier, later, rfl, hnodup, hmem⟩ := hname
  obtain ⟨first, rest, rfl, hfirst, hrest⟩ : ∃ first rest, args = first ++ rest ∧
      first.length = earlier.length ∧ rest.length = (name :: later).length := by
    rw [List.length_append] at hlength
    refine ⟨args.take earlier.length, args.drop earlier.length,
      (List.take_append_drop _ args).symm, ?_, ?_⟩
    · exact List.length_take_of_le (hlength ▸ Nat.le_add_right _ _)
    · rw [List.length_drop, hlength, Nat.add_sub_cancel_left]
  obtain ⟨arg, rest, rfl⟩ := List.exists_cons_of_length_eq_add_one hrest
  obtain ⟨bound, hbind, hget, -⟩ := @exists_bound _ _ .empty hfirst hnodup fun _ _ => rfl
  obtain ⟨place, hplace, rfl⟩ := List.mem_iff_getElem.mp hmem
  have hheld : bound.has earlier[place] = true := by
    rw [Scope.has, hget place _ (List.getElem?_eq_getElem hplace),
      List.getElem?_eq_getElem (hfirst ▸ hplace)]
    rfl
  refine ⟨bound, ?_⟩
  rw [List.zip_append hfirst.symm, List.zip_cons_cons, bindParams_append,
    bind_apply_of_ok (hbind state outer hlocals), bindParams]
  exact bind_apply_of_error (declare_apply_of_held rfl hheld)

end Parameters

/-! ## The body -/

section Body

variable {exec : Stmt → Run Signal} {function : Function} {args : List Value} {state : State}

/-- What a call comes to when its body has ended. -/
def callResult : Except Stop Signal → Except Stop Value
  | .ok .normal => .ok .null
  | .ok (.returned value) => .ok value
  | .ok .broke => .error (.fault ⟨.breakOutsideLoop, none⟩)
  | .ok .continued => .error (.fault ⟨.continueOutsideLoop, none⟩)
  | .error stop => .error stop

/-- The body of a function, run from a state in which a call of the function has started. -/
def bodyOutcome (exec : Stmt → Run Signal) (function : Function) (state : State) :
    Except Stop Value × State :=
  let (signal, after) := statements exec function.body state
  (callResult signal, after.closeCall)

theorem enter_apply (exec : Stmt → Run Signal) (function : Function) (args : List Value)
    (state : State) :
    enter exec function args state =
      match bindParams (function.params.zip args) state.openCall with
      | (.ok (), bound) => bodyOutcome exec function bound
      | (.error stop, bound) => (.error stop, bound.closeCall) := by
  change inCall (callBody exec function args) state = _
  rw [inCall_eq, callBody, bind_apply]
  rcases bindParams (function.params.zip args) state.openCall with ⟨stop | ⟨⟩, bound⟩
  · rfl
  · dsimp only [bodyOutcome]
    rw [bind_apply]
    rcases statements exec function.body bound with ⟨_ | _ | _ | _ | _, after⟩ <;> rfl

theorem enter_of_nodup (hlength : args.length = function.params.length)
    (hnodup : function.params.Nodup) :
    ∃ scope : Scope, scope.BindsExactly function.params args ∧
      enter exec function args state = bodyOutcome exec function (state.inScope scope) := by
  obtain ⟨bound, hbind, hget, hother⟩ :=
    @exists_bound _ _ .empty hlength hnodup fun _ _ => rfl
  refine ⟨bound, ⟨hget _ _, hother _⟩, ?_⟩
  rw [enter_apply, hbind state.openCall [] rfl]
  rfl

theorem enter_of_repeated {name : String} (hlength : args.length = function.params.length)
    (hname : IsFirstRepeated function.params name) :
    enter exec function args state = faulty (.alreadyDeclared name) state := by
  obtain ⟨bound, hbind⟩ := @bindParams_of_repeated _ _ _ hlength hname state.openCall [] rfl
  rw [enter_apply, hbind]
  rfl

end Body

/-! ## The call -/

section Call

variable {patience depth : Nat} {callee : String} {args : List Expr} {values : List Value}
  {function : Function} {state after : State} {stop : Stop}

/-- Without a function to call, nothing is evaluated. -/
theorem eval_call_of_lookup_error (h : lookupFunction callee state = (.error stop, after)) :
    eval patience (depth + 1) (.call callee args) state = (.error stop, after) := by
  rw [eval.eq_def]
  exact bind_apply_of_error h

theorem eval_call_of_stopsAt (hfunction : lookupFunction callee state = (.ok function, state))
    (hargs : StopsAt (eval patience depth) args state stop after) :
    eval patience (depth + 1) (.call callee args) state = (.error stop, after) := by
  rw [eval.eq_def]
  dsimp only
  rw [bind_apply_of_ok hfunction]
  exact bind_apply_of_error (mapM_apply_of_stopsAt hargs)

theorem eval_call_of_length_ne (hfunction : lookupFunction callee state = (.ok function, state))
    (hargs : EvaluateTo (eval patience depth) args values state after)
    (hlength : values.length ≠ function.params.length) :
    eval patience (depth + 1) (.call callee args) state =
      faulty (.argumentCount callee function.params.length values.length) after := by
  rw [eval.eq_def]
  dsimp only
  rw [bind_apply_of_ok hfunction, bind_apply_of_ok (mapM_apply hargs), if_neg hlength]
  rfl

end Call

/-- What a call does. Without a function of that name in sight it fails before any argument is
evaluated. Otherwise its arguments are evaluated from left to right, each in the state that the
one before it leaves; the first that fails ends the call. If all of them have values, the call
fails if there are too few or too many, and if a parameter is repeated, with the first one that
is; else the body of the function that was found runs over the globals, in a scope that binds the
parameters to the arguments. In each case of failure the state is the one that the arguments
leave, as far as they were evaluated. -/
theorem call_protocol (patience depth : Nat) (callee : String) (args : List Expr) (state : State) :
    let outcome := eval patience (depth + 1) (.call callee args) state
    (Chain.get? state.chain callee = none → outcome = faulty (.undeclared callee) state) ∧
    (∀ value, Chain.get? state.chain callee = some value → value.type ≠ .function →
      outcome = faulty (.notFunction callee) state) ∧
    ∀ function, Chain.get? state.chain callee = some (.function function) →
      ((∃ values after, EvaluateTo (eval patience depth) args values state after) ∨
        ∃ stop after, StopsAt (eval patience depth) args state stop after) ∧
      (∀ stop after, StopsAt (eval patience depth) args state stop after →
        outcome = (.error stop, after)) ∧
      ∀ values after, EvaluateTo (eval patience depth) args values state after →
        (values.length ≠ function.params.length →
          outcome =
            faulty (.argumentCount callee function.params.length values.length) after) ∧
        (values.length = function.params.length → function.params.Nodup →
          ∃ scope : Scope, scope.BindsExactly function.params values ∧
            outcome = bodyOutcome (exec patience depth) function (after.inScope scope)) ∧
        (values.length = function.params.length → ¬ function.params.Nodup →
          ∃ name, IsFirstRepeated function.params name ∧
            outcome = faulty (.alreadyDeclared name) after) := by
  intro outcome
  have hlookup := lookupFunction_apply callee state
  refine ⟨fun hnone => ?_, fun value hvalue htype => ?_, fun function hfunction => ?_⟩
  · rw [hnone] at hlookup
    exact eval_call_of_lookup_error hlookup
  · rw [hvalue] at hlookup
    cases value with
    | function => exact absurd rfl htype
    | null | boolean | number | string => exact eval_call_of_lookup_error hlookup
  · rw [hfunction] at hlookup
    refine ⟨evaluateTo_or_stopsAt _ args state, fun stop after => eval_call_of_stopsAt hlookup,
      fun values after hargs => ⟨eval_call_of_length_ne hlookup hargs, fun hlength hnodup => ?_,
        fun hlength hrepeated => ?_⟩⟩
    all_goals
      have henter : outcome = enter (exec patience depth) function values after :=
        eval_call_eq_enter (congrArg Prod.fst hlookup) (mapM_apply hargs) hlength
    · obtain ⟨scope, hscope, hbody⟩ := enter_of_nodup hlength hnodup
      exact ⟨scope, hscope, henter.trans hbody⟩
    · obtain ⟨name, hname⟩ := exists_isFirstRepeated hrepeated
      exact ⟨name, hname, henter.trans (enter_of_repeated hlength hname)⟩

/-- A function that returns its argument. -/
def returnsArgument : Function := ⟨0, "f", ["a"], [.returnValue (some (.name "a")) none]⟩

/-- A function that makes `f` something else. -/
def reassignsF : Function :=
  ⟨1, "g", [], [.assign "f" .null none, .returnValue (some (.boolean true)) none]⟩

/-- A function with a repeated parameter. -/
def repeatsParameter : Function := ⟨2, "h", ["a", "b", "a"], [.print .null none]⟩

/-- The global bindings of the three functions, with `f` bound to the given value. -/
def threeFunctions (f : Value) : State :=
  ⟨⟨[("f", f), ("g", .function reassignsF), ("h", .function repeatsParameter)]⟩, [], [], #[], 3⟩

/-- The function `f` is called although its argument makes `f` something else, which stays where
the call fails for the number of arguments or for a repeated parameter. A call that fails before
does not come to this argument. -/
theorem call_protocol_reassigned :
    let before := threeFunctions (.function returnsArgument)
    let after := threeFunctions .null
    let arg : Expr := .call "g" []
    (∃ scope : Scope, scope.BindsExactly ["a"] [.boolean true] ∧
        eval 1 9 (.call "f" [arg]) before =
          bodyOutcome (exec 1 8) returnsArgument (after.inScope scope)) ∧
      eval 1 9 (.call "f" [arg, .null]) before = faulty (.argumentCount "f" 1 2) after ∧
      (∃ name, IsFirstRepeated ["a", "b", "a"] name ∧
        eval 1 9 (.call "h" [arg, .null, .null]) before = faulty (.alreadyDeclared name) after) ∧
      eval 1 9 (.call "f" [.name "x", arg]) before = faulty (.undeclared "x") before ∧
      eval 1 9 (.call "x" [arg]) before = faulty (.undeclared "x") before ∧
      eval 1 9 (.call "f" [arg]) after = faulty (.notFunction "f") after := by
  intro before after arg
  have harg : eval 1 8 arg before = (.ok (.boolean true), after) := rfl
  have hnull {state : State} : eval 1 8 .null state = (.ok .null, state) := rfl
  have hf := (call_protocol 1 8 "f" [arg] before).2.2 returnsArgument rfl
  have hmore := (call_protocol 1 8 "f" [arg, .null] before).2.2 returnsArgument rfl
  have hh := (call_protocol 1 8 "h" [arg, .null, .null] before).2.2 repeatsParameter rfl
  have hx := (call_protocol 1 8 "f" [.name "x", arg] before).2.2 returnsArgument rfl
  refine ⟨(hf.2.2 _ after (.cons harg (.nil _))).2.1 rfl (by decide),
    (hmore.2.2 _ after (.cons harg (.cons hnull (.nil _)))).1 (by decide),
    (hh.2.2 _ after (.cons harg (.cons hnull (.cons hnull (.nil _))))).2.2 rfl (by decide),
    hx.2.1 _ _ ⟨[], .name "x", [arg], [], before, rfl, .nil _, rfl⟩,
    (call_protocol 1 8 "x" [arg] before).1 rfl,
    (call_protocol 1 8 "f" [arg] after).2.1 .null rfl (by decide)⟩

end Run

end Bol
