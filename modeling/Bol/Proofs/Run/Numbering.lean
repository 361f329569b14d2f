/-
# The numbers of functions

A function has a number, which tells it apart from other functions and shows nowhere else. So runs
from states that differ only in the numbers of their functions, one to one, print the same lines and
end alike, and the states that they leave again differ only in these numbers. A state whose
functions have all been made before has numbers below the number of functions made, and a run keeps
it so.
-/

import Mathlib.Logic.Relator
import Bol.Proofs.Run.Correspondence
import Bol.Proofs.Run.Values

namespace Bol

variable (ids : Nat → Nat → Prop)

/-- Equal values, or functions that differ in corresponding numbers. -/
inductive Value.Renumbered : Value → Value → Prop
  | plain {value : Value} (h : value.type ≠ .function) : Value.Renumbered value value
  | function {id id' : Nat} {name : String} {params : List String} {body : List Stmt}
      (h : ids id id') :
      Value.Renumbered (.function ⟨id, name, params, body⟩) (.function ⟨id', name, params, body⟩)

/-- The same names, with values that differ in corresponding numbers. -/
def Scope.Renumbered (scope scope' : Scope) : Prop :=
  ∀ name, Option.Rel (Value.Renumbered ids) (scope.get? name) (scope'.get? name)

variable {ids}

namespace Value.Renumbered

variable {value value' other other' : Value}

theorem mono {ids' : Nat → Nat → Prop} (h : value.Renumbered ids value')
    (hids : ∀ id id', ids id id' → ids' id id') : value.Renumbered ids' value' := by
  cases h with
  | plain htype => exact .plain htype
  | function h => exact .function (hids _ _ h)

theorem eq_of_type_ne (h : value.Renumbered ids value') (htype : value.type ≠ .function) :
    value' = value := by
  cases h with
  | plain => rfl
  | function => exact absurd rfl htype

theorem function_of {function : Function} (h : Value.Renumbered ids (.function function) value') :
    ∃ function', value' = .function function' ∧ function.Matches Eq function' := by
  cases h with
  | plain htype => exact absurd rfl htype
  | function => exact ⟨_, rfl, rfl, rfl, List.forall₂_eq_eq_eq ▸ rfl⟩

theorem equal_eq (hids : Relator.BiUnique ids) (h : value.Renumbered ids value')
    (hother : other.Renumbered ids other') : value.equal other = value'.equal other' := by
  cases h with
  | plain htype =>
      cases hother with
      | plain => rfl
      | function => cases value <;> first | rfl | exact absurd rfl htype
  | function hid =>
      cases hother with
      | plain htype => cases other <;> first | rfl | exact absurd rfl htype
      | function hid' =>
          have hiff := Relator.rel_eq hids hid hid'
          exact Bool.eq_iff_iff.mpr (by simpa [Value.equal] using hiff)

end Value.Renumbered

namespace Scope.Renumbered

variable {scope scope' : Scope} {value value' : Value}

theorem mono {ids' : Nat → Nat → Prop} (h : scope.Renumbered ids scope')
    (hids : ∀ id id', ids id id' → ids' id id') : scope.Renumbered ids' scope' := by
  intro name
  have hget := h name
  generalize scope.get? name = found at hget ⊢
  generalize scope'.get? name = found' at hget ⊢
  cases hget with
  | none => exact .none
  | some hvalue => exact .some (hvalue.mono hids)

theorem empty : Scope.empty.Renumbered ids Scope.empty := fun _ => .none

theorem add (h : scope.Renumbered ids scope') (name : String)
    (hvalue : value.Renumbered ids value') :
    (scope.add name value).Renumbered ids (scope'.add name value') := by
  intro other
  rw [get?_add, get?_add]
  split
  · exact .some hvalue
  · exact h other

theorem set (h : scope.Renumbered ids scope') (name : String)
    (hvalue : value.Renumbered ids value') :
    (scope.set name value).Renumbered ids (scope'.set name value') := by
  intro other
  rw [get?_set, get?_set]
  split
  · have hget := h name
    generalize scope.get? name = found at hget ⊢
    generalize scope'.get? name = found' at hget ⊢
    cases hget with
    | none => exact .none
    | some => exact .some hvalue
  · exact h other

end Scope.Renumbered

/-- The numbers of functions may differ, one to one. As more functions are made there are more
numbers that correspond. -/
def Correspondence.renumbering (ids : (made : Nat) → Nat → Nat → Prop) (start : Nat)
    (hmono : ∀ made made' id id', made ≤ made' → ids made id id' → ids made' id id')
    (hunique : ∀ made, Relator.BiUnique (ids made))
    (hmade : ∀ made, start ≤ made → ids (made + 1) made made) : Correspondence where
  expr := Eq
  stmt := Eq
  line := Eq
  value made := Value.Renumbered (ids made)
  scope made := Scope.Renumbered (ids made)
  start := start
  lax := False
  lag := 0
  runAlike := .eq
  matches_of_stmt h := h ▸ .refl (fun _ => rfl) (fun _ => rfl) _
  line_of_stmt h := congrArg Stmt.line h
  line_none := rfl
  line_or h h' := h ▸ h' ▸ rfl
  value_mono hle h := h.mono fun id id' => hmono _ _ id id' hle
  value_of_type_ne := .plain
  value_of_made hstart hbody := by
    rw [List.forall₂_eq_eq_eq] at hbody
    exact hbody ▸ .function (hmade _ hstart)
  eq_of_type_ne := Value.Renumbered.eq_of_type_ne
  function_of_value := Value.Renumbered.function_of
  equal_eq := Value.Renumbered.equal_eq (hunique _)
  scope_mono hle h := h.mono fun id id' => hmono _ _ id id' hle
  scope_empty := .empty
  get? h name := h name
  add h name hvalue := h.add name hvalue
  set h name hvalue := h.set name hvalue

/-! ## Numbers below the number of functions made -/

/-- A state that runs start in: no scope is open besides the global one, and all functions that are
stored have been made. -/
structure State.AtRest (state : State) : Prop where
  locals : state.locals = []
  callers : state.callers = []
  numbered : ∀ name function, state.globals.get? name = some (.function function) →
    function.id < state.functions

/-- The same number, of a function that has been made. -/
def Correspondence.numbering : Correspondence :=
  renumbering (fun made id id' => id = id' ∧ id < made) 0
    (fun _ _ _ _ hle h => ⟨h.1, Nat.lt_of_lt_of_le h.2 hle⟩)
    (fun _ => ⟨fun _ _ _ h h' => h.1.trans h'.1.symm, fun _ _ _ h h' => h.1.symm.trans h'.1⟩)
    (fun made _ => ⟨rfl, Nat.lt_succ_self made⟩)

namespace State.AtRest

theorem initial : State.initial.AtRest := ⟨rfl, rfl, nofun⟩

/-- All functions that are stored have numbers that correspond to themselves, if all numbers of
functions that have been made do. -/
theorem renumbered {state : State} (h : state.AtRest) {ids : Nat → Nat → Prop}
    (hids : ∀ id < state.functions, ids id id) : state.globals.Renumbered ids state.globals := by
  intro name
  cases hget : state.globals.get? name with
  | none => exact .none
  | some value =>
      apply Option.Rel.some
      cases value with
      | function function => exact .function (hids _ (h.numbered name function hget))
      | null | boolean _ | number _ | string _ => exact .plain (by simp [Value.type])

theorem states {state : State} (h : state.AtRest) :
    Correspondence.numbering.States state state := by
  have hglobals : state.globals.Renumbered (fun id id' => id = id' ∧ id < state.functions)
      state.globals := h.renumbered fun _ hlt => ⟨rfl, hlt⟩
  refine ⟨Nat.zero_le _, hglobals, ?_, ?_, rfl, rfl⟩
  · rw [h.locals]
    exact .nil
  · rw [h.callers]
    exact .nil

/-- A run leaves all scopes closed that it has opened, and it stores only functions that have been
made. -/
theorem program {state : State} (h : state.AtRest) (patience depth : Nat) (program : Program) :
    (program.run patience depth state).2.AtRest := by
  have hstmts : ∀ stmt ∈ program.statements, Discipline.free.stmt () stmt := fun _ _ => trivial
  have hscopes : State.SameScopes state (program.run patience depth state).2 :=
    ((Run.isAdmitted_keeps .free patience).program depth hstmts (fun _ _ _ _ => trivial)
      fun _ _ _ _ _ _ _ hpart => absurd hpart Run.not_inCourse_none).scopes
  have hruns : Correspondence.numbering.Runs 0 (fun _ _ _ => True) (program.run patience depth)
    (program.run patience (0 + depth)) := .program patience depth (List.forall₂_eq_eq_eq ▸ rfl)
  rw [Nat.zero_add] at hruns
  obtain ⟨-, -, hafter⟩ := hruns state state (Nat.zero_le _) h.states False.elim
  refine ⟨List.eq_nil_of_length_eq_zero ?_, hscopes.callers.trans h.callers,
    fun name function hget => ?_⟩
  · rw [hscopes.locals, h.locals, List.length_nil]
  · have hsame := hafter.globals name
    rw [hget] at hsame
    cases hsame with
    | some hvalue =>
        cases hvalue with
        | plain htype => exact absurd rfl htype
        | function hid => exact hid.2

end State.AtRest

end Bol
