/-
# The scopes of a state

All scopes of a state have places, in the order in which they were opened: as long as a scope is
open it keeps its place, since blocks and calls close the scopes that were opened last. A
declaration or an assignment concerns the scope at one place.
-/

import Bol.Proofs.Run.Operations
import Bol.Proofs.Run.Parts

namespace Bol

namespace State

/-- All scopes in the order in which they were opened, the global one first. -/
def environments (state : State) : List Scope :=
  state.globals :: (state.locals :: state.callers).reverse.flatMap List.reverse

theorem environments_of_locals {state : State} {scope : Scope} {outer : List Scope}
    (h : state.locals = scope :: outer) :
    state.environments = state.closeBlock.environments ++ [scope] := by
  simp [environments, closeBlock, h]

theorem environments_of_callers {state : State} {locals : List Scope}
    {callers : List (List Scope)} (h : state.callers = locals :: callers) :
    state.environments = state.closeCall.environments ++ state.locals.reverse := by
  simp [environments, closeCall, h]

theorem environments_openBlock (state : State) :
    state.openBlock.environments = state.environments ++ [.empty] := by
  simp [environments, openBlock]

theorem environments_openCall (state : State) :
    state.openCall.environments = state.environments ++ [.empty] := by
  simp [environments, openCall]

theorem mem_environments_of_mem_chain {state : State} {scope : Scope} (h : scope ∈ state.chain) :
    scope ∈ state.environments := by
  obtain h | h := List.mem_append.mp h
  · simp [environments, h]
  · exact List.mem_cons.mpr (.inl (List.mem_singleton.mp h))

/-- Scopes that were open before are open afterwards, and no others. -/
structure SameScopes (before after : State) : Prop where
  callers : after.callers = before.callers
  locals : after.locals.length = before.locals.length

namespace SameScopes

variable {before after last : State}

theorem refl (state : State) : SameScopes state state := ⟨rfl, rfl⟩

theorem trans (h : SameScopes before after) (h' : SameScopes after last) :
    SameScopes before last :=
  ⟨h'.callers.trans h.callers, h'.locals.trans h.locals⟩

theorem length_environments (h : SameScopes before after) :
    after.environments.length = before.environments.length := by
  simp [environments, h.callers, h.locals]

theorem closeBlock (h : SameScopes before.openBlock after) :
    SameScopes before after.closeBlock := by
  refine ⟨h.callers, ?_⟩
  simp [State.closeBlock, h.locals, openBlock]

theorem closeCall (h : SameScopes before.openCall after) : SameScopes before after.closeCall := by
  have hcallers : after.callers = before.locals :: before.callers := h.callers
  exact ⟨by simp [State.closeCall, hcallers], by simp [State.closeCall, hcallers]⟩

/-- At the end of a block its own scope stands after those from before. -/
theorem environments_closeBlock (h : SameScopes before.openBlock after) :
    ∃ scope, after.environments = after.closeBlock.environments ++ [scope] := by
  obtain ⟨scope, outer, hlocals⟩ := List.exists_cons_of_length_eq_add_one h.locals
  exact ⟨scope, environments_of_locals hlocals⟩

/-- At the end of a call its own scopes stand after those from before. -/
theorem environments_closeCall (h : SameScopes before.openCall after) :
    after.environments = after.closeCall.environments ++ after.locals.reverse :=
  environments_of_callers h.callers

end SameScopes

/-- One scope, which lacks `name`, gets a binding for it at the place of the scope. -/
def Adds (before after : State) (name : String) (value : Value) : Prop :=
  ∃ earlier scope later, before.environments = earlier ++ scope :: later ∧
    scope.has name = false ∧ after.environments = earlier ++ scope.add name value :: later

/-- The scope at `place` holds `name`, and `value` is bound to it there. -/
def Writes (before after : State) (place : Nat) (name : String) (value : Value) : Prop :=
  ∃ earlier scope later, before.environments = earlier ++ scope :: later ∧
    earlier.length = place ∧ scope.has name = true ∧
    after.environments = earlier ++ scope.set name value :: later

end State

namespace Run

open State

theorem declare?_eq_some {scope scope' : Scope} {name : String} {value : Value}
    (h : scope.declare? name value = some scope') :
    scope.has name = false ∧ scope' = scope.add name value := by
  unfold Scope.declare? at h
  split at h
  · cases h
  · rename_i hnew
    cases h
    exact ⟨Bool.eq_false_iff.mpr hnew, rfl⟩

/-- A declaration fails and changes nothing, or it adds its binding. -/
theorem declare_cases (name : String) (value : Value) (state : State) :
    declare name value state = faulty (.alreadyDeclared name) state ∨
      (declare name value state).1 = .ok () ∧ SameScopes state (declare name value state).2 ∧
        Adds state (declare name value state).2 name value := by
  rw [declare_apply]
  cases hlocals : state.locals with
  | nil =>
      dsimp only
      cases hdeclare : state.globals.declare? name value with
      | none => exact .inl rfl
      | some globals =>
          obtain ⟨hnew, rfl⟩ := declare?_eq_some hdeclare
          exact .inr ⟨rfl, ⟨rfl, by simp [hlocals]⟩, [], state.globals, _, rfl, hnew,
            by simp [environments, hlocals]⟩
  | cons scope outer =>
      dsimp only
      cases hdeclare : scope.declare? name value with
      | none => exact .inl rfl
      | some scope' =>
          obtain ⟨hnew, rfl⟩ := declare?_eq_some hdeclare
          exact .inr ⟨rfl, ⟨rfl, by simp [hlocals]⟩, state.closeBlock.environments, scope, [],
            environments_of_locals hlocals, hnew, by simp [environments, closeBlock, hlocals]⟩

theorem assign?_eq_some {name : String} {value : Value} {chain chain' : List Scope}
    (h : Chain.assign? name value chain = some chain') :
    ∃ inner scope outer, chain = inner ++ scope :: outer ∧ scope.has name = true ∧
      chain' = inner ++ scope.set name value :: outer := by
  induction chain generalizing chain' with
  | nil => cases h
  | cons scope outer ih =>
      rw [Chain.assign?] at h
      split at h
      · rename_i hhas
        cases h
        exact ⟨[], scope, outer, rfl, hhas, rfl⟩
      · obtain ⟨outer', houter, rfl⟩ := Option.map_eq_some_iff.mp h
        obtain ⟨inner, found, rest, rfl, hhas, rfl⟩ := ih houter
        exact ⟨scope :: inner, found, rest, rfl, hhas, rfl⟩

/-- An assignment fails and changes nothing, or it writes to a scope. -/
theorem assign_cases (name : String) (value : Value) (state : State) :
    assign name value state = faulty (.assignUndeclared name) state ∨
      (assign name value state).1 = .ok () ∧ SameScopes state (assign name value state).2 ∧
        ∃ place, Writes state (assign name value state).2 place name value := by
  rw [assign_apply]
  cases hassign : Chain.assign? name value state.locals with
  | some locals =>
      obtain ⟨inner, scope, outer, hlocals, hhas, rfl⟩ := assign?_eq_some hassign
      refine .inr ⟨rfl, ⟨rfl, by simp [hlocals]⟩, _, { state with locals := outer }.environments,
        scope, inner.reverse, ?_, rfl, hhas, ?_⟩ <;> simp [environments, hlocals]
  | none =>
      dsimp only
      by_cases hhas : state.globals.has name = true
      · rw [if_pos hhas]
        exact .inr ⟨rfl, ⟨rfl, rfl⟩, _, [], state.globals, _, rfl, rfl, hhas, rfl⟩
      · rw [if_neg hhas]
        exact .inl rfl

end Run

end Bol
