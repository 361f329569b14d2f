/-
# Scopes

A scope binds names to values. Scopes are nested in each other, and a chain of them lists the
innermost first: looking a name up and assigning to it both find the first scope of the chain
that holds the name, while a declaration concerns the innermost scope alone.
-/

import Bol.Value

namespace Bol

/-- Names and their values, the last declared first. -/
structure Scope where
  bindings : List (String × Value)
  deriving Inhabited

namespace Scope

def empty : Scope := ⟨[]⟩

/-- The names that a scope holds. -/
def names (scope : Scope) : List String := scope.bindings.map Prod.fst

def get? (scope : Scope) (name : String) : Option Value := scope.bindings.lookup name

def has (scope : Scope) (name : String) : Bool := (scope.get? name).isSome

/-- Binds a name that the scope does not hold. -/
def add (scope : Scope) (name : String) (value : Value) : Scope :=
  ⟨(name, value) :: scope.bindings⟩

/-- Binds a name to another value, if the scope holds the name. -/
def set (scope : Scope) (name : String) (value : Value) : Scope :=
  ⟨scope.bindings.map fun binding => if binding.1 = name then (name, value) else binding⟩

/-- Binds a name that is new to the scope. -/
def declare? (scope : Scope) (name : String) (value : Value) : Option Scope :=
  if scope.has name then none else some (scope.add name value)

/-! ## What a scope holds after each operation -/

theorem lookup_cons_ite (name bound : String) (value : Value) (rest : List (String × Value)) :
    ((bound, value) :: rest).lookup name =
      if name = bound then some value else rest.lookup name := by
  rw [List.lookup_cons]
  by_cases found : name = bound
  · simp [found]
  · simp [found, beq_eq_false_iff_ne.2 found]

@[simp]
theorem get?_empty (name : String) : empty.get? name = none := rfl

theorem get?_add (scope : Scope) (name other : String) (value : Value) :
    (scope.add name value).get? other = if other = name then some value else scope.get? other := by
  simp only [get?, add, lookup_cons_ite]

/-- A scope that lacks a name is not changed by setting it. -/
theorem get?_set (scope : Scope) (name other : String) (value : Value) :
    (scope.set name value).get? other =
      if other = name then (scope.get? name).map fun _ => value else scope.get? other := by
  obtain ⟨bindings⟩ := scope
  simp only [get?, set]
  induction bindings with
  | nil => simp
  | cons binding rest ih =>
    obtain ⟨bound, old⟩ := binding
    by_cases here : bound = name <;> by_cases same : other = name <;>
      by_cases found : other = bound <;> simp_all [lookup_cons_ite]

theorem has_eq_true_iff (scope : Scope) (name : String) :
    scope.has name = true ↔ name ∈ scope.names := by
  obtain ⟨bindings⟩ := scope
  simp only [has, get?, names]
  induction bindings with
  | nil => simp
  | cons binding rest ih =>
    obtain ⟨bound, old⟩ := binding
    by_cases found : name = bound <;> simp_all [lookup_cons_ite]

@[simp]
theorem names_empty : empty.names = [] := rfl

@[simp]
theorem names_add (scope : Scope) (name : String) (value : Value) :
    (scope.add name value).names = name :: scope.names := rfl

@[simp]
theorem names_set (scope : Scope) (name : String) (value : Value) :
    (scope.set name value).names = scope.names := by
  obtain ⟨bindings⟩ := scope
  simp only [names, set, List.map_map]
  refine List.map_congr_left fun binding _ => ?_
  simp only [Function.comp_apply]
  split <;> simp_all

end Scope

namespace Chain

/-- The value of a name in the first scope that holds it. -/
def get? (chain : List Scope) (name : String) : Option Value := chain.findSome? (·.get? name)

/-- Binds a name to another value in the first scope that holds it. -/
def assign? (name : String) (value : Value) : List Scope → Option (List Scope)
  | [] => none
  | scope :: outer =>
    if scope.has name then some (scope.set name value :: outer)
    else (assign? name value outer).map (scope :: ·)

end Chain

end Bol
