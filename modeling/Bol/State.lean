/-
# The state of a run

A run has one global scope and, for the function call that is running, a chain of scopes of its
own: one for the parameters and one for each block that is open. The chains of the calls that
wait for it are put aside, so that nothing a function does can see or change its callers'
variables. A run also has printed some lines and declared some number of functions.

`Run` is the type of computations on such a state. One that stops early still leaves the state
as far as it got.
-/

import Bol.Fault
import Bol.Scope

namespace Bol

structure State where
  globals : Scope
  /-- The scopes of the running call, innermost first; none at the top level. -/
  locals : List Scope
  /-- The scopes of the calls that wait for the running one, the nearest caller first. -/
  callers : List (List Scope)
  /-- The lines printed so far. -/
  output : Array String
  /-- How many functions have been declared so far. -/
  functions : Nat

/-- The state that a run starts in. -/
def State.initial : State := ⟨.empty, [], [], #[], 0⟩

instance : Inhabited State := ⟨.initial⟩

/-- The scopes that are in sight, innermost first. -/
def State.chain (state : State) : List Scope := state.locals ++ [state.globals]

/-- Computations on the state of a run. -/
abbrev Run := ExceptT Stop (StateM State)

namespace Run

def fail {α : Type} (fault : Fault) : Run α := throw (.fault ⟨fault, none⟩)

/-- The value of a name in sight. -/
def lookup (name : String) : Run Value := do
  match Chain.get? (← get).chain name with
  | some value => return value
  | none => fail (.undeclared name)

/-- Declares a name in the innermost scope. -/
def declare (name : String) (value : Value) : Run Unit := do
  let state ← get
  match state.locals with
  | [] =>
    match state.globals.declare? name value with
    | some globals => set { state with globals }
    | none => fail (.alreadyDeclared name)
  | scope :: outer =>
    match scope.declare? name value with
    | some scope => set { state with locals := scope :: outer }
    | none => fail (.alreadyDeclared name)

/-- Assigns to a name in sight. -/
def assign (name : String) (value : Value) : Run Unit := do
  let state ← get
  match Chain.assign? name value state.locals with
  | some locals => set { state with locals }
  | none =>
    if state.globals.has name then
      set { state with globals := state.globals.set name value }
    else fail (.assignUndeclared name)

/-- Prints a line. -/
def print (line : String) : Run Unit :=
  modify fun state => { state with output := state.output.push line }

/-- Makes a function, unequal to all functions made before. -/
def newFunction (name : String) (params : List String) (body : List Stmt) : Run Function := do
  let state ← get
  set { state with functions := state.functions + 1 }
  return ⟨state.functions, name, params, body⟩

/-- Runs a computation with one more scope in sight, which is gone afterwards however the
computation ends. -/
def inBlock {α : Type} (act : Run α) : Run α := fun state =>
  let (result, after) := act { state with locals := .empty :: state.locals }
  (result, { after with locals := after.locals.tail })

/-- Runs a computation as the body of a call: it starts with one empty scope over the globals,
and its caller's scopes come back however it ends. -/
def inCall {α : Type} (act : Run α) : Run α := fun state =>
  let (result, after) :=
    act { state with locals := [.empty], callers := state.locals :: state.callers }
  (result, { after with locals := after.callers.headD [], callers := after.callers.tail })

/-- Runs a computation on behalf of a statement: a fault without a line gets the statement's. -/
def onLine {α : Type} (line : Option Int) (act : Run α) : Run α := fun state =>
  match act state with
  | (.error (.fault ⟨fault, none⟩), after) => (.error (.fault ⟨fault, line⟩), after)
  | outcome => outcome

end Run

end Bol
