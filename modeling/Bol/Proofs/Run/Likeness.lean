/-
# Runs that are alike

Two runs are alike if they do the same with functions whose bodies correspond, statement by
statement, in a relation: they print the same lines, bind the same names to values that are equal
but for such bodies, and end alike, with the same report if one of them fails, whatever line it
names. What it takes for two statements to run alike is left to the relation.
-/

import Bol.Proofs.Run.Correspondence

namespace Bol

variable (R : Stmt → Stmt → Prop)

/-- Equal values, or functions that differ in corresponding bodies. -/
inductive Value.Alike : Value → Value → Prop
  | plain {value : Value} (h : value.type ≠ .function) : Value.Alike value value
  | function {id : Nat} {name : String} {params : List String} {body body' : List Stmt}
      (hbody : List.Forall₂ R body body') :
      Value.Alike (.function ⟨id, name, params, body⟩) (.function ⟨id, name, params, body'⟩)

/-- The same names in the same order, with values that are alike. -/
def Scope.Alike (scope scope' : Scope) : Prop :=
  List.Forall₂ (fun binding binding' => binding.1 = binding'.1 ∧ binding.2.Alike R binding'.2)
    scope.bindings scope'.bindings

/-- Scopes that are alike, and the same lines printed. -/
structure State.Alike (state state' : State) : Prop where
  globals : state.globals.Alike R state'.globals
  locals : List.Forall₂ (Scope.Alike R) state.locals state'.locals
  callers : List.Forall₂ (List.Forall₂ (Scope.Alike R)) state.callers state'.callers
  output : state.output = state'.output
  functions : state.functions = state'.functions

/-- The same reason to end early, but for the line of a fault. -/
inductive Stop.Alike : Stop → Stop → Prop
  | fault {fault fault' : Fault} {line line' : Option Int} (h : fault.Alike fault') :
      Stop.Alike (.fault ⟨fault, line⟩) (.fault ⟨fault', line'⟩)
  | tooDeep : Stop.Alike .tooDeep .tooDeep
  | unfinished : Stop.Alike .unfinished .unfinished

/-- Results that are related, or the same reason to have none. -/
inductive Run.ResultAlike {α β : Type} (rel : α → β → Prop) :
    Except Stop α → Except Stop β → Prop
  | ok {value : α} {value' : β} (h : rel value value') : ResultAlike rel (.ok value) (.ok value')
  | error {stop stop' : Stop} (h : stop.Alike stop') : ResultAlike rel (.error stop) (.error stop')

/-- From states that are alike, two computations come to related results and to states that are
alike. -/
def Run.Alike {α β : Type} (rel : α → β → Prop) (act : Run α) (act' : Run β) : Prop :=
  ∀ state state', state.Alike R state' →
    ResultAlike rel (act state).1 (act' state').1 ∧ (act state).2.Alike R (act' state').2

variable {R}

/-! ## Values and scopes -/

namespace Value.Alike

variable {value value' other other' : Value}

theorem refl (hR : ∀ stmt, R stmt stmt) (value : Value) : value.Alike R value := by
  cases value with
  | function function => exact .function (List.forall₂_same.mpr fun stmt _ => hR stmt)
  | null | boolean _ | number _ | string _ => exact .plain (by simp [Value.type])

theorem eq_of_type_ne (h : value.Alike R value') (htype : value.type ≠ .function) :
    value' = value := by
  cases h with
  | plain => rfl
  | function => exact absurd rfl htype

theorem function_of {function : Function} (h : Value.Alike R (.function function) value') :
    ∃ function', value' = .function function' ∧ function.Matches R function' := by
  cases h with
  | plain htype => exact absurd rfl htype
  | function hbody => exact ⟨_, rfl, rfl, rfl, hbody⟩

theorem equal_eq (h : value.Alike R value') (hother : other.Alike R other') :
    value.equal other = value'.equal other' := by
  cases h <;> cases hother <;> first | rfl | (cases value <;> rfl) | (cases other <;> rfl)

end Value.Alike

namespace Scope.Alike

variable {scope scope' : Scope}

theorem refl (hR : ∀ stmt, R stmt stmt) (scope : Scope) : scope.Alike R scope :=
  List.forall₂_same.mpr fun binding _ => ⟨rfl, .refl hR binding.2⟩

theorem get? (h : scope.Alike R scope') (name : String) :
    Option.Rel (Value.Alike R) (scope.get? name) (scope'.get? name) :=
  Related.get?_same h name

theorem add (h : scope.Alike R scope') (name : String) {value value' : Value}
    (hvalue : value.Alike R value') : (scope.add name value).Alike R (scope'.add name value') :=
  Related.add h rfl hvalue

theorem set (h : scope.Alike R scope') (name : String) {value value' : Value}
    (hvalue : value.Alike R value') : (scope.set name value).Alike R (scope'.set name value') :=
  Related.set_same h name hvalue

end Scope.Alike

theorem State.Alike.refl (hR : ∀ stmt, R stmt stmt) (state : State) : state.Alike R state where
  globals := .refl hR state.globals
  locals := List.forall₂_same.mpr fun scope _ => .refl hR scope
  callers := List.forall₂_same.mpr fun _ _ => List.forall₂_same.mpr fun scope _ => .refl hR scope
  output := rfl
  functions := rfl

/-! ## Likeness as a correspondence -/

section

variable {E : Expr → Expr → Prop} {lax sameLines : Prop} {lag : Nat}

variable (lax sameLines lag) in
/-- The bodies of functions may differ as the relations tell, and lines may unless they have to be
the same. -/
def Correspondence.ofBodies (hE : Expr.RunAlike E lax lag)
    (hR : ∀ stmt stmt', R stmt stmt' → stmt.Matches E R stmt')
    (hline : ∀ stmt stmt', R stmt stmt' → sameLines → stmt.line = stmt'.line) :
    Correspondence where
  expr := E
  stmt := R
  line line line' := sameLines → line = line'
  value _ := Value.Alike R
  scope _ := Scope.Alike R
  start := 0
  lax := lax
  lag := lag
  runAlike := hE
  matches_of_stmt := hR _ _
  line_of_stmt := hline _ _
  line_none _ := rfl
  line_or hown hgiven hsame := by rw [hown hsame, hgiven hsame]
  value_mono _ h := h
  value_of_type_ne := .plain
  value_of_made _ := .function
  eq_of_type_ne := Value.Alike.eq_of_type_ne
  function_of_value := Value.Alike.function_of
  equal_eq := Value.Alike.equal_eq
  scope_mono _ h := h
  scope_empty := .nil
  get? := Scope.Alike.get?
  add h name hvalue := h.add name hvalue
  set h name hvalue := h.set name hvalue

theorem Correspondence.ofBodies_states {hE : Expr.RunAlike E lax lag}
    {hR : ∀ stmt stmt', R stmt stmt' → stmt.Matches E R stmt'}
    {hline : ∀ stmt stmt', R stmt stmt' → sameLines → stmt.line = stmt'.line}
    {state state' : State} :
    (ofBodies lax sameLines lag hE hR hline).States state state' ↔ state.Alike R state' :=
  ⟨fun ⟨_, globals, locals, callers, output, functions⟩ =>
      ⟨globals, locals, callers, output, functions⟩,
    fun ⟨globals, locals, callers, output, functions⟩ =>
      ⟨Nat.zero_le _, globals, locals, callers, output, functions⟩⟩

end

/-- Nothing but the bodies of functions and lines may differ. -/
def Correspondence.likeness (hR : ∀ stmt stmt', R stmt stmt' → stmt.Matches Eq R stmt') :
    Correspondence :=
  .ofBodies False False 0 .eq hR fun _ _ _ => False.elim

theorem Correspondence.Results.alike {C : Correspondence} {α β : Type} {rel : α → β → Prop}
    {result : Except Stop α} {result' : Except Stop β} (h : C.Results rel result result') :
    Run.ResultAlike rel result result' := by
  cases h with
  | ok h => exact .ok h
  | error h =>
      cases h with
      | fault h => exact .error (.fault h)
      | tooDeep => exact .error .tooDeep
      | unfinished => exact .error .unfinished

/-- Where corresponding statements match, programs of corresponding statements run alike. -/
theorem Run.Alike.program (hR : ∀ stmt stmt', R stmt stmt' → stmt.Matches Eq R stmt')
    (patience depth : Nat) {program program' : Program}
    (h : List.Forall₂ R program.statements program'.statements) :
    Run.Alike R (fun _ _ => True) (program.run patience depth) (program'.run patience depth) := by
  intro state state' hstates
  have hruns : (Correspondence.likeness hR).Runs 0 (fun _ _ _ => True) (program.run patience depth)
    (program'.run patience (0 + depth)) := .program patience depth h
  rw [Nat.zero_add] at hruns
  obtain ⟨-, hresult, hafter⟩ := hruns state state' (Nat.zero_le _)
    (Correspondence.ofBodies_states.mpr hstates) False.elim
  exact ⟨hresult.alike, Correspondence.ofBodies_states.mp hafter⟩

end Bol
