/-
# Reports of runs that are alike

Two computations that are alike succeed both or fail both. The failures are of one kind and have the
same message and text; what may differ is the line.
-/

import Bol.Proofs.Run.Likeness
import Bol.Source

namespace Bol

/-- A failure with its kind, its message and its text, but no line. -/
def Failure.withoutLine : Failure → Failure
  | .error diagnostic => .error { diagnostic with line := none }
  | .foreign sort text => .foreign sort text
  | .tooDeep => .tooDeep
  | .unfinished => .unfinished

theorem Stop.Alike.withoutLine_eq {stop stop' : Stop} (h : stop.Alike stop') :
    (Failure.ofRun stop).withoutLine = (Failure.ofRun stop').withoutLine := by
  cases h with
  | tooDeep | unfinished => rfl
  | fault h =>
      simp only [Failure.ofRun, Failure.withoutLine, RuntimeError.diagnostic, h.message, h.text]

theorem State.perform_apply {α : Type} (state : State) (act : Run α) :
    state.perform act = ((act state).1.mapError Failure.ofRun, (act state).2) := by
  unfold State.perform
  rcases act state with ⟨_ | _, after⟩ <;> rfl

/-- Computations that are alike succeed both or fail both with the same error, its line aside. -/
theorem Run.Alike.perform {R : Stmt → Stmt → Prop} {act act' : Run Unit}
    (h : Run.Alike R (fun _ _ => True) act act') {state state' : State}
    (hstates : state.Alike R state') :
    (state.perform act).1.mapError Failure.withoutLine =
        (state'.perform act').1.mapError Failure.withoutLine ∧
      (state.perform act).2.Alike R (state'.perform act').2 := by
  obtain ⟨hresult, hafter⟩ := h state state' hstates
  rw [State.perform_apply, State.perform_apply]
  refine ⟨?_, hafter⟩
  generalize (act state).1 = result at hresult ⊢
  generalize (act' state').1 = result' at hresult ⊢
  cases hresult with
  | ok => rfl
  | error hstop => exact congrArg Except.error hstop.withoutLine_eq

/-- Corresponding results are reported alike, lines included, if lines only correspond to
themselves. -/
theorem Correspondence.Results.mapError_eq {C : Correspondence} {rel : Unit → Unit → Prop}
    {result result' : Except Stop Unit} (h : C.Results rel result result')
    (hline : ∀ line line', C.line line line' → line = line') :
    result.mapError Failure.ofRun = result'.mapError Failure.ofRun := by
  cases h with
  | ok => rfl
  | error hstop =>
      cases hstop with
      | tooDeep | unfinished => rfl
      | fault h hlines =>
          obtain rfl := hline _ _ hlines
          simp only [Except.mapError, Failure.ofRun, RuntimeError.diagnostic, h.message, h.text]

end Bol
