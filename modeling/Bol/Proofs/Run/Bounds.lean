/-
# Bounds on runs

The bounds `depth` and `patience` only ever cut a run short. A run that is not cut short under
some bounds has the same outcome under all higher ones, so two runs of the same expression or
statement from the same state that are not cut short agree, whatever their bounds are.
-/

import Bol.Proofs.Run.Congruence
import Bol.Proofs.Run.Operations

namespace Bol

/-- Stops that come of a bound and not of a fault. -/
def Stop.IsBound : Stop → Prop
  | .tooDeep | .unfinished => True
  | .fault _ => False

instance (stop : Stop) : Decidable stop.IsBound :=
  match stop with
  | .tooDeep | .unfinished => isTrue trivial
  | .fault _ => isFalse id

namespace Run

/-- The result of a run that a bound cut short. -/
def IsCut {α : Type} : Except Stop α → Prop
  | .error stop => stop.IsBound
  | .ok _ => False

instance {α : Type} (result : Except Stop α) : Decidable (IsCut result) :=
  match result with
  | .error stop => inferInstanceAs (Decidable stop.IsBound)
  | .ok _ => isFalse id

theorem isCut_iff {α : Type} {result : Except Stop α} :
    IsCut result ↔ ∃ stop : Stop, stop.IsBound ∧ result = .error stop := by
  cases result with
  | error stop => exact ⟨fun h => ⟨stop, h, rfl⟩, by rintro ⟨_, h, ⟨⟩⟩; exact h⟩
  | ok value => exact ⟨False.elim, by rintro ⟨_, -, ⟨⟩⟩⟩

/-- The line of a statement does not tell whether a bound cut it short. -/
theorem isCut_tagged {α : Type} (line : Option Int) {result : Except Stop α} :
    IsCut (tagged line result) ↔ IsCut result := by
  rcases result with ⟨⟨_, _ | _⟩ | _ | _⟩ | _ <;> exact Iff.rfl

theorem IsCut.bind {α β : Type} {act : Run α} {next : α → Run β} {state : State}
    (h : IsCut (act state).1) : IsCut ((act >>= next) state).1 := by
  obtain ⟨stop, hstop, herror⟩ := isCut_iff.mp h
  exact isCut_iff.mpr ⟨stop, hstop, bind_eq_error_iff.mpr (.inl herror)⟩

/-- `longer` has the outcome of `act` wherever no bound cuts `act` short. -/
def IsExtendedBy {α : Type} (act longer : Run α) : Prop :=
  ∀ state, ¬ IsCut (act state).1 → longer state = act state

theorem isExtendedBy_refl {α : Type} (act : Run α) : IsExtendedBy act act := fun _ _ => rfl

theorem IsExtendedBy.trans {α : Type} {act longer longest : Run α} (h : IsExtendedBy act longer)
    (h' : IsExtendedBy longer longest) : IsExtendedBy act longest := by
  intro state hcut
  have hsame := h state hcut
  rw [← hsame] at hcut ⊢
  exact h' state hcut

/-- A run that is always cut short is extended by every run. -/
theorem isExtendedBy_of_isCut {α : Type} {act : Run α} (h : ∀ state, IsCut (act state).1)
    (longer : Run α) : IsExtendedBy act longer :=
  fun state hcut => absurd (h state) hcut

/-- Two runs that are extended by one and the same agree, unless a bound cuts one of them short. -/
theorem IsExtendedBy.agree {α : Type} {act act' longer : Run α} (h : IsExtendedBy act longer)
    (h' : IsExtendedBy act' longer) {state : State} (hcut : ¬ IsCut (act state).1)
    (hcut' : ¬ IsCut (act' state).1) : act state = act' state :=
  (h state hcut).symm.trans (h' state hcut')

theorem isExtendedBy_congruence : Congruence @IsExtendedBy where
  pure _ := isExtendedBy_refl _
  throw _ := isExtendedBy_refl _
  bind {α β act act' next next'} hact hnext := by
    intro state hcut
    have hsame := hact state (mt IsCut.bind hcut)
    rcases hfirst : act state with ⟨stop | value, after⟩ <;> rw [hfirst] at hsame
    · rw [bind_apply_of_error hsame, bind_apply_of_error hfirst]
    · rw [bind_apply_of_ok hfirst] at hcut ⊢
      rw [bind_apply_of_ok hsame]
      exact hnext value after hcut
  lookup _ := isExtendedBy_refl _
  declare _ _ := isExtendedBy_refl _
  assign _ _ := isExtendedBy_refl _
  print _ := isExtendedBy_refl _
  newFunction _ _ _ := isExtendedBy_refl _
  inBlock hact state hcut := by
    rw [inBlock_apply] at hcut ⊢
    rw [inBlock_apply, hact _ hcut]
  inCall hact state hcut := by
    rw [inCall_apply] at hcut ⊢
    rw [inCall_apply, hact _ hcut]
  onLine line act act' hact := by
    intro state hcut
    rw [onLine_apply] at hcut ⊢
    rw [onLine_apply, hact state (mt (isCut_tagged line).mpr hcut)]

theorem covers_of_le (stop : Stop) (hstop : stop.IsBound) {bound bound' : Nat}
    (hle : bound ≤ bound') : Covers @IsExtendedBy stop bound bound' :=
  .inr ⟨hle, fun _ _ hnot => absurd hstop hnot⟩

section

variable {patience patience' depth depth' : Nat} (hpatience : patience ≤ patience')
  (hdepth : depth ≤ depth')
include hpatience hdepth

/-- Higher bounds extend runs. -/
theorem eval_isExtendedBy (expr : Expr) :
    IsExtendedBy (eval patience depth expr) (eval patience' depth' expr) :=
  (isExtendedBy_congruence.eval_and_exec (covers_of_le .unfinished trivial hpatience)
    (covers_of_le .tooDeep trivial hdepth)).1 expr

theorem exec_isExtendedBy (stmt : Stmt) :
    IsExtendedBy (exec patience depth stmt) (exec patience' depth' stmt) :=
  (isExtendedBy_congruence.eval_and_exec (covers_of_le .unfinished trivial hpatience)
    (covers_of_le .tooDeep trivial hdepth)).2 stmt

end

end Run

end Bol
