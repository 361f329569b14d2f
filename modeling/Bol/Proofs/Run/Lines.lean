/-
# Statements apart from their lines

A run does not look at the lines of statements: programs that differ in lines alone run alike. Lines
show in the lines of errors, and in the bodies of the functions that a run leaves behind.
-/

import Bol.Proofs.Program.Relocation
import Bol.Proofs.Run.Likeness

namespace Bol

/-- The same statement, if lines do not count. -/
def Stmt.SameButLines (stmt stmt' : Stmt) : Prop := stmt.withoutLines = stmt'.withoutLines

namespace Stmt.SameButLines

theorem refl (stmt : Stmt) : stmt.SameButLines stmt := rfl

theorem forall₂_iff {body body' : List Stmt} :
    List.Forall₂ SameButLines body body' ↔ listWithoutLines body = listWithoutLines body' := by
  induction body generalizing body' with
  | nil => cases body' <;> simp [listWithoutLines]
  | cons stmt rest ih =>
      cases body' with
      | nil => simp [listWithoutLines]
      | cons stmt' rest' =>
          simp only [List.forall₂_cons, ih, listWithoutLines, List.cons.injEq]
          rfl

theorem matches_alternative :
    (alternative alternative' : Alternative) →
      alternative.withoutLines = alternative'.withoutLines →
        alternative.Matches Eq SameButLines alternative'
  | .nothing, alternative', h => by
      cases alternative' with
      | nothing => exact .nothing
      | _ => cases h
  | .otherwise body, alternative', h => by
      cases alternative' with
      | otherwise =>
          injection h with hbody
          exact .otherwise (forall₂_iff.mpr hbody)
      | _ => cases h
  | .elseIf test body next, alternative', h => by
      cases alternative' with
      | elseIf =>
          injection h with htest hbody hnext
          exact .elseIf htest (forall₂_iff.mpr hbody) (matches_alternative next _ hnext)
      | _ => cases h

/-- Statements that differ in lines alone correspond part by part. -/
theorem matches_of {stmt stmt' : Stmt} (h : stmt.SameButLines stmt') :
    stmt.Matches Eq SameButLines stmt' := by
  cases stmt with
  | declare => cases stmt' <;> cases h; exact .declare rfl
  | assign => cases stmt' <;> cases h; exact .assign rfl
  | print => cases stmt' <;> cases h; exact .print rfl
  | breakLoop => cases stmt' <;> cases h; exact .breakLoop
  | continueLoop => cases stmt' <;> cases h; exact .continueLoop
  | returnValue => cases stmt' <;> cases h; exact .returnValue (optionRel_refl (fun _ => rfl) _)
  | misplaced => cases stmt' <;> cases h; exact .misplaced
  | ifThen =>
      cases stmt' with
      | ifThen =>
          injection h with htest hbody hotherwise
          exact .ifThen htest (forall₂_iff.mpr hbody) (matches_alternative _ _ hotherwise)
      | _ => cases h
  | whileDo =>
      cases stmt' with
      | whileDo =>
          injection h with htest hbody
          exact .whileDo htest (forall₂_iff.mpr hbody)
      | _ => cases h
  | function =>
      cases stmt' with
      | function =>
          injection h with hname hparams hbody
          subst hname hparams
          exact .function (forall₂_iff.mpr hbody)
      | _ => cases h

end Stmt.SameButLines

end Bol
