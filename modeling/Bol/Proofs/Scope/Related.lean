/-
# Related scopes

Two scopes are related if they bind related names to related values, in the same order. If two names
are told apart from all others in the same way on both sides, then looking up the one here and the
other there finds related values, and the same goes for declaring them and assigning to them, in
scopes and in chains of scopes.
-/

import Mathlib.Data.List.Forall2
import Bol.Scope

namespace Bol

theorem forall₂_tail {α β : Type} {rel : α → β → Prop} {as : List α} {bs : List β}
    (h : List.Forall₂ rel as bs) : List.Forall₂ rel as.tail bs.tail := by
  rw [← List.drop_one, ← List.drop_one]
  exact List.forall₂_drop 1 h

theorem isSome_eq_of_rel {α β : Type} {rel : α → β → Prop} {found : Option α} {found' : Option β}
    (h : Option.Rel rel found found') : found.isSome = found'.isSome := by
  cases h <;> rfl

variable {N : String → String → Prop} {V : Value → Value → Prop} {name name' : String}
  {value value' : Value}

/-! ## Bindings -/

/-- Related names, bound to related values, in the same order. -/
def Scope.Related (N : String → String → Prop) (V : Value → Value → Prop) (scope scope' : Scope) :
    Prop :=
  List.Forall₂ (fun binding binding' => N binding.1 binding'.1 ∧ V binding.2 binding'.2)
    scope.bindings scope'.bindings

namespace Scope.Related

variable {scope scope' : Scope}

/-- A name is found where the other one is if the two are told apart alike from all that is bound.
-/
theorem get? (h : scope.Related N V scope')
    (hname : ∀ bound bound', N bound bound' → (name = bound ↔ name' = bound')) :
    Option.Rel V (scope.get? name) (scope'.get? name') := by
  obtain ⟨bindings⟩ := scope
  obtain ⟨bindings'⟩ := scope'
  simp only [Related, Scope.get?] at h ⊢
  induction h with
  | nil => exact .none
  | @cons binding binding' rest rest' hbinding _ ih =>
      obtain ⟨bound, value⟩ := binding
      obtain ⟨bound', value'⟩ := binding'
      rw [lookup_cons_ite, lookup_cons_ite]
      by_cases hfound : name = bound
      · rw [if_pos hfound, if_pos ((hname _ _ hbinding.1).mp hfound)]
        exact .some hbinding.2
      · rw [if_neg hfound, if_neg (mt (hname _ _ hbinding.1).mpr hfound)]
        exact ih

theorem add (h : scope.Related N V scope') (hname : N name name') (hvalue : V value value') :
    (scope.add name value).Related N V (scope'.add name' value') :=
  List.Forall₂.cons ⟨hname, hvalue⟩ h

theorem set (h : scope.Related N V scope') (hself : N name name')
    (hname : ∀ bound bound', N bound bound' → (name = bound ↔ name' = bound'))
    (hvalue : V value value') : (scope.set name value).Related N V (scope'.set name' value') := by
  unfold Related Scope.set
  rw [List.forall₂_map_left_iff, List.forall₂_map_right_iff]
  refine h.imp fun binding binding' hbinding => ?_
  by_cases hfound : name = binding.1
  · rw [if_pos hfound.symm, if_pos ((hname _ _ hbinding.1).mp hfound).symm]
    exact ⟨hself, hvalue⟩
  · rw [if_neg (Ne.symm hfound), if_neg (mt (hname _ _ hbinding.1).mpr hfound ∘ Eq.symm)]
    exact hbinding

theorem get?_same (h : scope.Related Eq V scope') (name : String) :
    Option.Rel V (scope.get? name) (scope'.get? name) :=
  h.get? fun _ _ hbound => hbound ▸ Iff.rfl

theorem set_same (h : scope.Related Eq V scope') (name : String) (hvalue : V value value') :
    (scope.set name value).Related Eq V (scope'.set name value') :=
  h.set rfl (fun _ _ hbound => hbound ▸ Iff.rfl) hvalue

end Scope.Related

/-! ## Scopes and chains of scopes -/

section

variable {rel : Scope → Scope → Prop}
  (hget : ∀ {scope scope'}, rel scope scope' → Option.Rel V (scope.get? name) (scope'.get? name'))
include hget

theorem Scope.has_eq_of_rel {scope scope' : Scope} (h : rel scope scope') :
    scope.has name = scope'.has name' :=
  isSome_eq_of_rel (hget h)

theorem Scope.declare?_rel {scope scope' : Scope} (h : rel scope scope')
    (hadd : rel scope scope' → rel (scope.add name value) (scope'.add name' value')) :
    Option.Rel rel (scope.declare? name value) (scope'.declare? name' value') := by
  unfold Scope.declare?
  rw [has_eq_of_rel hget h]
  split
  · exact .none
  · exact .some (hadd h)

variable {chain chain' : List Scope} (h : List.Forall₂ rel chain chain')
include h

theorem Chain.get?_rel : Option.Rel V (Chain.get? chain name) (Chain.get? chain' name') := by
  unfold Chain.get?
  induction h with
  | nil => exact .none
  | @cons scope scope' _ _ hscope _ ih =>
      have hfound := hget hscope
      rw [List.findSome?_cons, List.findSome?_cons]
      generalize scope.get? name = found at hfound ⊢
      generalize scope'.get? name' = found' at hfound ⊢
      cases hfound with
      | none => exact ih
      | some hvalue => exact .some hvalue

theorem Chain.assign?_rel
    (hset : ∀ {scope scope'}, rel scope scope' →
      rel (scope.set name value) (scope'.set name' value')) :
    Option.Rel (List.Forall₂ rel) (Chain.assign? name value chain)
      (Chain.assign? name' value' chain') := by
  induction h with
  | nil => exact .none
  | @cons _ _ outer outer' hscope hrest ih =>
      rw [Chain.assign?, Chain.assign?, Scope.has_eq_of_rel hget hscope]
      split
      · exact .some (.cons (hset hscope) hrest)
      · generalize Chain.assign? name value outer = found at ih ⊢
        generalize Chain.assign? name' value' outer' = found' at ih ⊢
        cases ih with
        | none => exact .none
        | some houter => exact .some (.cons hscope houter)

end

/-- Assigning fails where looking up does. -/
theorem Chain.assign?_eq_none_iff (value : Value) {chain : List Scope} :
    Chain.assign? name value chain = none ↔ Chain.get? chain name = none := by
  unfold Chain.get?
  induction chain with
  | nil => simp [Chain.assign?]
  | cons scope outer ih =>
      rw [Chain.assign?, List.findSome?_cons, Scope.has]
      cases scope.get? name <;> simp [ih]

end Bol
