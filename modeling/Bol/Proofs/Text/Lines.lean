/-
# The line around a place

A place in a text is where it is cut in two. The line around it ends with the first line end after
it and starts after the last line end before it, and its number is that of the line ends before it.
-/

import Mathlib.Data.List.DropRight
import Bol.Text.Lines

namespace Bol.Text

/-- The line around the place between `before` and `after`. -/
def lineAround (before after : List Char) : List Char :=
  before.rtakeWhile (· ≠ '\n') ++ after.takeWhile (· ≠ '\n')

theorem lines_cons_lineEnd (text : List Char) : lines ('\n' :: text) = [] :: lines text := rfl

theorem lines_cons {c : Char} (hc : c ≠ '\n') {text first : List Char} {rest : List (List Char)}
    (h : lines text = first :: rest) : lines (c :: text) = (c :: first) :: rest := by
  unfold lines pieces at h ⊢
  rw [List.foldr_cons, if_neg hc, h]

/-- A text starts with its first line. -/
theorem lines_eq_cons (text : List Char) :
    ∃ rest, lines text = text.takeWhile (· ≠ '\n') :: rest := by
  induction text with
  | nil => exact ⟨[], rfl⟩
  | cons c text ih =>
      obtain ⟨rest, hrest⟩ := ih
      by_cases hc : c = '\n'
      · subst hc
        exact ⟨lines text, lines_cons_lineEnd text⟩
      · refine ⟨rest, (lines_cons hc hrest).trans ?_⟩
        rw [List.takeWhile_cons_of_pos (by simpa using hc)]

/-- A line end parts the lines of what stands before and after it. -/
theorem lines_append_lineEnd (before after : List Char) :
    lines (before ++ '\n' :: after) = lines before ++ lines after := by
  induction before with
  | nil => exact lines_cons_lineEnd after
  | cons c before ih =>
      by_cases hc : c = '\n'
      · subst hc
        exact congrArg ([] :: ·) ih
      · obtain ⟨rest, hrest⟩ := lines_eq_cons before
        have hall : lines (before ++ '\n' :: after) = before.takeWhile (· ≠ '\n') ::
            (rest ++ lines after) := by rw [ih, hrest, List.cons_append]
        rw [List.cons_append, lines_cons hc hall, lines_cons hc hrest, List.cons_append]

theorem length_lines (text : List Char) : (lines text).length = text.count '\n' + 1 := by
  induction text with
  | nil => rfl
  | cons c text ih =>
      by_cases hc : c = '\n'
      · subst hc
        rw [lines_cons_lineEnd, List.length_cons, ih, List.count_cons_self]
      · obtain ⟨rest, hrest⟩ := lines_eq_cons text
        rw [hrest] at ih
        rw [lines_cons hc hrest, List.count_cons_of_ne hc]
        exact ih

/-- As many line ends as stand before a place, as many lines stand before the one around it. -/
theorem lines_getElem?_count (before after : List Char) :
    (lines (before ++ after))[before.count '\n']? = some (lineAround before after) := by
  -- A character is moved over the place from the right: only a line end changes the count.
  induction before using List.reverseRecOn generalizing after with
  | nil =>
      obtain ⟨rest, hrest⟩ := lines_eq_cons after
      rw [List.nil_append, hrest]
      rfl
  | append_singleton before c ih =>
      rw [List.append_assoc, List.singleton_append, List.count_append]
      by_cases hc : c = '\n'
      · subst hc
        obtain ⟨rest, hrest⟩ := lines_eq_cons after
        rw [lines_append_lineEnd, List.count_singleton_self, ← length_lines,
          List.getElem?_append_right (Nat.le_refl _), Nat.sub_self, hrest, lineAround,
          List.rtakeWhile_concat_neg _ _ _ (by simp)]
        rfl
      · have hnone : [c].count '\n' = 0 := List.count_eq_zero.mpr (by simpa using Ne.symm hc)
        rw [hnone, Nat.add_zero, ih, lineAround, lineAround,
          List.takeWhile_cons_of_pos (by simpa using hc),
          List.rtakeWhile_concat_pos _ _ _ (by simpa using hc), List.append_assoc]
        rfl

end Bol.Text
