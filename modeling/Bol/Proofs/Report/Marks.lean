/-
# What a diagnosis marks

A diagnosis shows a line without the blanks at its end. An error brings the text to mark there, but
no column, and the text is marked where it occurs first. So a diagnosis is right about a column,
marking the text there or nothing at all, exactly if the text does not occur before.
-/

import Mathlib.Data.List.DropRight
import Bol.Proofs.Token.Braces
import Bol.Report

namespace Bol

namespace Text

/-! ## Blanks at the end -/

theorem trimEnd_append {rest : List Char} (h : trimEnd rest ≠ []) (text : List Char) :
    trimEnd (text ++ rest) = text ++ trimEnd rest := by
  unfold trimEnd at h ⊢
  rw [Ne, List.reverse_eq_nil_iff, ← List.isEmpty_iff] at h
  rw [List.reverse_append, List.dropWhile_append, if_neg h, List.reverse_append,
    List.reverse_reverse]

theorem trimEnd_eq_nil_of_trim {text : List Char} (h : trim text = []) : trimEnd text = [] :=
  List.rdropWhile_eq_nil_iff.mpr (trim_eq_nil h)

/-- What ends without a blank is kept, whatever comes after it. -/
theorem prefix_trimEnd {init : List Char} {last : Char} (h : isBlank last = false)
    (rest : List Char) : init ++ [last] <+: trimEnd (init ++ [last] ++ rest) := by
  by_cases hrest : trimEnd rest = []
  · have hblank := List.rdropWhile_eq_nil_iff.mp hrest
    rw [trimEnd, List.reverse_append,
      List.dropWhile_append_of_pos fun c hc => hblank c (List.mem_reverse.mp hc),
      List.reverse_append, List.reverse_singleton, List.singleton_append,
      List.dropWhile_cons_of_neg (by simp [h])]
    simp
  · rw [trimEnd_append hrest]
    exact List.prefix_append _ _

/-! ## Occurrences -/

/-- A text, which is not empty, stands in a line from a column on. Columns are counted from zero. -/
def OccursAt (text line : List Char) (column : Nat) : Prop := text ≠ [] ∧ text <+: line.drop column

variable {text line : List Char} {column : Nat}

instance : Decidable (OccursAt text line column) := inferInstanceAs (Decidable (_ ∧ _))

theorem occursAt_length (htext : text ≠ []) (before after : List Char) :
    OccursAt text (before ++ (text ++ after)) before.length := by
  refine ⟨htext, ?_⟩
  rw [List.drop_left]
  exact List.prefix_append text after

theorem not_occursAt_nil : ¬ OccursAt text [] column := by
  rintro ⟨htext, h⟩
  rw [List.drop_nil, List.prefix_nil] at h
  exact htext h

theorem occursAt_succ {c : Char} :
    OccursAt text (c :: line) (column + 1) ↔ OccursAt text line column := by
  rw [OccursAt, List.drop_succ_cons, OccursAt]

end Text

namespace Report

open Text

variable {text line : List Char} {mark : Option Nat} {report : String}

/-- A line with a text is split around the first occurrence. -/
theorem find?_cases (htext : text ≠ []) (start : Nat) (line : List Char) :
    (find? text start line = none ∧ ∀ column, ¬ OccursAt text line column) ∨
      ∃ before after, line = before ++ (text ++ after) ∧
        find? text start line = some (start + before.length) ∧
        ∀ column < before.length, ¬ OccursAt text line column := by
  induction line generalizing start with
  | nil => exact .inl ⟨if_neg (by simpa using htext), fun _ => not_occursAt_nil⟩
  | cons c line ih =>
      rw [find?]
      by_cases hhere : text <+: c :: line
      · obtain ⟨after, hafter⟩ := hhere
        refine .inr ⟨[], after, hafter.symm, ?_, fun _ hlt => absurd hlt (Nat.not_lt_zero _)⟩
        rw [if_pos (List.isPrefixOf_iff_prefix.mpr ⟨after, hafter⟩)]
        rfl
      · rw [if_neg (mt List.isPrefixOf_iff_prefix.mp hhere)]
        have hcolumn (column : Nat) (hrest : ∀ earlier, column = earlier + 1 →
            ¬ OccursAt text line earlier) : ¬ OccursAt text (c :: line) column := by
          cases column with
          | zero => exact fun h => hhere h.2
          | succ earlier => exact occursAt_succ.not.mpr (hrest earlier rfl)
        obtain ⟨hnone, hall⟩ | ⟨before, after, rfl, hfound, hfirst⟩ := ih (start + 1)
        · exact .inl ⟨hnone, fun column => hcolumn column fun earlier _ => hall earlier⟩
        · refine .inr ⟨c :: before, after, rfl, ?_, fun column hlt => hcolumn column ?_⟩
          · rw [hfound, List.length_cons, Nat.add_assoc, Nat.add_comm 1]
          · rintro earlier rfl
            exact hfirst earlier (Nat.lt_of_succ_lt_succ hlt)

/-- The characters to mark; none if there is no text. -/
def sought (text : Option String) : List Char := (text.getD "").toList

/-- Two lines for a text within a line: it is highlighted in the first, and underlined by the
second.
-/
def underlined (before text after : List Char) : String :=
  "  " ++ String.ofList before ++ boldRed (String.ofList text) ++ String.ofList after ++ "\n" ++
    "  " ++ String.ofList (List.replicate before.length ' ') ++
    boldRed (String.ofList ('^' :: List.replicate (text.length - 1) '~'))

/-- How a line with the given text to mark is reported, and the column that is marked. -/
inductive Marks (line text : List Char) : (mark : Option Nat) → (report : String) → Prop
  /-- A blank line is not shown. -/
  | hidden (hblank : trim line = []) : Marks line text none ""
  | unmarked (hfilled : trim line ≠ [])
      (hnone : ∀ column, ¬ OccursAt text (trimEnd line) column) :
      Marks line text none ("\n" ++ ("  " ++ String.ofList (trimEnd line)))
  /-- The text is marked where it occurs first. -/
  | marked {before after : List Char} (hfilled : trim line ≠ []) (htext : text ≠ [])
      (hline : trimEnd line = before ++ (text ++ after))
      (hfirst : ∀ column < before.length, ¬ OccursAt text (trimEnd line) column) :
      Marks line text (some before.length) ("\n" ++ underlined before text after)

theorem diagnose_of_none {text : Option String} (h : marked? (trimEnd line) text = none) :
    diagnose (String.ofList line) text = "  " ++ String.ofList (trimEnd line) := by
  simp [diagnose, h]

theorem diagnose_of_some {text : Option String} {before after : List Char}
    (h : marked? (trimEnd line) text = some before.length)
    (hline : trimEnd line = before ++ (sought text ++ after)) :
    diagnose (String.ofList line) text = underlined before (sought text) after := by
  have hwidth : (text.getD "").length = (sought text).length := String.length_toList.symm
  have hbefore : (trimEnd line).take before.length = before := by rw [hline, List.take_left]
  have htext : ((trimEnd line).drop before.length).take (sought text).length = sought text := by
    rw [hline, List.drop_left, List.take_left]
  have hafter : (trimEnd line).drop (before.length + (sought text).length) = after := by
    rw [hline, ← List.drop_drop, List.drop_left, List.drop_left]
  simp only [diagnose, String.toList_ofList, h, hwidth, hbefore, htext, hafter, underlined]

/-- A diagnosis marks the first occurrence of the text in the line as it is shown. -/
theorem marks_diagnose {line : List Char} (hfilled : trim line ≠ []) (text : Option String) :
    ∃ mark, Marks line (sought text) mark ("\n" ++ diagnose (String.ofList line) text) := by
  cases text with
  | none =>
      rw [diagnose_of_none rfl]
      exact ⟨none, .unmarked hfilled fun _ h => h.1 rfl⟩
  | some text =>
      by_cases hempty : text = ""
      · rw [hempty, diagnose_of_none rfl]
        exact ⟨none, .unmarked hfilled fun _ h => h.1 rfl⟩
      · have htext : sought (some text) ≠ [] := by simpa [sought] using hempty
        have hmarked : marked? (trimEnd line) (some text) =
            find? (sought (some text)) 0 (trimEnd line) := if_neg (by simpa using hempty)
        obtain ⟨hnone, hall⟩ | ⟨before, after, hline, hfound, hfirst⟩ :=
          find?_cases htext 0 (trimEnd line)
        · rw [diagnose_of_none (hmarked.trans hnone)]
          exact ⟨none, .unmarked hfilled hall⟩
        · rw [Nat.zero_add] at hfound
          rw [diagnose_of_some (hmarked.trans hfound) hline]
          exact ⟨_, .marked hfilled htext hline hfirst⟩

theorem Marks.isRight_iff (h : Marks line text mark report) (own : Nat) :
    (mark = none ∨ mark = some own) ↔ ∀ column, OccursAt text (trimEnd line) column →
      OccursAt text (trimEnd line) own ∧ own ≤ column := by
  cases h with
  | hidden hblank =>
      rw [trimEnd_eq_nil_of_trim hblank]
      exact iff_of_true (.inl rfl) fun _ h => absurd h not_occursAt_nil
  | unmarked _ hnone => exact iff_of_true (.inl rfl) fun column h => absurd h (hnone column)
  | @marked before after _ htext hline hfirst =>
      have hhere : OccursAt text (trimEnd line) before.length :=
        hline ▸ occursAt_length htext before after
      constructor
      · rintro (h | h)
        · cases h
        · cases h
          exact fun column hcolumn => ⟨hhere, Nat.le_of_not_lt fun hlt => hfirst column hlt hcolumn⟩
      · intro hall
        obtain ⟨hown, hle⟩ := hall _ hhere
        exact .inr (congrArg some (Nat.le_antisymm
          (Nat.le_of_not_lt fun hlt => hfirst own hlt hown) hle))

end Report

/-- The diagnosis of an error whose line is known marks its text there. -/
theorem Reporter.marks_diagnosis {reporter : Reporter} {error : Diagnostic} {line : List Char}
    (hline : reporter.sourceLine? error.line = some (String.ofList line))
    (hshows : error.showsLine = true) :
    ∃ mark, Report.Marks line (Report.sought error.text) mark (reporter.diagnosis error) := by
  unfold Reporter.diagnosis
  simp only [hline, hshows, String.toList_ofList, Bool.true_and]
  by_cases hblank : Text.trim line = []
  · rw [if_neg (by simp [hblank])]
    exact ⟨none, .hidden hblank⟩
  · rw [if_pos (by simp [hblank])]
    exact Report.marks_diagnose hblank error.text

end Bol
