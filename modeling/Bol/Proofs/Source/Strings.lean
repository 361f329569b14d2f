/-
# What strings hold

A string is written between quotes, with escapes for its line ends. There is no other escape, so
some texts cannot be written: one with a quote, which would end the string, and one with a backslash
before an `n`, since both together would be a line end. Every other text can. A backslash is read
as itself unless an `n` follows it, so backslashes do no harm where a line end or the closing quote
comes next: the escape of a line end starts with a backslash of its own.
-/

import Bol.Proofs.Source.Render
import Bol.Proofs.Token.Seam

namespace Bol.Token

open Lexeme Piece Word

/-- The source that is a string and nothing else: its content between quotes, with a backslash and
an `n` for each line end. -/
def literal (content : String) : String :=
  String.ofList ('"' :: (encode content.toList ++ ['"']))

theorem cut_literal {content : String} (h : IsContent content.toList) :
    Cut (literal content).toList
      [⟨.token .string content, '"' :: (encode content.toList ++ ['"'])⟩] [] := by
  rw [literal, String.toList_ofList]
  simpa using Cut.piece (selects_string h []) .done

/-- A string that is written down is read again. It takes one line, whatever it holds. -/
theorem scan_literal {content : String} (h : IsContent content.toList) :
    scan (literal content) = .ok [⟨.string, content, 1⟩, ⟨.endOfInput, "", 1⟩] := by
  have hline : (encode content.toList).count '\n' = 0 :=
    List.count_eq_zero.mpr (isBody_encode h.1).2
  rw [scan_of_complete_cut (cut_literal h)]
  simp [Piece.tokens, tokensAfter, added, texts, lineAfter, hline]

/-- What strings hold. Some source has a string token of this value exactly if the value holds no
quote and no backslash before an `n`. The literal of every such value is read as this one token and
the end of the input. -/
theorem exists_string_iff_isContent (content : String) :
    ((∃ source found, scan source = .ok found ∧
        ∃ t ∈ found, t.kind = .string ∧ t.value = content) ↔ IsContent content.toList) ∧
    (IsContent content.toList →
      scan (literal content) = .ok [⟨.string, content, 1⟩, ⟨.endOfInput, "", 1⟩]) := by
  refine ⟨⟨?_, fun hcontent => ?_⟩, scan_literal⟩
  · rintro ⟨source, found, hscan, t, ht, hkind, rfl⟩
    exact (isLexed_of_scan hscan t ht).isContent hkind
  · exact ⟨_, _, scan_literal hcontent, _, List.mem_cons_self, rfl, rfl⟩

/-- Two backslashes before a line end, and one before the closing quote. -/
theorem exists_string_iff_isContent_backslashes :
    literal "\\\\\n\\" = "\"\\\\\\n\\\"" ∧ IsContent "\\\\\n\\".toList ∧
      (∃ source found, scan source = .ok found ∧
        ∃ t ∈ found, t.kind = .string ∧ t.value = "\\\\\n\\") ∧
      scan "\"\\\\\\n\\\"" = .ok [⟨.string, "\\\\\n\\", 1⟩, ⟨.endOfInput, "", 1⟩] := by
  have hcontent : IsContent "\\\\\n\\".toList := by
    unfold IsContent
    decide
  have hliteral : literal "\\\\\n\\" = "\"\\\\\\n\\\"" := by decide
  obtain ⟨hvalue, hwritten⟩ := exists_string_iff_isContent "\\\\\n\\"
  exact ⟨hliteral, hcontent, hvalue.mpr hcontent, hliteral ▸ hwritten hcontent⟩

end Bol.Token
