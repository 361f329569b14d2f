/-
# Reading line by line

A text and the text that follows it after a line end are read apart. The tokens of the join are
those of the first text, a line end if one is due, and those of the second text, counted on from the
lines of the first. If one of the texts cannot be read, neither can the join, and the place to blame
is the same one: a string that the first text ends in is then a string that its line ends in.
-/

import Bol.Proofs.Token.Seam

namespace Bol

/-- What a fault in a text becomes if a line end follows the text. -/
def LexFault.beforeLineEnd : LexFault → LexFault
  | .openString => .brokenString
  | fault => fault

namespace Lexeme

variable {more : List Char} {fault : LexFault}

theorem string_append_lineEnd {content source : List Char}
    (h : string content source = .error fault) :
    string content (source ++ '\n' :: more) = .error .brokenString := by
  fun_induction string content source with
  | case1 => simp [string]
  | case2 => cases h
  | case3 => simp [string]
  | case4 content source ih =>
      rw [List.cons_append, List.cons_append, string]
      exact ih h
  | case5 content c source hquote hline hescape ih =>
      rw [List.cons_append, string]
      · exact ih h
      · exact hquote
      · exact hline
      · intro rest hc hsource
        cases source with
        | nil => simp at hsource
        | cons d source => exact hescape source hc (by simp_all)

theorem symbol_append_lineEnd {c : Char} {source : List Char} (h : symbol c source = .error fault) :
    symbol c (source ++ '\n' :: more) = .error fault.beforeLineEnd := by
  have hpair : (source ++ '\n' :: more).head?.bind (TokenKind.ofPair? c) =
      source.head?.bind (TokenKind.ofPair? c) := by
    cases source with
    | cons d source => rfl
    | nil =>
        refine Option.eq_none_iff_forall_ne_some.mpr fun kind hkind => ?_
        exact (ofPair?_eq_some hkind).2.2.2 rfl
  unfold symbol at h ⊢
  rw [hpair]
  split at h
  · cases h
  · split at h
    · cases h
    · cases h
      rfl

/-- Where no piece can be cut off, none can be if the text goes on after a line end. -/
theorem first_append_lineEnd {c : Char} {source : List Char} (h : first c source = .error fault) :
    first c (source ++ '\n' :: more) = .error fault.beforeLineEnd := by
  obtain ⟨rfl, hstring⟩ | ⟨hsymbolic, hcomment, hsymbol⟩ := cases_of_first_eq_error h
  · have hfault : fault.beforeLineEnd = .brokenString := by
      rcases string_cases [] source with ⟨body, rest, rfl, hbody⟩ | ⟨herror, -⟩ | ⟨herror, -⟩
      · rw [string_append hbody] at hstring
        cases hstring
      · cases herror.symm.trans hstring
        rfl
      · cases herror.symm.trans hstring
        rfl
    simp [first, isBlank, string_append_lineEnd hstring, hfault]
  · rw [first_symbol hsymbolic fun hc d hd => ?_, symbol_append_lineEnd hsymbol]
    obtain hd | ⟨-, rfl⟩ := head?_append_lineEnd hd
    · exact hcomment hc d hd
    · decide

theorem IsStuck.append_lineEnd {rest : List Char} (h : IsStuck fault rest) :
    IsStuck fault.beforeLineEnd (rest ++ '\n' :: more) := by
  cases rest with
  | nil => cases fault <;> simpa [Blames] using h.blames
  | cons c source => exact first_eq_error_iff.1 (first_append_lineEnd (first_eq_error_iff.2 h))

end Lexeme

namespace LexError

/-- The text of an error does not tell whether a string ends with its line or with the text. -/
@[simp]
theorem text_beforeLineEnd (fault : LexFault) (line : Int) :
    (⟨fault.beforeLineEnd, line⟩ : LexError).text = (⟨fault, line⟩ : LexError).text := by
  cases fault <;> rfl

end LexError

namespace Token

open Piece

/-- The end of the input stands on the last line. -/
theorem stop_line_of_scan {source : String} {found : List Token} {stop : Token}
    (h : scan source = .ok (found ++ [stop])) : stop.line = lineAfter source.toList := by
  obtain ⟨pieces, hcut, htokens⟩ := exists_cut_of_scan h
  obtain ⟨-, hstop⟩ := List.append_inj' htokens rfl
  have htexts : texts pieces = source.toList := by simpa using hcut.texts_append
  rw [List.cons.inj hstop |>.1, htexts]

theorem scan_joined_eq_error {a b : String} {found : List Token} {stop : Token} {error : LexError}
    (ha : scan a = .ok (found ++ [stop])) (hb : scan b = .error error) :
    scan (a ++ "\n" ++ b) = .error { error with line := error.line + stop.line } := by
  obtain ⟨first, hfirst, -⟩ := exists_cut_of_scan ha
  obtain ⟨second, rest, hsecond, hstuck, hline⟩ := exists_cut_of_scan_eq_error hb
  rw [scan_of_cut (cut_joined hfirst hsecond), scanFrom_of_isStuck hstuck, lineAfter_joined hfirst,
    ← hline, stop_line_of_scan ha, lineAfter]
  congr 2
  omega

theorem scan_joined_of_error {a : String} {error : LexError} (ha : scan a = .error error)
    (b : String) :
    scan (a ++ "\n" ++ b) = .error { error with fault := error.fault.beforeLineEnd } := by
  obtain ⟨pieces, rest, hcut, hstuck, hline⟩ := exists_cut_of_scan_eq_error ha
  have hjoined : Cut (a ++ "\n" ++ b).toList pieces (rest ++ '\n' :: b.toList) := by
    simpa using hcut.append_lineEnd b.toList
  rw [scan_of_cut hjoined, scanFrom_of_isStuck hstuck.append_lineEnd, ← hline]

/-- Texts are read line by line. If `a` can be read, the tokens of `a`, a line end and `b` are those
of `a`, a line end on its last line unless `a` has no tokens or they end with one, and those of `b`
on lines counted on from there; so is the line of an error in `b`. If `a` cannot be read, the join
is blamed for the same text on the same line. -/
theorem scan_line_by_line (a b : String) :
    (∀ found stop, scan a = .ok (found ++ [stop]) →
      scan (a ++ "\n" ++ b) =
        match scan b with
        | .ok more =>
          .ok (found ++ added found stop.line .lineEnd ++ more.map (mapLine (· + stop.line)))
        | .error error => .error { error with line := error.line + stop.line }) ∧
    (∀ error, scan a = .error error → ∃ error', scan (a ++ "\n" ++ b) = .error error' ∧
      error'.line = error.line ∧ error'.text = error.text) := by
  refine ⟨fun found stop ha => ?_, fun error ha => ?_⟩
  · cases hb : scan b with
    | error error => exact scan_joined_eq_error ha hb
    | ok more =>
        have hline : stop.line = (a.toList.count '\n' + 1 : Nat) := by
          rw [stop_line_of_scan ha, lineAfter]
          omega
        rw [scan_joined ha hb, closed, ← stop_line_of_scan ha, ← hline]
  · exact ⟨_, scan_joined_of_error ha b, rfl, LexError.text_beforeLineEnd _ _⟩

/-- A comment, a line with tokens, and a string that does not end. -/
theorem scan_line_by_line_oops :
    scan ("-- x" ++ "\n" ++ "jr" ++ "\n" ++ "\"oops") = .error ⟨.openString, 3⟩ ∧
      scan ("-- x" ++ "\n" ++ "jr") = .ok [⟨.ifWord, "jr", 2⟩, ⟨.endOfInput, "", 2⟩] ∧
      ∃ error, scan ("\"oops" ++ "\n" ++ "jr") = .error error ∧ error.line = 1 ∧
        error.text = "\"" := by
  have hcomment : scan "-- x" = .ok ([] ++ [⟨.endOfInput, "", 1⟩]) := by decide +kernel
  have hword : scan "jr" = .ok [⟨.ifWord, "jr", 1⟩, ⟨.endOfInput, "", 1⟩] := by decide +kernel
  have hoops : scan "\"oops" = .error ⟨.openString, 1⟩ := by decide +kernel
  have hfirst : scan ("-- x" ++ "\n" ++ "jr") =
      .ok ([⟨.ifWord, "jr", 2⟩] ++ [⟨.endOfInput, "", 2⟩]) := by
    rw [(scan_line_by_line "-- x" "jr").1 _ _ hcomment, hword]
    rfl
  refine ⟨?_, hfirst, (scan_line_by_line "\"oops" "jr").2 _ hoops⟩
  rw [(scan_line_by_line ("-- x" ++ "\n" ++ "jr") "\"oops").1 _ _ hfirst, hoops]
  rfl

end Token

end Bol
