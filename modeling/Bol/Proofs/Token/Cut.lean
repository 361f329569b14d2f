/-
# Sources cut into pieces

`Piece.Cut source pieces rest` cuts a source from left to right, up to `rest`, into the pieces
that the token grammar selects, and `Piece.tokens` lists the tokens that pieces stand for, with
their lines. Neither mentions how text is read. The main statement says that `Token.scan` answers
with the tokens of a complete cut if there is one, and that it otherwise blames the first place
where no rule selects a piece.
-/

import Bol.Proofs.Lexeme.Rules
import Bol.Token.Scan

namespace Bol

/-- A piece of a source, and what it stands for. -/
structure Piece where
  lexeme : Lexeme
  text : List Char

namespace Piece

/-- The text that pieces make up. -/
def texts (pieces : List Piece) : List Char := pieces.flatMap Piece.text

/-- The source is the text of the pieces and then `rest`, each piece being the one that the
rules select at its position. -/
inductive Cut : (source : List Char) → List Piece → (rest : List Char) → Prop
  | done {rest} : Cut rest [] rest
  | piece {lexeme text source pieces rest} (hselects : Lexeme.Selects lexeme text source)
      (hcut : Cut source pieces rest) : Cut (text ++ source) (⟨lexeme, text⟩ :: pieces) rest

/-- The line on which a piece starts that `before` comes before. -/
def lineAfter (before : List Char) : Int := 1 + before.count '\n'

/-- The tokens that a lexeme adds to the tokens before it: a line end adds one exactly when some
token precedes it and the last of them is not a `newline` already. -/
def added (found : List Token) (line : Int) : Lexeme → List Token
  | .lineEnd =>
    if ∃ last ∈ found.getLast?, last.kind ≠ .newline then [⟨.newline, "\\n", line⟩] else []
  | .silent => []
  | .token kind value => [⟨kind, value, line⟩]

/-- The tokens of pieces that come after the text `before` and the tokens `found`. -/
def tokensAfter (before : List Char) (found : List Token) : List Piece → List Token
  | [] => found
  | piece :: pieces =>
    tokensAfter (before ++ piece.text)
      (found ++ added found (lineAfter before) piece.lexeme) pieces

/-- The tokens of a whole source: those of its pieces, and the end of the input. -/
def tokens (pieces : List Piece) : List Token :=
  tokensAfter [] [] pieces ++ [⟨.endOfInput, "", lineAfter (texts pieces)⟩]

/-! ## One piece -/

theorem endLine_reverse (line : Int) (found : List Token) :
    Token.endLine line found.reverse = (found ++ added found line .lineEnd).reverse := by
  rcases List.eq_nil_or_concat found with rfl | ⟨init, last, rfl⟩
  · rfl
  · by_cases hlast : last.kind = .newline <;>
      simp [Token.endLine, added, hlast, TokenKind.spelling]

/-- Reading takes one piece after the other. -/
theorem scanFrom_of_selects {lexeme : Lexeme} {text source : List Char}
    (h : Lexeme.Selects lexeme text source) (before : List Char) (found : List Token) :
    Token.scanFrom (lineAfter before) found.reverse (text ++ source) =
      Token.scanFrom (lineAfter (before ++ text))
        (found ++ added found (lineAfter before) lexeme).reverse source := by
  obtain ⟨c, more, hsource, hfirst⟩ := h.first_eq
  have hline := h.count_lineEnd
  rw [hsource, Token.scanFrom_cons, hfirst]
  cases lexeme with
  | lineEnd =>
      have hnext : lineAfter (before ++ text) = lineAfter before + 1 := by
        simp only [lineAfter, List.count_append, hline, if_pos, Int.natCast_add]
        omega
      rw [hnext, ← endLine_reverse]
  | silent =>
      have hsame : lineAfter (before ++ text) = lineAfter before := by
        simp [lineAfter, hline]
      simp [hsame, added]
  | token kind value =>
      have hsame : lineAfter (before ++ text) = lineAfter before := by
        simp [lineAfter, hline]
      simp [hsame, added]

/-! ## All pieces -/

theorem scanFrom_of_cut {source rest : List Char} {pieces : List Piece}
    (h : Cut source pieces rest) (before : List Char) (found : List Token) :
    Token.scanFrom (lineAfter before) found.reverse source =
      Token.scanFrom (lineAfter (before ++ texts pieces))
        (tokensAfter before found pieces).reverse rest := by
  induction h generalizing before found with
  | done => simp [texts, tokensAfter]
  | piece hselects _ ih =>
      rw [scanFrom_of_selects hselects, ih]
      simp [texts, tokensAfter]

theorem scan_of_cut {source : String} {pieces : List Piece} {rest : List Char}
    (h : Cut source.toList pieces rest) :
    Token.scan source =
      Token.scanFrom (lineAfter (texts pieces)) (tokensAfter [] [] pieces).reverse rest :=
  scanFrom_of_cut h [] []

/-- A piece is cut off as it is read. -/
theorem cut_of_first {c : Char} {more text source rest : List Char} {lexeme : Lexeme}
    {pieces : List Piece} (hfirst : Lexeme.first c more = .ok (lexeme, source))
    (htext : c :: more = text ++ source) (hcut : Cut source pieces rest) :
    Cut (c :: more) (⟨lexeme, text⟩ :: pieces) rest := by
  obtain ⟨taken, htaken, hselects⟩ := Lexeme.first_eq_ok_iff.1 hfirst
  obtain rfl := List.append_cancel_right (htaken.symm.trans htext)
  exact htext ▸ .piece hselects hcut

/-- A source can be cut up to a place where no rule selects a piece, or to its end. -/
theorem exists_cut (source : List Char) :
    ∃ pieces rest, Cut source pieces rest ∧ (rest = [] ∨ ∃ fault, Lexeme.IsStuck fault rest) := by
  induction hlength : source.length using Nat.strong_induction_on generalizing source with
  | _ n ih =>
      cases source with
      | nil => exact ⟨[], [], .done, .inl rfl⟩
      | cons c more =>
          cases hfirst : Lexeme.first c more with
          | error fault =>
              exact ⟨[], c :: more, .done, .inr ⟨fault, Lexeme.first_eq_error_iff.1 hfirst⟩⟩
          | ok cut =>
              obtain ⟨lexeme, source⟩ := cut
              obtain ⟨text, hsource, -⟩ := Lexeme.first_eq_ok_iff.1 hfirst
              have hshorter : source.length ≤ more.length := Lexeme.length_first_le hfirst
              obtain ⟨pieces, rest, hcut, hend⟩ :=
                ih source.length (by simp only [List.length_cons] at hlength; omega) source rfl
              exact ⟨⟨lexeme, text⟩ :: pieces, rest, cut_of_first hfirst hsource hcut, hend⟩

theorem scanFrom_of_isStuck {fault : LexFault} {rest : List Char}
    (h : Lexeme.IsStuck fault rest) (line : Int) (found : List Token) :
    Token.scanFrom line found rest = .error ⟨fault, line⟩ := by
  obtain ⟨c, more, rfl⟩ := h.exists_cons
  rw [Token.scanFrom_cons, Lexeme.first_eq_error_iff.2 h]

/-- The text of an error is the character that the source gets stuck at. -/
theorem text_of_isStuck {fault : LexFault} {rest : List Char} (h : Lexeme.IsStuck fault rest)
    (line : Int) : (⟨fault, line⟩ : LexError).text = String.ofList (rest.take 1) := by
  have hblames := h.blames
  cases fault with
  | brokenString =>
      obtain ⟨body, more, rfl, -⟩ := hblames
      rfl
  | openString =>
      obtain ⟨body, rfl, -⟩ := hblames
      rfl
  | strayChar c =>
      obtain ⟨more, rfl⟩ := List.head?_eq_some_iff.1 hblames.2
      rfl

end Piece

namespace Token

open Piece

/-- Scanning against the token grammar. It succeeds with exactly the tokens of a complete cut of
the source; otherwise the error is that of the first place where no rule selects a piece, its line
is that of the place, and its text is the character there. -/
theorem scan_iff_cut (source : String) :
    (∀ found, scan source = .ok found ↔
      ∃ pieces, Cut source.toList pieces [] ∧ found = Piece.tokens pieces) ∧
    (∀ error, scan source = .error error ↔
      ∃ pieces rest, Cut source.toList pieces rest ∧ Lexeme.IsStuck error.fault rest ∧
        error.line = lineAfter (texts pieces) ∧ error.text = String.ofList (rest.take 1)) := by
  have hcomplete : ∀ {pieces}, Cut source.toList pieces [] →
      scan source = .ok (Piece.tokens pieces) := by
    intro pieces hcut
    rw [scan_of_cut hcut, scanFrom_nil]
    simp [Piece.tokens, TokenKind.spelling]
  have hstopped : ∀ {pieces rest fault}, Cut source.toList pieces rest →
      Lexeme.IsStuck fault rest → scan source = .error ⟨fault, lineAfter (texts pieces)⟩ := by
    intro pieces rest fault hcut hstuck
    rw [scan_of_cut hcut, scanFrom_of_isStuck hstuck]
  obtain ⟨pieces, rest, hcut, hend⟩ := exists_cut source.toList
  refine ⟨fun found => ⟨fun hscan => ?_, ?_⟩, fun error => ⟨fun hscan => ?_, ?_⟩⟩
  · rcases hend with rfl | ⟨fault, hstuck⟩
    · rw [hcomplete hcut] at hscan
      exact ⟨pieces, hcut, (Except.ok.inj hscan).symm⟩
    · rw [hstopped hcut hstuck] at hscan
      cases hscan
  · rintro ⟨pieces, hcut, rfl⟩
    exact hcomplete hcut
  · rcases hend with rfl | ⟨fault, hstuck⟩
    · rw [hcomplete hcut] at hscan
      cases hscan
    · rw [hstopped hcut hstuck] at hscan
      cases hscan
      exact ⟨pieces, rest, hcut, hstuck, rfl, text_of_isStuck hstuck _⟩
  · rintro ⟨pieces, rest, hcut, hstuck, hline, -⟩
    rw [hstopped hcut hstuck, ← hline]

end Token

end Bol
