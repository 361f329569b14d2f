/-
# Where tokens stand

Every token of a text has a place: the rules of the lexemes cut the text up to there, and the token
is that of the piece that comes next, or the end of the input. A text that has no tokens gets stuck
at a place as well. The line of a token, and that of an error, is the line of the place.
-/

import Mathlib.Data.List.Basic
import Bol.Proofs.Token.Seam

namespace Bol

open Piece

/-- A lexeme adds one token at most. -/
theorem Piece.added_cases (found : List Token) (line : Int) (lexeme : Lexeme) :
    added found line lexeme = [] ∨ ∃ t, added found line lexeme = [t] := by
  cases lexeme with
  | silent => exact .inl rfl
  | token kind value => exact .inr ⟨_, rfl⟩
  | lineEnd =>
      rw [added]
      split
      · exact .inr ⟨_, rfl⟩
      · exact .inl rfl

/-- A token stands at the place between `before` and `after` in a text. -/
inductive Token.StandsAt (text before after : List Char) : Token → Prop
  | piece {pieces : List Piece} {lexeme : Lexeme} {taken rest : List Char} {t : Token}
      (hcut : Cut text pieces after) (hbefore : texts pieces = before)
      (hafter : after = taken ++ rest) (hselects : Lexeme.Selects lexeme taken rest)
      (ht : t ∈ added (tokensAfter [] [] pieces) (lineAfter before) lexeme) :
      StandsAt text before after t
  | endOfInput {pieces : List Piece} (hcut : Cut text pieces after)
      (hbefore : texts pieces = before) (hafter : after = []) :
      StandsAt text before after ⟨.endOfInput, "", lineAfter before⟩

/-- A token that comes after the tokens `used` of a text stands at the place between `before` and
`piece ++ after`. It is the token of `piece`, or the end of the input, which has no text. -/
inductive Token.StandsAfter (text : List Char) (used : List Token)
    (before piece after : List Char) : Token → Prop
  | piece {pieces : List Piece} {lexeme : Lexeme} {t : Token}
      (hcut : Cut text pieces (piece ++ after)) (hbefore : texts pieces = before)
      (hused : tokensAfter [] [] pieces = used)
      (hselects : Lexeme.Selects lexeme piece after)
      (ht : added used (lineAfter before) lexeme = [t]) : StandsAfter text used before piece after t
  | endOfInput {pieces : List Piece} (hcut : Cut text pieces []) (hbefore : texts pieces = before)
      (hused : tokensAfter [] [] pieces = used) (hpiece : piece = []) (hafter : after = []) :
      StandsAfter text used before piece after ⟨.endOfInput, "", lineAfter before⟩

/-- A text gets stuck at the place between `before` and `after`, where no lexeme starts. -/
def LexError.StandsAt (text before after : List Char) (error : LexError) : Prop :=
  ∃ pieces, Cut text pieces after ∧ texts pieces = before ∧ Lexeme.IsStuck error.fault after ∧
    error.line = lineAfter before

namespace Token

variable {text before after : List Char} {t : Token}

theorem StandsAt.text_eq (h : t.StandsAt text before after) : before ++ after = text := by
  cases h with
  | piece hcut hbefore => exact hbefore ▸ hcut.texts_append
  | endOfInput hcut hbefore => exact hbefore ▸ hcut.texts_append

theorem StandsAt.line_eq (h : t.StandsAt text before after) : t.line = lineAfter before := by
  cases h with
  | endOfInput => rfl
  | @piece _ lexeme _ _ _ _ _ _ _ ht =>
      cases lexeme with
      | silent => cases ht
      | token kind value => rw [List.mem_singleton.mp ht]
      | lineEnd =>
          simp only [added] at ht
          split at ht
          · rw [List.mem_singleton.mp ht]
          · cases ht

variable {used : List Token} {piece : List Char}

theorem StandsAfter.standsAt (h : t.StandsAfter text used before piece after) :
    t.StandsAt text before (piece ++ after) := by
  cases h with
  | piece hcut hbefore hused hselects ht =>
      subst hused
      exact .piece hcut hbefore rfl hselects (ht ▸ List.mem_singleton_self t)
  | endOfInput hcut hbefore _ hpiece hafter =>
      subst hpiece hafter
      exact .endOfInput hcut hbefore rfl

/-- The tokens of pieces that come after others stand where their pieces do. -/
theorem standsAfter_of_cut {source rest : List Char} {done pieces : List Piece} {more : List Token}
    (hdone : Cut text done source) (h : Cut source pieces rest)
    (htokens : tokensAfter (texts done) (tokensAfter [] [] done) pieces = used ++ t :: more) :
    (∃ more, tokensAfter [] [] done = used ++ t :: more) ∨
      ∃ before piece after, t.StandsAfter text used before piece after := by
  -- The pieces done so far grow by one in each step, and with them the tokens found.
  induction h generalizing done with
  | done => exact .inl ⟨more, htokens⟩
  | @piece lexeme taken source pieces rest hselects _ ih =>
      have htexts : texts (done ++ [⟨lexeme, taken⟩]) = texts done ++ taken := by simp [texts]
      have hfound : tokensAfter [] [] (done ++ [⟨lexeme, taken⟩]) =
          tokensAfter [] [] done ++
            added (tokensAfter [] [] done) (lineAfter (texts done)) lexeme := by
        rw [tokensAfter_append]
        rfl
      obtain ⟨more, hmore⟩ | hplace :=
        ih (hdone.trans (.piece hselects .done)) (by rw [htexts, hfound]; exact htokens)
      · rw [hfound] at hmore
        obtain hnone | ⟨last, hlast⟩ := added_cases (tokensAfter [] [] done)
          (lineAfter (texts done)) lexeme
        · rw [hnone, List.append_nil] at hmore
          exact .inl ⟨more, hmore⟩
        · rw [hlast] at hmore
          obtain rfl | ⟨init, last, rfl⟩ := List.eq_nil_or_concat' more
          · obtain ⟨rfl, hsame⟩ := List.append_inj' hmore rfl
            exact .inr ⟨_, _, _, .piece hdone rfl rfl hselects (hlast.trans hsame)⟩
          · rw [← List.cons_append, ← List.append_assoc] at hmore
            exact .inl ⟨init, (List.append_inj' hmore rfl).1⟩
      · exact .inr hplace

/-- Every token of a text stands at some place, after the tokens before it. -/
theorem exists_standsAfter {source : String} {rest : List Token}
    (h : scan source = .ok (used ++ t :: rest)) :
    ∃ before piece after, t.StandsAfter source.toList used before piece after := by
  obtain ⟨pieces, hcut, htokens⟩ := exists_cut_of_scan h
  rw [Piece.tokens] at htokens
  obtain rfl | ⟨init, last, rfl⟩ := List.eq_nil_or_concat' rest
  · obtain ⟨rfl, hsame⟩ := List.append_inj' htokens rfl
    obtain rfl := (List.cons.inj hsame).1
    exact ⟨_, _, _, .endOfInput hcut rfl rfl rfl rfl⟩
  · rw [← List.cons_append, ← List.append_assoc] at htokens
    obtain ⟨_, hnone⟩ | hplace :=
      standsAfter_of_cut .done hcut (List.append_inj' htokens rfl).1.symm
    · cases used <;> cases hnone
    · exact hplace

theorem exists_standsAt {source : String} {tokens : List Token} (h : scan source = .ok tokens)
    (ht : t ∈ tokens) : ∃ before after, t.StandsAt source.toList before after := by
  obtain ⟨used, rest, rfl⟩ := List.append_of_mem ht
  obtain ⟨before, piece, after, hplace⟩ := exists_standsAfter h
  exact ⟨before, piece ++ after, hplace.standsAt⟩

end Token

theorem LexError.exists_standsAt {source : String} {error : LexError}
    (h : Token.scan source = .error error) :
    ∃ before after, error.StandsAt source.toList before after := by
  obtain ⟨pieces, rest, hcut, hstuck, hline⟩ := Token.exists_cut_of_scan_eq_error h
  exact ⟨texts pieces, rest, pieces, hcut, rfl, hstuck, hline⟩

end Bol
