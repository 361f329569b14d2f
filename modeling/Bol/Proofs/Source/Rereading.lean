/-
# Writing tokens out and reading them again

The tokens of a source need not be those of a program, and a blank between two of them is not always
enough to tell them apart: `nahitr` and `jr` may be two tokens, but `nahitr jr` is one. A carriage
return is enough. No number, word or operator goes on with one, and it is not among the blanks that
the two words of a keyword may have between them. So whatever the tokens of a source are, they are
read again from the text in which carriage returns separate them.
-/

import Bol.Proofs.Source.Render
import Bol.Proofs.Token.Seam

namespace Bol

namespace Token

open Piece

/-! ## Line ends among the tokens of a source -/

/-- The first token is no line end, and no line end follows another. -/
structure LineEndsApart (tokens : List Token) : Prop where
  first : ∀ t ∈ tokens.head?, t.kind ≠ .newline
  chain : tokens.IsChain fun a b => ¬ (a.kind = .newline ∧ b.kind = .newline)

theorem LineEndsApart.concat {tokens : List Token} (h : LineEndsApart tokens) {t : Token}
    (ht : t.kind = .newline → ∃ last ∈ tokens.getLast?, last.kind ≠ .newline) :
    LineEndsApart (tokens ++ [t]) := by
  refine ⟨fun u hu hline => ?_, List.isChain_append.mpr ⟨h.chain, .singleton t, ?_⟩⟩
  · cases tokens with
    | nil =>
        obtain rfl : t = u := Option.some.inj hu
        obtain ⟨last, hlast, -⟩ := ht hline
        cases hlast
    | cons first tokens => exact h.first u hu hline
  · rintro last hlast u hu ⟨hline, huline⟩
    obtain rfl : t = u := Option.some.inj hu
    obtain ⟨other, hother, hne⟩ := ht huline
    obtain rfl : other = last := Option.some.inj (hother.symm.trans hlast)
    exact hne hline

/-- One piece keeps the line ends apart: a line end adds a token only after another kind. -/
theorem LineEndsApart.added {found : List Token} (h : LineEndsApart found) {lexeme : Lexeme}
    {text rest : List Char} (hselects : Lexeme.Selects lexeme text rest) (line : Int) :
    LineEndsApart (found ++ Piece.added found line lexeme) := by
  cases lexeme with
  | lineEnd =>
      rw [Piece.added]
      split
      · rename_i hlast
        exact h.concat fun _ => hlast
      · rwa [List.append_nil]
  | silent => rwa [Piece.added, List.append_nil]
  | token kind value => exact h.concat fun hline => absurd hline hselects.kind_ne.2

theorem LineEndsApart.tokensAfter {found : List Token} (h : LineEndsApart found)
    {source rest : List Char} {pieces : List Piece} (hcut : Cut source pieces rest)
    (before : List Char) : LineEndsApart (tokensAfter before found pieces) := by
  induction hcut generalizing before found with
  | done => exact h
  | piece hselects _ ih => exact ih (h.added hselects _) _

/-- The tokens of a source are its body, in which line ends are apart, and the end of the input. -/
theorem exists_lineEndsApart_of_scan {source : String} {found : List Token}
    (h : scan source = .ok found) : ∃ body line, found = body ++ [⟨.endOfInput, "", line⟩] ∧
      LineEndsApart body ∧ ∀ t ∈ body, t.kind ≠ .endOfInput := by
  obtain ⟨pieces, hcut, rfl⟩ := exists_cut_of_scan h
  have hnone : LineEndsApart [] := ⟨by simp, .nil⟩
  exact ⟨_, _, rfl, hnone.tokensAfter hcut [],
    kind_ne_endOfInput_of_mem_tokensAfter hcut (List.forall_mem_nil _)⟩

end Token

namespace Word

open Lexeme

/-! ## Carriage returns between words -/

/-- How words are written with a carriage return between any two of them. -/
def renderApart (words : List Word) : List Char := List.intercalate ['\r'] (words.map text)

theorem renderApart_concat (words : List Word) {last : Word} (hlast : last.text = []) :
    renderApart (words ++ [last]) = words.flatMap fun word => word.text ++ ['\r'] := by
  rw [renderApart]
  induction words with
  | nil => simp [hlast]
  | cons word words ih =>
      rw [List.flatMap_cons, ← ih]
      cases words <;> simp [hlast]

/-- In front of a carriage return every word is read as what it is. -/
theorem selects_of_return {word : Word} (h : word.IsLexed) (hend : word.kind ≠ .endOfInput)
    (after : List Char) : Selects word.lexeme word.text ('\r' :: after) := by
  refine selects_text h hend (.inr (by simp [IsBreak])) fun _ between other rest hsplit hgap _ => ?_
  obtain ⟨c, more, rfl⟩ := List.exists_cons_of_ne_nil hgap.1
  obtain ⟨rfl, -⟩ := List.cons.inj hsplit
  rcases hgap.2 '\r' List.mem_cons_self with heq | heq <;> exact absurd heq (by decide)

theorem rendered_apart {words : List Word} (hlexed : ∀ word ∈ words, word.IsLexed)
    (hend : ∀ word ∈ words, word.kind ≠ .endOfInput) :
    Rendered words (words.flatMap fun word => word.text ++ ['\r']) := by
  induction words with
  | nil => exact .done
  | cons word words ih =>
      obtain ⟨hword, hlexed⟩ := List.forall_mem_cons.mp hlexed
      obtain ⟨hkind, hend⟩ := List.forall_mem_cons.mp hend
      rw [List.flatMap_cons, List.append_assoc]
      exact .word (selects_of_return hword hkind _) (.blank (.inr (.inr rfl)) (ih hlexed hend))

end Word

namespace Token

open Word

/-- Tokens can be written out and read again. If a source can be read, so can the text of its tokens
with a carriage return between any two of them, and the tokens are of the same kinds with the same
values. -/
theorem scan_renderApart {source : String} {tokens : List Token} (h : scan source = .ok tokens) :
    ∃ again, scan (String.ofList (renderApart (tokens.map word))) = .ok again ∧
      again.map word = tokens.map word := by
  obtain ⟨body, line, rfl, hapart, hend⟩ := exists_lineEndsApart_of_scan h
  have hlexed : ∀ w ∈ body.map word, w.IsLexed :=
    List.forall_mem_map.mpr fun t ht => isLexed_of_scan h t (List.mem_append_left _ ht)
  obtain ⟨again, line', hscan, hwords⟩ :=
    scan_of_rendered (rendered_apart hlexed (List.forall_mem_map.mpr hend)) hlexed
      (List.isChain_map_of_isChain word (fun _ _ hpair => hpair) hapart.chain)
      (by simpa [Token.word] using hapart.first)
  refine ⟨again ++ [⟨.endOfInput, "", line'⟩], ?_, ?_⟩
  · rw [List.map_append, List.map_singleton, renderApart_concat _ rfl, hscan]
  · rw [List.map_append, hwords, List.map_append]
    rfl

/-- Operators that run together with nothing between them, and words that do even with a blank. -/
def barelyApart : List Token :=
  [⟨.identifier, "he", 1⟩, ⟨.identifier, "ghe", 1⟩, ⟨.elseWord, "nahitr", 1⟩, ⟨.ifWord, "jr", 1⟩,
    ⟨.minus, "-", 1⟩, ⟨.minus, "-", 1⟩, ⟨.less, "<", 1⟩, ⟨.assign, "=", 1⟩, ⟨.newline, "\\n", 1⟩,
    ⟨.number, "1", 2⟩, ⟨.number, "2.5", 2⟩, ⟨.string, "a\nb", 2⟩, ⟨.endOfInput, "", 2⟩]

theorem scan_renderApart_barelyApart :
    scan "he\rghe\rnahitr\rjr- -< =\n1 2.5\"a\\nb\"" = .ok barelyApart ∧
      renderApart (barelyApart.map word) =
        "he\rghe\rnahitr\rjr\r-\r-\r<\r=\r\n\r1\r2.5\r\"a\\nb\"\r".toList ∧
      ∃ again, scan (String.ofList (renderApart (barelyApart.map word))) = .ok again ∧
        again.map word = barelyApart.map word := by
  have hscan : scan "he\rghe\rnahitr\rjr- -< =\n1 2.5\"a\\nb\"" = .ok barelyApart := by
    decide +kernel
  exact ⟨hscan, by decide +kernel, scan_renderApart hscan⟩

end Token

end Bol
