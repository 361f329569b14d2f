/-
# What keeps the shell waiting

The shell counts braces in text that nobody has read. A brace of a text is a token, or it stands in
a string or in a comment, so the shell waits exactly if more braces open than close in tokens,
strings and comments together. Where strings and comments hold as many opening as closing braces,
that is the count of tokens: then a text is withheld as long as a block is open, and no complete
statement is.
-/

import Bol.Proofs.Session.Shell

namespace Bol

/-- How often a character stands in the strings and comments among pieces. -/
def Piece.hidden (c : Char) (pieces : List Piece) : Nat := (pieces.flatMap freeText).count c

namespace Session

open Grammar Source Token

variable {source : String} {tokens : List Token} {pieces : List Piece}

/-- A brace of a text is a token or hidden in a string or a comment. -/
theorem count_brace {c : Char} {kind : TokenKind} (hscan : Token.scan source = .ok tokens)
    (hcut : Piece.Cut source.toList pieces []) (hbrace : IsBrace c kind) :
    source.toList.count c = Token.count kind tokens + Piece.hidden c pieces := by
  obtain ⟨body, stop, rfl, hstop, -⟩ := exists_body_of_scan hscan
  have hlast : Token.count kind [stop] = 0 := by
    cases hbrace <;> simp [Token.count, hstop]
  rw [Token.count_append, hlast, Nat.add_zero, Piece.hidden]
  exact (count_of_cut hcut hscan hbrace).symm

/-- In the tokens of complete statements as many braces close as open. -/
theorem count_brace_of_fragment {P : Program} (hscan : Token.scan source = .ok tokens)
    (hread : fragment source = .ok P) :
    Token.count .leftBrace tokens = Token.count .rightBrace tokens := by
  obtain ⟨body, stop, hbody, hstop, -, hstatements⟩ := fragment_eq_ok_iff.mp hread
  obtain rfl := Except.ok.inj (hscan.symm.trans hbody)
  have hzero := (areNested_statementsAt _ _ _ hstatements).level_eq
  have hlevel := Token.level_eq_count (body ++ [stop])
  rw [Token.level_append, hzero, Token.level_cons, hstop] at hlevel
  simp only [Token.level_nil, TokenKind.brace] at hlevel
  omega

/-- The shell goes by the tokens of a text: it waits as long as a block is open in them, whatever
lines make the text up, and it does not withhold statements that are complete. -/
structure WaitsForTokens (source : String) (tokens : List Token) : Prop where
  needsMore_iff : needsMore source = true ↔
    Token.count .rightBrace tokens < Token.count .leftBrace tokens
  complete : ∀ P, fragment source = .ok P → needsMore source = false
  react : ∀ pending line, Shell.joined (pending ++ [line]) = source →
    Shell.isCommand line = false → Text.trim line.toList ≠ [] →
      Shell.react pending line =
        if Token.count .rightBrace tokens < Token.count .leftBrace tokens then
          (pending ++ [line], .wait)
        else ([], .execute source)

/-- What the shell does about a line that is no command and not blank. -/
theorem react_of_line {pending : List String} {line : String}
    (hcommand : Shell.isCommand line = false) (hblank : Text.trim line.toList ≠ []) :
    Shell.react pending line =
      if needsMore (Shell.joined (pending ++ [line])) = true then (pending ++ [line], .wait)
      else ([], .execute (Shell.joined (pending ++ [line]))) := by
  have hdecides := Shell.decides pending line
  generalize Shell.react pending line = outcome at hdecides ⊢
  cases hdecides with
  | obeys hobeyed => rw [hcommand] at hobeyed; cases hobeyed
  | skips _ hskipped | keepsBlank _ hskipped => exact absurd hskipped hblank
  | collects _ _ hlevel => rw [if_pos ((Shell.needsMore_joined _).mpr hlevel)]
  | runs _ _ hlevel =>
      rw [if_neg fun hmore => Int.not_lt.mpr hlevel ((Shell.needsMore_joined _).mp hmore)]

/-- Where strings and comments hold as many opening as closing braces, they do not matter. -/
theorem waitsForTokens (hscan : Token.scan source = .ok tokens)
    (hcut : Piece.Cut source.toList pieces [])
    (heven : Piece.hidden '\x7b' pieces = Piece.hidden '\x7d' pieces) :
    WaitsForTokens source tokens := by
  have hneedsMore : needsMore source = true ↔
      Token.count .rightBrace tokens < Token.count .leftBrace tokens := by
    rw [needsMore, decide_eq_true_eq, count_brace hscan hcut .left, count_brace hscan hcut .right,
      heven, Nat.add_lt_add_iff_right]
  refine ⟨hneedsMore, fun P hread => ?_, fun pending line hjoined hcommand hblank => ?_⟩
  · rw [← Bool.not_eq_true, hneedsMore, count_brace_of_fragment hscan hread]
    exact Nat.lt_irrefl _
  · rw [react_of_line hcommand hblank, hjoined]
    exact if_congr hneedsMore rfl rfl

/-- The shell waits for more of a text that can be read exactly if more braces open than close in
its tokens, its strings and its comments. Where strings and comments hold as many opening as closing
ones, it goes by the tokens. -/
theorem needsMore_iff_tokens (hscan : Token.scan source = .ok tokens) :
    (∃ pieces, Piece.Cut source.toList pieces []) ∧
      ∀ pieces, Piece.Cut source.toList pieces [] →
        (needsMore source = true ↔
          Token.count .rightBrace tokens + Piece.hidden '\x7d' pieces <
            Token.count .leftBrace tokens + Piece.hidden '\x7b' pieces) ∧
        (Piece.hidden '\x7b' pieces = Piece.hidden '\x7d' pieces →
          WaitsForTokens source tokens) := by
  obtain ⟨pieces, hcut, -⟩ := exists_cut_of_scan hscan
  refine ⟨⟨pieces, hcut⟩, fun pieces hcut => ⟨?_, waitsForTokens hscan hcut⟩⟩
  rw [needsMore, decide_eq_true_eq, count_brace hscan hcut .left, count_brace hscan hcut .right]

/-- A block that is open, with a brace of each kind hidden. -/
def hidesBoth : String := "jr barobr \x7b -- \x7d\nhe bol \"\x7b\""

/-- The block keeps the shell waiting, and the hidden braces do not. -/
theorem needsMore_iff_tokens_hidesBoth :
    ∃ tokens, Token.scan hidesBoth = .ok tokens ∧ (∃ pieces, Piece.Cut hidesBoth.toList pieces []) ∧
      WaitsForTokens hidesBoth tokens := by
  have hscan : Token.scan hidesBoth =
      .ok [⟨.ifWord, "jr", 1⟩, ⟨.trueWord, "barobr", 1⟩, ⟨.leftBrace, "\x7b", 1⟩,
        ⟨.newline, "\\n", 1⟩, ⟨.print, "he bol", 2⟩, ⟨.string, "\x7b", 2⟩,
        ⟨.endOfInput, "", 2⟩] := by
    decide +kernel
  obtain ⟨⟨pieces, hcut⟩, hall⟩ := needsMore_iff_tokens hscan
  refine ⟨_, hscan, ⟨pieces, hcut⟩, (hall pieces hcut).2 ?_⟩
  have hleft := count_brace hscan hcut .left
  have hright := count_brace hscan hcut .right
  have hbraces : hidesBoth.toList.count '\x7b' = 2 ∧ hidesBoth.toList.count '\x7d' = 1 := by
    decide +kernel
  simp [Token.count] at hleft hright
  omega

/-- A complete statement with a brace in its string. -/
def printsBrace : String := "he bol \"\x7b\""

/-- No token of it is a brace, and it is withheld. -/
theorem needsMore_printsBrace :
    ∃ tokens, Token.scan printsBrace = .ok tokens ∧
      ¬ (needsMore printsBrace = true ↔
        Token.count .rightBrace tokens < Token.count .leftBrace tokens) ∧
      ∃ P, fragment printsBrace = .ok P := by
  have hscan : Token.scan printsBrace =
      .ok [⟨.print, "he bol", 1⟩, ⟨.string, "\x7b", 1⟩, ⟨.endOfInput, "", 1⟩] := by
    decide +kernel
  have hread : fragment printsBrace = .ok ⟨[.print (.string "\x7b") (some 1)]⟩ :=
    read_eq_ok_iff.mpr ⟨_, hscan, rfl⟩
  exact ⟨_, hscan, by decide +kernel, _, hread⟩

end Session

end Bol
