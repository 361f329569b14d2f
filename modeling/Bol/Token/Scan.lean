/-
# Reading text into tokens

`Token.scan` cuts a text into lexemes and places their tokens on lines. Line ends give one
`newline` token after the tokens of a line and none elsewhere, so no list of tokens starts with
a `newline` or holds two of them in a row; the list ends with one `endOfInput`. Text with a place
where no lexeme starts is refused with the line of that place.
-/

import Bol.Token.Lexeme

namespace Bol

/-- Text that cannot be cut into lexemes: what is wrong, and the line where it starts. -/
structure LexError where
  fault : LexFault
  line : Int
  deriving DecidableEq, Repr

namespace LexError

def message (error : LexError) : String :=
  match error.fault with
  | .brokenString => s!"unterminated string on line {error.line}"
  | .openString => s!"unterminated string starting on line {error.line}"
  | .strayChar char => s!"unexpected character '{char}'"

/-- The offending text: the opening quote of a string, or the character that fits nowhere. -/
def text (error : LexError) : String :=
  match error.fault with
  | .brokenString | .openString => "\""
  | .strayChar char => char.toString

end LexError

namespace Token

/-- What a line end adds to the tokens found so far (the last one first): a `newline`, unless
nothing was found on any line yet or the last token is a `newline` already. -/
def endLine (line : Int) : List Token → List Token
  | [] => []
  | last :: found =>
    if last.kind = .newline then last :: found
    else ⟨.newline, TokenKind.newline.spelling, line⟩ :: last :: found

/-- Reads `source`, which starts on `line`, after the tokens `found`, the last one first. -/
def scanFrom (line : Int) (found : List Token) : List Char → Except LexError (List Token)
  | [] => .ok (⟨.endOfInput, TokenKind.endOfInput.spelling, line⟩ :: found).reverse
  | c :: source =>
    match h : Lexeme.first c source with
    | .error fault => .error ⟨fault, line⟩
    | .ok (.lineEnd, rest) => scanFrom (line + 1) (endLine line found) rest
    | .ok (.silent, rest) => scanFrom line found rest
    | .ok (.token kind value, rest) => scanFrom line (⟨kind, value, line⟩ :: found) rest
termination_by source => source.length
decreasing_by all_goals exact Nat.lt_succ_of_le (Lexeme.length_first_le h)

@[simp]
theorem scanFrom_nil (line : Int) (found : List Token) :
    scanFrom line found [] =
      .ok (⟨.endOfInput, TokenKind.endOfInput.spelling, line⟩ :: found).reverse := by
  rw [scanFrom]

/-- Reading goes on after the first lexeme. -/
theorem scanFrom_cons (line : Int) (found : List Token) (c : Char) (source : List Char) :
    scanFrom line found (c :: source) =
      match Lexeme.first c source with
      | .error fault => .error ⟨fault, line⟩
      | .ok (.lineEnd, rest) => scanFrom (line + 1) (endLine line found) rest
      | .ok (.silent, rest) => scanFrom line found rest
      | .ok (.token kind value, rest) => scanFrom line (⟨kind, value, line⟩ :: found) rest := by
  rw [scanFrom]
  split <;> simp_all

/-- The tokens of a text. -/
def scan (source : String) : Except LexError (List Token) := scanFrom 1 [] source.toList

end Token

end Bol
