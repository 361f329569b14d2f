/-
# Lexemes

Text is cut from left to right into lexemes: line ends, silent pieces (blanks and comments) and
the texts of tokens. `Lexeme.first` cuts off the first one. Where several readings begin alike
the longest wins: `--` opens a comment before `-` is an operator, `==` is one operator, a number
takes its fraction, and two words that form a keyword are read together.
-/

import Bol.Token

namespace Bol

/-- What a piece of text is, apart from where it stands. -/
inductive Lexeme
  /-- The end of a line. -/
  | lineEnd
  /-- A blank or a comment; no token comes of it. -/
  | silent
  /-- The text of one token. -/
  | token (kind : TokenKind) (value : String)
  deriving DecidableEq, Repr

/-- Why no lexeme starts at some place of a text. -/
inductive LexFault
  /-- A string whose line ends before its closing quote. -/
  | brokenString
  /-- A string that the text ends in. -/
  | openString
  /-- A character that no lexeme starts with. -/
  | strayChar (char : Char)
  deriving DecidableEq, Repr

namespace Lexeme

/-- Characters that separate tokens within a line. -/
def isBlank (c : Char) : Bool := c == ' ' || c == '\t' || c == '\r'

/-- Characters that may stand between the two words of a keyword. -/
def isWordGap (c : Char) : Bool := c == ' ' || c == '\t'

/-- Characters that a word starts with: letters of the Latin alphabet and the underscore. -/
def isWordStart (c : Char) : Bool := c.isAlpha || c == '_'

/-- Characters that a word goes on with. -/
def isWordChar (c : Char) : Bool := c.isAlphanum || c == '_'

/-- The rest of a string after its opening quote: its content and what follows the closing
quote. The only escape is a backslash before `n`, for a line end; `content` collects what was
read so far, last character first. -/
def string (content : List Char) : List Char → Except LexFault (List Char × List Char)
  | [] => .error .openString
  | '"' :: rest => .ok (content.reverse, rest)
  | '\n' :: _ => .error .brokenString
  | '\\' :: 'n' :: rest => string ('\n' :: content) rest
  | c :: rest => string (c :: content) rest

/-- The longest number that `source` starts with: digits, and a point with more digits if there
are any after it. -/
def number (source : List Char) : List Char × List Char :=
  let whole := source.takeWhile Char.isDigit
  match source.dropWhile Char.isDigit with
  | '.' :: d :: rest =>
    if d.isDigit then
      (whole ++ '.' :: (d :: rest).takeWhile Char.isDigit, (d :: rest).dropWhile Char.isDigit)
    else (whole, '.' :: d :: rest)
  | rest => (whole, rest)

/-- The word that `source` starts with, together with the next word when both form a keyword. -/
def word (source : List Char) : Lexeme × List Char :=
  let first := String.ofList (source.takeWhile isWordChar)
  let rest := source.dropWhile isWordChar
  let ahead := rest.dropWhile isWordGap
  let second := String.ofList (ahead.takeWhile isWordChar)
  match TokenKind.ofWords? first second with
  | some kind => (.token kind (first ++ " " ++ second), ahead.dropWhile isWordChar)
  | none => (.token (TokenKind.ofWord first) first, rest)

/-- The operator, bracket or comma that starts with `c`. -/
def symbol (c : Char) (rest : List Char) : Except LexFault (Lexeme × List Char) :=
  match rest.head?.bind (TokenKind.ofPair? c) with
  | some kind => .ok (.token kind kind.spelling, rest.tail)
  | none =>
    match TokenKind.ofSymbol? c with
    | some kind => .ok (.token kind kind.spelling, rest)
    | none => .error (.strayChar c)

/-- The first lexeme of the text `c :: rest`, and the text after it. -/
def first (c : Char) (rest : List Char) : Except LexFault (Lexeme × List Char) :=
  if c = '\n' then .ok (.lineEnd, rest)
  else if isBlank c then .ok (.silent, rest)
  else if c = '-' ∧ rest.head? = some '-' then .ok (.silent, rest.dropWhile (· != '\n'))
  else if c = '"' then
    match string [] rest with
    | .ok (content, rest) => .ok (.token .string (String.ofList content), rest)
    | .error fault => .error fault
  else if c.isDigit then
    .ok (.token .number (String.ofList (number (c :: rest)).1), (number (c :: rest)).2)
  else if isWordStart c then .ok (word (c :: rest))
  else symbol c rest

/-! ## Every lexeme takes at least one character -/

theorem length_dropWhile_le (p : Char → Bool) (source : List Char) :
    (source.dropWhile p).length ≤ source.length :=
  (List.dropWhile_suffix p).length_le

theorem length_string_le {content source : List Char} {read : List Char × List Char}
    (h : string content source = .ok read) : read.2.length ≤ source.length := by
  fun_induction string content source with
  | case1 => cases h
  | case2 => cases h; simp
  | case3 => cases h
  | case4 content rest ih =>
    have fewer := ih h
    simp only [List.length_cons]
    omega
  | case5 content c rest _ _ _ ih => exact Nat.le_succ_of_le (ih h)

theorem length_number_lt {c : Char} (rest : List Char) (digit : c.isDigit = true) :
    (number (c :: rest)).2.length ≤ rest.length := by
  have fewer := length_dropWhile_le Char.isDigit rest
  unfold number
  simp only [List.dropWhile_cons, digit, if_true]
  split
  · rename_i d more heq
    rw [heq] at fewer
    have fewerStill := length_dropWhile_le Char.isDigit more
    simp only [List.length_cons] at fewer
    split
    · exact Nat.le_trans fewerStill (by omega)
    · simpa using fewer
  · exact fewer

theorem length_word_le {c : Char} (rest : List Char) (start : isWordChar c = true) :
    (word (c :: rest)).2.length ≤ rest.length := by
  have fewer := length_dropWhile_le isWordChar rest
  have ahead := length_dropWhile_le isWordGap (rest.dropWhile isWordChar)
  have after := length_dropWhile_le isWordChar ((rest.dropWhile isWordChar).dropWhile isWordGap)
  unfold word
  simp only [List.dropWhile_cons, start, if_true]
  split <;> simp <;> omega

theorem isWordChar_of_isWordStart {c : Char} (h : isWordStart c = true) : isWordChar c = true := by
  simp only [isWordStart, isWordChar, Char.isAlphanum, Bool.or_eq_true] at *
  rcases h with h | h <;> simp [h]

/-- What is left after the first lexeme is shorter than the text. -/
theorem length_first_le {c : Char} {rest : List Char} {cut : Lexeme × List Char}
    (h : first c rest = .ok cut) : cut.2.length ≤ rest.length := by
  unfold first at h
  split at h
  · cases h; simp
  split at h
  · cases h; simp
  split at h
  · cases h; exact length_dropWhile_le _ _
  split at h
  · split at h
    · rename_i heq; cases h; exact length_string_le heq
    · cases h
  split at h
  · rename_i digit; cases h; exact length_number_lt rest digit
  split at h
  · rename_i start; cases h; exact length_word_le rest (isWordChar_of_isWordStart start)
  unfold symbol at h
  split at h
  · cases h; cases rest <;> simp
  split at h
  · cases h; simp
  · cases h

end Lexeme

end Bol
