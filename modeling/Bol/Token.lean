/-
# Tokens

The units that Bol text is read into. A keyword made of two words (`he bol`) is a single token,
and a run of line ends is a single `newline` token. A token keeps the line it starts on; lines
are integers counted from one, and a token that was made by hand may carry any line at all.
-/

import Bol.Text.Quoted

namespace Bol

/-- What a token stands for. -/
inductive TokenKind
  | programStart | programEnd | declare | print | elseIf | continueWords
  | ifWord | elseWord | whileWord | breakWord | functionWord | returnWord
  | nullWord | trueWord | falseWord | andWord | orWord | notWord
  | number | string | identifier
  | plus | minus | star | slash
  | equal | notEqual | less | greater | lessEqual | greaterEqual | assign
  | leftParen | rightParen | leftBrace | rightBrace | comma
  | newline | endOfInput
  deriving DecidableEq, Repr, Inhabited

namespace TokenKind

/-- The name under which messages mention a kind of token. -/
def name : TokenKind → String
  | programStart => "PROGRAM_START"
  | programEnd => "PROGRAM_END"
  | declare => "DECLARE"
  | print => "PRINT"
  | elseIf => "ELSE_IF"
  | continueWords => "CONTINUE"
  | ifWord => "IF"
  | elseWord => "ELSE"
  | whileWord => "WHILE"
  | breakWord => "BREAK"
  | functionWord => "FUNCTION"
  | returnWord => "RETURN"
  | nullWord => "NULL"
  | trueWord => "TRUE"
  | falseWord => "FALSE"
  | andWord => "AND"
  | orWord => "OR"
  | notWord => "NOT"
  | number => "NUMBER"
  | string => "STRING"
  | identifier => "IDENTIFIER"
  | plus => "PLUS"
  | minus => "MINUS"
  | star => "STAR"
  | slash => "SLASH"
  | equal => "EQ_EQ"
  | notEqual => "BANG_EQ"
  | less => "LT"
  | greater => "GT"
  | lessEqual => "LT_EQ"
  | greaterEqual => "GT_EQ"
  | assign => "ASSIGN"
  | leftParen => "LPAREN"
  | rightParen => "RPAREN"
  | leftBrace => "LBRACE"
  | rightBrace => "RBRACE"
  | comma => "COMMA"
  | newline => "NEWLINE"
  | endOfInput => "EOF"

/-- The one way to write a keyword, an operator or a bracket. The kinds whose tokens differ in
text (numbers, strings, identifiers) have no spelling of their own. -/
def spelling : TokenKind → String
  | programStart => "bola saheb"
  | programEnd => "yeto saheb"
  | declare => "he ghe"
  | print => "he bol"
  | elseIf => "nahitr jr"
  | continueWords => "pudhe ja"
  | ifWord => "jr"
  | elseWord => "nahitr"
  | whileWord => "joparyant"
  | breakWord => "thamb"
  | functionWord => "karya"
  | returnWord => "parat"
  | nullWord => "shunya"
  | trueWord => "barobr"
  | falseWord => "chuk"
  | andWord => "ani"
  | orWord => "kinva"
  | notWord => "nahi"
  | plus => "+"
  | minus => "-"
  | star => "*"
  | slash => "/"
  | equal => "=="
  | notEqual => "!="
  | less => "<"
  | greater => ">"
  | lessEqual => "<="
  | greaterEqual => ">="
  | assign => "="
  | leftParen => "("
  | rightParen => ")"
  | leftBrace => "\x7b"
  | rightBrace => "\x7d"
  | comma => ","
  | newline => "\\n"
  | number | string | identifier | endOfInput => ""

/-- Keywords of one word. -/
def keywords : List TokenKind :=
  [ifWord, elseWord, whileWord, breakWord, functionWord, returnWord,
    nullWord, trueWord, falseWord, andWord, orWord, notWord]

/-- Keywords of two words, written with one blank between them in `spelling`. -/
def compoundKeywords : List TokenKind :=
  [programStart, programEnd, declare, print, elseIf, continueWords]

/-- A word that is not a keyword names something. -/
def ofWord (word : String) : TokenKind :=
  (keywords.find? (·.spelling == word)).getD identifier

/-- The keyword that two neighbouring words form, if they form one. -/
def ofWords? (first second : String) : Option TokenKind :=
  compoundKeywords.find? (·.spelling == first ++ " " ++ second)

/-- Operators of two characters; they win over the one-character operators they begin with. -/
def ofPair? : Char → Char → Option TokenKind
  | '=', '=' => some equal
  | '!', '=' => some notEqual
  | '<', '=' => some lessEqual
  | '>', '=' => some greaterEqual
  | _, _ => none

/-- Operators, brackets and the comma. -/
def ofSymbol? : Char → Option TokenKind
  | '+' => some plus
  | '-' => some minus
  | '*' => some star
  | '/' => some slash
  | '=' => some assign
  | '<' => some less
  | '>' => some greater
  | '(' => some leftParen
  | ')' => some rightParen
  | '{' => some leftBrace
  | '}' => some rightBrace
  | ',' => some comma
  | _ => none

/-- Kinds that stand between the operands of a comparison. -/
def isComparison : TokenKind → Bool
  | equal | notEqual | less | greater | lessEqual | greaterEqual => true
  | _ => false

/-- Kinds that stand between the operands of a sum or difference. -/
def isAdditive : TokenKind → Bool
  | plus | minus => true
  | _ => false

/-- Kinds that stand between the operands of a product or quotient. -/
def isMultiplicative : TokenKind → Bool
  | star | slash => true
  | _ => false

/-- Kinds before which a statement may end without a line end: they close the list it is in. -/
def closesList : TokenKind → Bool
  | endOfInput | programEnd | rightBrace => true
  | _ => false

end TokenKind

/-- A token: its kind, the text it stands for, and the line it starts on. The text of a string
token is its content, without quotes and with line ends in place of their escapes. -/
structure Token where
  kind : TokenKind
  value : String
  line : Int
  deriving DecidableEq, Repr, Inhabited

/-- How a token is shown to someone who inspects a list of tokens. -/
def Token.describe (token : Token) : String :=
  s!"Token({token.kind.name}, {Text.quoted token.value}, line={token.line})"

end Bol
