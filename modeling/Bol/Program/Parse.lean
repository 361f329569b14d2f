/-
# Reading tokens into programs

The grammar, one function per rule. Statements are told apart by their first token, operators of
one precedence associate to the left, and a comparison has exactly two operands. A line end may
stand before a block and before each part of an `ifThen`; a simple statement needs one after it
unless the list it is in is closed there.

Reading needs two bounds to be total. `rounds` is at least the number of tokens, and every round
of a loop takes a token, so no loop is ever cut short by it. `depth` is how many operators,
parentheses, calls and blocks may still be nested in each other; text that exhausts it is not
refused as wrong but as too deep.
-/

import Bol.Number
import Bol.Program
import Bol.Token

namespace Bol

/-- Tokens that are no program: what was found where something else had to stand. -/
inductive ParseError
  /-- A token other than the only one that could stand here. -/
  | expected (kind : TokenKind) (found : Token)
  /-- A token that no expression starts with. -/
  | noExpression (found : Token)
  /-- A token that no statement starts with. -/
  | noStatement (found : Token)
  /-- A statement that starts like a call of the named function. -/
  | callStatement (name : Token)
  /-- A token between a complete statement and the end of its line. -/
  | afterStatement (found : Token)
  deriving DecidableEq, Repr

namespace ParseError

/-- The token that the error points at. -/
def token : ParseError → Token
  | expected _ found | noExpression found | noStatement found | callStatement found
  | afterStatement found => found

def message : ParseError → String
  | expected kind found =>
    let text := if found.kind = .endOfInput then "end of input" else found.value
    s!"expected {kind.name} but found '{text}'"
  | noExpression found =>
    if found.kind = .endOfInput then "expected an expression but found end of input"
    else s!"'{found.value}' is not an expression"
  | noStatement found => s!"'{found.value}' cannot start a statement"
  | callStatement name =>
    s!"function call used as a statement; keep its result with 'he ghe _ = {name.value}(...)'"
  | afterStatement found => s!"unexpected '{found.value}' after statement"

/-- The offending text. There is none at the end of the input, nor where an expected token is
missing and the one in its place is empty. -/
def text? : ParseError → Option String
  | expected _ found => if found.value = "" then none else some found.value
  | noExpression found => if found.kind = .endOfInput then none else some found.value
  | noStatement found | callStatement found | afterStatement found => some found.value

end ParseError

/-- Why reading ends without a tree. -/
inductive ParseStop
  | error (error : ParseError)
  | tooDeep
  /-- A number token whose text stands for no number. No source has one. -/
  | notNumber (text : String)
  deriving DecidableEq, Repr

/-- Readers of a part of a program: they take tokens from the front of a list. -/
abbrev Parser := StateT (List Token) (Except ParseStop)

namespace Parser

/-- The first token. A list is meant to end with an `endOfInput`; one that lacks it is read as
if it had one. -/
def current : List Token → Token
  | [] => ⟨.endOfInput, "", 0⟩
  | token :: _ => token

/-- The tokens after the first one. Nothing is ever taken past the end of the input. -/
def afterCurrent : List Token → List Token
  | [] => []
  | token :: rest => if token.kind = .endOfInput then token :: rest else rest

def fail {α : Type} (error : ParseError) : Parser α := fun _ => .error (.error error)

def tooDeep {α : Type} : Parser α := fun _ => .error .tooDeep

def notNumber {α : Type} (text : String) : Parser α := fun _ => .error (.notNumber text)

/-- The first token, which stays in place. -/
def peek : Parser Token := fun tokens => .ok (current tokens, tokens)

/-- Takes the first token. -/
def advance : Parser Token := fun tokens => .ok (current tokens, afterCurrent tokens)

/-- Takes the first token if it is of the given kind, and says whether it was. -/
def accept (kind : TokenKind) : Parser Bool := do
  if (← peek).kind = kind then
    let _ ← advance
    return true
  else return false

/-- Takes the first token, which has to be of the given kind. -/
def expect (kind : TokenKind) : Parser Token := do
  let token ← peek
  if token.kind = kind then advance else fail (.expected kind token)

/-- Takes a line end if there is one. -/
def skipLineEnd : Parser Unit := do
  let _ ← accept .newline

/-- The end of a simple statement: a line end, or a token that closes the list it is in, which
stays in place. -/
def endStatement : Parser Unit := do
  let token ← peek
  if token.kind = .newline then
    let _ ← advance
  else if token.kind.closesList then pure ()
  else fail (.afterStatement token)

/-! ## Expressions -/

/-- Goes on with `left` while operators follow it, each with a right operand. -/
def chain (isOp : TokenKind → Bool) (operand : Parser Expr) : (rounds : Nat) → Expr → Parser Expr
  | 0, left => pure left
  | rounds + 1, left => do
    if isOp (← peek).kind then
      let op ← advance
      let right ← operand
      chain isOp operand rounds (.binary (.ofSpelling op.value) left right)
    else pure left

/-- Operands joined by operators that associate to the left. -/
def leftAssociative (rounds : Nat) (isOp : TokenKind → Bool) (operand : Parser Expr) :
    Parser Expr := do
  let left ← operand
  chain isOp operand rounds left

/-- One operand, or two with a comparison between them. -/
def comparison (operand : Parser Expr) : Parser Expr := do
  let left ← operand
  if (← peek).kind.isComparison then
    let op ← advance
    let right ← operand
    return .binary (.ofSpelling op.value) left right
  else return left

/-- An expression over the given operands, by falling precedence: products, sums, comparisons,
`ani`, `kinva`. -/
def expressionOf (rounds : Nat) (operand : Parser Expr) : Parser Expr :=
  leftAssociative rounds (· == .orWord) <|
    leftAssociative rounds (· == .andWord) <|
      comparison <|
        leftAssociative rounds TokenKind.isAdditive <|
          leftAssociative rounds TokenKind.isMultiplicative operand

/-- Items with a comma before each; `items` collects those read so far, the last one first. -/
def moreItems {α : Type} (item : Parser α) : (rounds : Nat) → List α → Parser (List α)
  | 0, items => pure items.reverse
  | rounds + 1, items => do
    if ← accept .comma then
      let next ← item
      moreItems item rounds (next :: items)
    else pure items.reverse

/-- Items in parentheses, with commas between them. -/
def listOf {α : Type} (rounds : Nat) (item : Parser α) : Parser (List α) := do
  let _ ← expect .leftParen
  let items ←
    if (← peek).kind = .rightParen then pure []
    else do
      let first ← item
      moreItems item rounds [first]
  let _ ← expect .rightParen
  return items

/-- The number that the text of a number token stands for. -/
def numberLiteral (text : String) : Parser Expr :=
  match Number.ofText? text with
  | some value => pure (.number value)
  | none => notNumber text

/-- An operand without an operator before it. -/
def primary (rounds : Nat) (expression : Parser Expr) : Parser Expr := do
  let token ← advance
  match token.kind with
  | .number => numberLiteral token.value
  | .string => return .string token.value
  | .trueWord => return .boolean true
  | .falseWord => return .boolean false
  | .nullWord => return .null
  | .identifier =>
    if (← peek).kind = .leftParen then return .call token.value (← listOf rounds expression)
    else return .name token.value
  | .leftParen =>
    let inner ← expression
    let _ ← expect .rightParen
    return inner
  | _ => fail (.noExpression token)

/-- An operand with any number of operators before it. `minus` says what a minus sign makes of
its operand. -/
def operand (minus : Expr → Expr) (rounds : Nat) : (depth : Nat) → Parser Expr
  | 0 => tooDeep
  | depth + 1 => do
    let token ← peek
    match token.kind with
    | .notWord =>
      let _ ← advance
      return .unary (.ofSpelling token.value) (← operand minus rounds depth)
    | .minus =>
      let _ ← advance
      return minus (← operand minus rounds depth)
    | _ => primary rounds (expressionOf rounds (operand minus rounds depth))

def expression (minus : Expr → Expr) (rounds depth : Nat) : Parser Expr :=
  expressionOf rounds (operand minus rounds depth)

/-! ## Statements -/

/-- Statements up to a token of a kind that ends their list, which stays in place; `read` collects
those read so far, the last one first. -/
def statementsFrom (statement : Parser Stmt) (ends : TokenKind → Bool) :
    (rounds : Nat) → List Stmt → Parser (List Stmt)
  | 0, read => pure read.reverse
  | rounds + 1, read => do
    if ends (← peek).kind then pure read.reverse
    else if ← accept .newline then statementsFrom statement ends rounds read
    else
      let next ← statement
      statementsFrom statement ends rounds (next :: read)

/-- A list of statements in braces. -/
def block (rounds : Nat) (statement : Parser Stmt) : Parser (List Stmt) := do
  let _ ← expect .leftBrace
  skipLineEnd
  let body ← statementsFrom statement (fun kind => kind == .rightBrace || kind == .endOfInput)
    rounds []
  let _ ← expect .rightBrace
  return body

/-- A condition and the block it guards. -/
def clause (condition : Parser Expr) (body : Parser (List Stmt)) :
    Parser (Expr × List Stmt) := do
  let test ← condition
  skipLineEnd
  return (test, ← body)

/-- What follows the first block of an `ifThen`; `clauses` collects the else-ifs read so far, the
last one first. -/
def alternative (condition : Parser Expr) (body : Parser (List Stmt)) :
    (rounds : Nat) → List (Expr × List Stmt) → Parser Alternative
  | 0, clauses => pure (.ofClauses clauses.reverse none)
  | rounds + 1, clauses => do
    skipLineEnd
    if ← accept .elseIf then
      let next ← clause condition body
      alternative condition body rounds (next :: clauses)
    else if ← accept .elseWord then
      skipLineEnd
      return .ofClauses clauses.reverse (some (← body))
    else return .ofClauses clauses.reverse none

/-- The name and the value of a declaration or an assignment, the name being taken already. -/
def binding (value : Parser Expr) : Parser Expr := do
  let _ ← expect .assign
  let bound ← value
  endStatement
  return bound

/-- A statement whose first token is `first`, which is taken already; the statements in its
blocks are read by `body`. -/
def statementAfter (rounds : Nat) (value : Parser Expr) (body : Parser (List Stmt))
    (first : Token) : Parser Stmt := do
  let line := some first.line
  match first.kind with
  | .declare =>
    let name ← expect .identifier
    return .declare name.value (← binding value) line
  | .identifier =>
    if (← peek).kind = .leftParen then fail (.callStatement first)
    else return .assign first.value (← binding value) line
  | .print =>
    let shown ← value
    endStatement
    return .print shown line
  | .ifWord =>
    let (condition, thenBody) ← clause value body
    let otherwise ← alternative value body rounds []
    skipLineEnd
    return .ifThen condition thenBody otherwise line
  | .whileWord =>
    let (condition, loopBody) ← clause value body
    skipLineEnd
    return .whileDo condition loopBody line
  | .breakWord =>
    endStatement
    return .breakLoop line
  | .continueWords =>
    endStatement
    return .continueLoop line
  | .functionWord =>
    let name ← expect .identifier
    let params ← listOf rounds (Token.value <$> expect .identifier)
    skipLineEnd
    let functionBody ← body
    skipLineEnd
    return .function name.value params functionBody line
  | .returnWord =>
    let next ← peek
    if next.kind = .newline ∨ next.kind.closesList then
      skipLineEnd
      return .returnValue none line
    else
      let result ← value
      endStatement
      return .returnValue (some result) line
  | _ => fail (.noStatement first)

/-- A statement. -/
def statement (minus : Expr → Expr) (rounds : Nat) : (depth : Nat) → Parser Stmt
  | 0 => tooDeep
  | depth + 1 => do
    let first ← advance
    statementAfter rounds (expression minus rounds depth)
      (block rounds (statement minus rounds depth)) first

/-! ## Programs -/

/-- A program between its markers. Nothing is read after the closing one. -/
def program (minus : Expr → Expr) (rounds depth : Nat) : Parser Program := do
  let _ ← expect .programStart
  endStatement
  let statements ← statementsFrom (statement minus rounds depth)
    (fun kind => kind == .programEnd || kind == .endOfInput) rounds []
  let _ ← expect .programEnd
  return ⟨statements⟩

/-- Statements without markers, up to the end of the input. -/
def fragment (minus : Expr → Expr) (rounds depth : Nat) : Parser Program := do
  let statements ← statementsFrom (statement minus rounds depth) (· == .endOfInput) rounds []
  let _ ← expect .endOfInput
  return ⟨statements⟩

end Parser

/-- How deeply the parts of a program may be nested, and how deeply its evaluation may go. -/
def depthLimit : Nat := 5000

/-- What a minus sign makes of its operand: a number literal takes the sign itself. -/
def Expr.negated : Expr → Expr
  | .number value => .number (-value)
  | operand => .unary .negate operand

namespace Program

/-- The program that a list of tokens spells, read within a bound on its nesting. -/
def parseWithin (depth : Nat) (tokens : List Token) : Except ParseStop Program :=
  (Parser.program Expr.negated tokens.length depth).run' tokens

/-- The statements that a list of tokens spells without program markers around them, read within
a bound on their nesting. -/
def parseFragmentWithin (depth : Nat) (tokens : List Token) : Except ParseStop Program :=
  (Parser.fragment Expr.negated tokens.length depth).run' tokens

def parse : List Token → Except ParseStop Program := parseWithin depthLimit

def parseFragment : List Token → Except ParseStop Program := parseFragmentWithin depthLimit

end Program

end Bol
