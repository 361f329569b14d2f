/-
# Readers that watch their steps

A second reader for the same grammar, which trusts nothing. It stops with a failure of its own when
it looks for a token where none is left. Its loops have no bound on their rounds: they go on until
a round says that it is the last one, and they stop with another failure when a round that is to be
followed by one more has taken no token. The reader of programs never comes to either failure, not
even if the list of tokens is cut off after the first end of the input.
-/

import Bol.Program.Parse

namespace Bol

/-- Why a strict reader stops. -/
inductive StrictStop
  /-- It looks for a token where none is left. -/
  | outside
  /-- A round of a loop has taken no token, and another one is to follow. -/
  | idle
  /-- It stops as the reader does. -/
  | stopped (stop : ParseStop)

/-- Readers that take tokens from the front of a list and stop rather than look behind it. -/
abbrev StrictParser := StateT (List Token) (Except StrictStop)

/-- What a round of a loop comes to. -/
inductive Round (σ α : Type)
  | again (state : σ)
  | done (value : α)

namespace StrictParser

def fail {α : Type} (error : ParseError) : StrictParser α :=
  fun _ => .error (.stopped (.error error))

def tooDeep {α : Type} : StrictParser α := fun _ => .error (.stopped .tooDeep)

def notNumber {α : Type} (text : String) : StrictParser α :=
  fun _ => .error (.stopped (.notNumber text))

/-- The first token, which stays in place. -/
def look : StrictParser Token
  | [] => .error .outside
  | t :: ts => .ok (t, t :: ts)

/-- Takes the first token, unless it is the end of the input. -/
def advance : StrictParser Token
  | [] => .error .outside
  | t :: ts => .ok (t, if t.kind = .endOfInput then t :: ts else ts)

/-- Repeats rounds until one is the last. A round before another one has to take a token. -/
def loop {σ α : Type} (round : σ → StrictParser (Round σ α)) (state : σ) : StrictParser α :=
  fun tokens =>
  match round state tokens with
  | .error stop => .error stop
  | .ok (.done value, rest) => .ok (value, rest)
  | .ok (.again state, rest) =>
    if rest.length < tokens.length then loop round state rest else .error .idle
termination_by tokens => tokens.length

def accept (kind : TokenKind) : StrictParser Bool := do
  if (← look).kind = kind then
    let _ ← advance
    return true
  else return false

def expect (kind : TokenKind) : StrictParser Token := do
  let token ← look
  if token.kind = kind then advance else fail (.expected kind token)

def skipLineEnd : StrictParser Unit := do
  let _ ← accept .newline

def endStatement : StrictParser Unit := do
  let token ← look
  if token.kind = .newline then
    let _ ← advance
  else if token.kind.closesList then pure ()
  else fail (.afterStatement token)

/-! ## Expressions -/

/-- A round of the loop over operators: one more of them with its right operand. -/
def operatorRound (isOp : TokenKind → Bool) (operand : StrictParser Expr) (left : Expr) :
    StrictParser (Round Expr Expr) := do
  if isOp (← look).kind then
    let op ← advance
    let right ← operand
    return .again (.binary (.ofSpelling op.value) left right)
  else return .done left

def leftAssociative (isOp : TokenKind → Bool) (operand : StrictParser Expr) :
    StrictParser Expr := do
  let left ← operand
  loop (operatorRound isOp operand) left

def comparison (operand : StrictParser Expr) : StrictParser Expr := do
  let left ← operand
  if (← look).kind.isComparison then
    let op ← advance
    let right ← operand
    return .binary (.ofSpelling op.value) left right
  else return left

def expressionOf (operand : StrictParser Expr) : StrictParser Expr :=
  leftAssociative (· == .orWord) <|
    leftAssociative (· == .andWord) <|
      comparison <|
        leftAssociative TokenKind.isAdditive <|
          leftAssociative TokenKind.isMultiplicative operand

/-- A round of the loop over arguments or parameters: one more of them after a comma. -/
def itemRound {α : Type} (item : StrictParser α) (items : List α) :
    StrictParser (Round (List α) (List α)) := do
  if ← accept .comma then
    let next ← item
    return .again (next :: items)
  else return .done items.reverse

def listOf {α : Type} (item : StrictParser α) : StrictParser (List α) := do
  let _ ← expect .leftParen
  let items ←
    if (← look).kind = .rightParen then pure []
    else do
      let first ← item
      loop (itemRound item) [first]
  let _ ← expect .rightParen
  return items

def numberLiteral (text : String) : StrictParser Expr :=
  match Number.ofText? text with
  | some value => pure (.number value)
  | none => notNumber text

def primary (expression : StrictParser Expr) : StrictParser Expr := do
  let token ← advance
  match token.kind with
  | .number => numberLiteral token.value
  | .string => return .string token.value
  | .trueWord => return .boolean true
  | .falseWord => return .boolean false
  | .nullWord => return .null
  | .identifier =>
    if (← look).kind = .leftParen then return .call token.value (← listOf expression)
    else return .name token.value
  | .leftParen =>
    let inner ← expression
    let _ ← expect .rightParen
    return inner
  | _ => fail (.noExpression token)

def operand (minus : Expr → Expr) : (depth : Nat) → StrictParser Expr
  | 0 => tooDeep
  | depth + 1 => do
    let token ← look
    match token.kind with
    | .notWord =>
      let _ ← advance
      return .unary (.ofSpelling token.value) (← operand minus depth)
    | .minus =>
      let _ ← advance
      return minus (← operand minus depth)
    | _ => primary (expressionOf (operand minus depth))

def expression (minus : Expr → Expr) (depth : Nat) : StrictParser Expr :=
  expressionOf (operand minus depth)

/-! ## Statements -/

/-- A round of the loop over statements: a line end or one more statement. -/
def statementRound (statement : StrictParser Stmt) (ends : TokenKind → Bool) (read : List Stmt) :
    StrictParser (Round (List Stmt) (List Stmt)) := do
  if ends (← look).kind then return .done read.reverse
  else if ← accept .newline then return .again read
  else
    let next ← statement
    return .again (next :: read)

def statements (statement : StrictParser Stmt) (ends : TokenKind → Bool) :
    StrictParser (List Stmt) :=
  loop (statementRound statement ends) []

def block (statement : StrictParser Stmt) : StrictParser (List Stmt) := do
  let _ ← expect .leftBrace
  skipLineEnd
  let body ← statements statement (fun kind => kind == .rightBrace || kind == .endOfInput)
  let _ ← expect .rightBrace
  return body

def clause (condition : StrictParser Expr) (body : StrictParser (List Stmt)) :
    StrictParser (Expr × List Stmt) := do
  let test ← condition
  skipLineEnd
  return (test, ← body)

/-- A round of the loop over else-ifs: one more of them, or the end of the `ifThen`. -/
def elseIfRound (condition : StrictParser Expr) (body : StrictParser (List Stmt))
    (clauses : List (Expr × List Stmt)) :
    StrictParser (Round (List (Expr × List Stmt)) Alternative) := do
  skipLineEnd
  if ← accept .elseIf then
    let next ← clause condition body
    return .again (next :: clauses)
  else if ← accept .elseWord then
    skipLineEnd
    return .done (.ofClauses clauses.reverse (some (← body)))
  else return .done (.ofClauses clauses.reverse none)

def binding (value : StrictParser Expr) : StrictParser Expr := do
  let _ ← expect .assign
  let bound ← value
  endStatement
  return bound

def statementAfter (value : StrictParser Expr) (body : StrictParser (List Stmt)) (first : Token) :
    StrictParser Stmt := do
  let line := some first.line
  match first.kind with
  | .declare =>
    let name ← expect .identifier
    return .declare name.value (← binding value) line
  | .identifier =>
    if (← look).kind = .leftParen then fail (.callStatement first)
    else return .assign first.value (← binding value) line
  | .print =>
    let shown ← value
    endStatement
    return .print shown line
  | .ifWord =>
    let (condition, thenBody) ← clause value body
    let otherwise ← loop (elseIfRound value body) []
    skipLineEnd
    return .ifThen condition thenBody otherwise line
  | .whileWord =>
    let (condition, loopBody) ← clause value body
    skipLineEnd
    return .whileDo condition loopBody line
  | .breakWord =>
    endStatement
    return .breakLoop line
  | .continueWords =>
    endStatement
    return .continueLoop line
  | .functionWord =>
    let name ← expect .identifier
    let params ← listOf (Token.value <$> expect .identifier)
    skipLineEnd
    let functionBody ← body
    skipLineEnd
    return .function name.value params functionBody line
  | .returnWord =>
    let next ← look
    if next.kind = .newline ∨ next.kind.closesList then
      skipLineEnd
      return .returnValue none line
    else
      let result ← value
      endStatement
      return .returnValue (some result) line
  | _ => fail (.noStatement first)

def statement (minus : Expr → Expr) : (depth : Nat) → StrictParser Stmt
  | 0 => tooDeep
  | depth + 1 => do
    let first ← advance
    statementAfter (expression minus depth) (block (statement minus depth)) first

/-! ## Programs -/

def program (minus : Expr → Expr) (depth : Nat) : StrictParser Program := do
  let _ ← expect .programStart
  endStatement
  let statements ← statements (statement minus depth)
    (fun kind => kind == .programEnd || kind == .endOfInput)
  let _ ← expect .programEnd
  return ⟨statements⟩

def fragment (minus : Expr → Expr) (depth : Nat) : StrictParser Program := do
  let statements ← statements (statement minus depth) (· == .endOfInput)
  let _ ← expect .endOfInput
  return ⟨statements⟩

def parseWithin (depth : Nat) (tokens : List Token) : Except StrictStop Program :=
  (program Expr.negated depth).run' tokens

def parseFragmentWithin (depth : Nat) (tokens : List Token) : Except StrictStop Program :=
  (fragment Expr.negated depth).run' tokens

end StrictParser

/-! ## Lists of tokens that are sealed -/

/-- The kinds of the tokens that nothing is read after: the end of the input and, if the program is
marked, its closing marker. -/
def TokenKind.seals (marked : Bool) : TokenKind → Bool
  | .endOfInput => true
  | .programEnd => marked
  | _ => false

/-- The tokens up to the first that nothing is read after, with that one. -/
def upToSeal (marked : Bool) : List Token → List Token
  | [] => []
  | t :: ts => if t.kind.seals marked then [t] else t :: upToSeal marked ts

/-- The last token is the first that nothing is read after. -/
inductive Sealed (marked : Bool) : List Token → Prop
  | last {t : Token} (ht : t.kind.seals marked = true) : Sealed marked [t]
  | cons {t : Token} {ts : List Token} (ht : t.kind.seals marked = false)
      (hts : Sealed marked ts) : Sealed marked (t :: ts)

end Bol
