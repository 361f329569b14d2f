/-
# Programs as sources

How a program is written as a source: between its markers, one statement on a line, one blank
between words, and parentheses only where the tree would otherwise be another one. A number is
written as one of the numerals that stand for it, minus signs and digits; which of them is a
choice, since a number may have many.

Not every tree can be written. Its names have to be names and its texts texts that a string can
have, its numbers need a numeral, its operators have to be those of the language, and a minus sign
before a number belongs to the number.
-/

import Bol.Number
import Bol.Program.Parse
import Bol.Proofs.Program.Relocation
import Bol.Proofs.Source.Words

namespace Bol

/-! ## Numerals -/

/-- A number as it is written: minus signs, and digits with an optional fraction. -/
structure Numeral where
  signs : Nat
  digits : String

namespace Numeral

/-- A number with its sign changed some times. -/
def negated : (signs : Nat) → Float → Float
  | 0, x => x
  | signs + 1, x => -negated signs x

/-- The numeral is a way to write the number. -/
def Spells (numeral : Numeral) (x : Float) : Prop :=
  Lexeme.IsNumber numeral.digits.toList ∧
    ∃ y, Number.ofText? numeral.digits = some y ∧ negated numeral.signs y = x

def words (numeral : Numeral) : List Word :=
  List.replicate numeral.signs TokenKind.minus.word ++ [⟨.number, numeral.digits⟩]

end Numeral

/-- A choice of a numeral for every number that has one. -/
def IsSpelling (spell : Float → Numeral) : Prop :=
  ∀ x, (∃ numeral : Numeral, numeral.Spells x) → (spell x).Spells x

/-! ## Operators -/

namespace BinaryOp

/-- The kind of token an operator is written as. -/
def kind : BinaryOp → TokenKind
  | add => .plus
  | sub => .minus
  | mul => .star
  | div => .slash
  | equal => .equal
  | notEqual => .notEqual
  | less => .less
  | greater => .greater
  | lessEqual => .lessEqual
  | greaterEqual => .greaterEqual
  | and => .andWord
  | or => .orWord
  | other _ => .identifier

def word (op : BinaryOp) : Word := ⟨op.kind, op.spelling⟩

theorem ofSpelling_spelling : ∀ op ∈ all, ofSpelling op.spelling = op := by decide

theorem ofSpelling_value {op : BinaryOp} (hop : op ∈ all) {t : Token} (ht : t.word = op.word) :
    ofSpelling t.value = op := by
  have hvalue : t.value = op.spelling := congrArg Word.value ht
  rw [hvalue, ofSpelling_spelling op hop]

/-- The kind of an operator leaves no choice of a spelling. -/
theorem word_eq_of_kind_eq {op : BinaryOp} (hop : op ∈ all) {t : Token} (h : t.word.IsLexed)
    (hkind : t.kind = op.kind) : t.word = op.word := by
  obtain ⟨kind, value, line⟩ := t
  obtain rfl : kind = op.kind := hkind
  cases op with
  | other spelling => simp [all] at hop
  | _ => exact congrArg (Word.mk _) h

/-- The precedence of an operator, from the loosest to the tightest. -/
def level : BinaryOp → Nat
  | or => 1
  | and => 2
  | equal | notEqual | less | greater | lessEqual | greaterEqual => 3
  | add | sub => 4
  | mul | div | other _ => 5

/-- The precedence that the left operand has to have: that of the operator, which associates to
the left, or more if it is a comparison, which does not associate. -/
def leftLevel (op : BinaryOp) : Nat := if op.kind.isComparison then op.level + 1 else op.level

end BinaryOp

namespace UnaryOp

def word : UnaryOp → Word
  | negate => TokenKind.minus.word
  | not => TokenKind.notWord.word
  | other spelling => ⟨.identifier, spelling⟩

theorem ofSpelling_value {t : Token} (ht : t.word = not.word) : ofSpelling t.value = not :=
  congrArg (ofSpelling ∘ Word.value) ht

theorem word_eq_of_kind_eq {t : Token} (h : t.word.IsLexed) (hkind : t.kind = .notWord) :
    t.word = not.word := by
  obtain ⟨kind, value, line⟩ := t
  obtain rfl : kind = .notWord := hkind
  exact congrArg (Word.mk _) h

end UnaryOp

/-! ## Expressions -/

namespace Expr

/-- The precedence of an expression. What is no operation of two operands is an operand itself. -/
def level : Expr → Nat
  | binary op _ _ => op.level
  | _ => 6

end Expr

/-- The words of an expression of precedence `inner`, with parentheses if that is looser than the
place where it is written asks for. -/
def wrapped (level inner : Nat) (words : List Word) : List Word :=
  if inner < level then TokenKind.leftParen.word :: (words ++ [TokenKind.rightParen.word])
  else words

/-- How deeply an expression is nested with the parentheses it is written in. -/
def wrappedNesting (level inner nesting : Nat) : Nat :=
  if inner < level then nesting + 1 else nesting

namespace Expr

section

variable (spell : Float → Numeral)

mutual

/-- The words that an expression is written as. -/
def words : Expr → List Word
  | .number value => (spell value).words
  | .string value => [⟨.string, value⟩]
  | .boolean value => [if value then TokenKind.trueWord.word else TokenKind.falseWord.word]
  | .null => [TokenKind.nullWord.word]
  | .name text => [⟨.identifier, text⟩]
  | .binary op left right =>
    wrapped op.leftLevel left.level left.words ++
      op.word :: wrapped (op.level + 1) right.level right.words
  | .unary op operand => op.word :: wrapped 6 operand.level operand.words
  | .call callee args =>
    ⟨.identifier, callee⟩ :: TokenKind.leftParen.word ::
      (listWords args ++ [TokenKind.rightParen.word])
  | .misplaced _ => []

/-- The words of expressions with commas between them. -/
def listWords : List Expr → List Word
  | [] => []
  | [e] => e.words
  | e :: other :: rest => e.words ++ TokenKind.comma.word :: listWords (other :: rest)

end

mutual

/-- How many operators before operands, calls and parentheses the innermost operand of the
written expression is in, itself included. -/
def nesting : Expr → Nat
  | .number value => (spell value).signs + 1
  | .binary op left right =>
    max (wrappedNesting op.leftLevel left.level left.nesting)
      (wrappedNesting (op.level + 1) right.level right.nesting)
  | .unary _ operand => wrappedNesting 6 operand.level operand.nesting + 1
  | .call _ args => listNesting args + 1
  | _ => 1

def listNesting : List Expr → Nat
  | [] => 0
  | e :: rest => max e.nesting (listNesting rest)

end

end

/-- The expressions that can be written. -/
inductive Printable : Expr → Prop
  | number {value : Float} (h : ∃ numeral : Numeral, numeral.Spells value) :
      Printable (.number value)
  | string {value : String} (h : IsContent value.toList) : Printable (.string value)
  | boolean {value : Bool} : Printable (.boolean value)
  | null : Printable .null
  | name {name : String} (h : IsName name) : Printable (.name name)
  | binary {op : BinaryOp} {left right : Expr} (hop : op ∈ BinaryOp.all)
      (hleft : Printable left) (hright : Printable right) : Printable (.binary op left right)
  | negate {operand : Expr} (hnumber : ∀ value, operand ≠ .number value)
      (h : Printable operand) : Printable (.unary .negate operand)
  | not {operand : Expr} (h : Printable operand) : Printable (.unary .not operand)
  | call {callee : String} {args : List Expr} (hcallee : IsName callee)
      (hargs : ∀ arg ∈ args, Printable arg) : Printable (.call callee args)

end Expr

/-! ## Statements -/

/-- The words of a block: each of its statements on a line of its own. -/
def braced (words : List Word) : List Word :=
  TokenKind.leftBrace.word :: TokenKind.newline.word :: (words ++ [TokenKind.rightBrace.word])

/-- The words of names in parentheses, with commas between them. -/
def nameWords : List String → List Word
  | [] => []
  | [name] => [⟨.identifier, name⟩]
  | name :: other :: rest =>
    ⟨.identifier, name⟩ :: TokenKind.comma.word :: nameWords (other :: rest)

section

variable (spell : Float → Numeral)

mutual

/-- The words that a statement is written as, the end of its line included. -/
def Stmt.words : Stmt → List Word
  | .declare name value _ =>
    TokenKind.declare.word :: ⟨.identifier, name⟩ :: TokenKind.assign.word ::
      (value.words spell ++ [TokenKind.newline.word])
  | .assign name value _ =>
    ⟨.identifier, name⟩ :: TokenKind.assign.word ::
      (value.words spell ++ [TokenKind.newline.word])
  | .print value _ =>
    TokenKind.print.word :: (value.words spell ++ [TokenKind.newline.word])
  | .ifThen condition body alternative _ =>
    TokenKind.ifWord.word ::
      (condition.words spell ++ (braced (Stmt.listWords body) ++ alternative.words))
  | .whileDo condition body _ =>
    TokenKind.whileWord.word ::
      (condition.words spell ++ (braced (Stmt.listWords body) ++ [TokenKind.newline.word]))
  | .breakLoop _ => [TokenKind.breakWord.word, TokenKind.newline.word]
  | .continueLoop _ => [TokenKind.continueWords.word, TokenKind.newline.word]
  | .function name params body _ =>
    TokenKind.functionWord.word :: ⟨.identifier, name⟩ :: TokenKind.leftParen.word ::
      (nameWords params ++ TokenKind.rightParen.word ::
        (braced (Stmt.listWords body) ++ [TokenKind.newline.word]))
  | .returnValue none _ => [TokenKind.returnWord.word, TokenKind.newline.word]
  | .returnValue (some value) _ =>
    TokenKind.returnWord.word :: (value.words spell ++ [TokenKind.newline.word])
  | .misplaced _ => []

def Stmt.listWords : List Stmt → List Word
  | [] => []
  | stmt :: rest => stmt.words ++ Stmt.listWords rest

/-- The words after the first block of an `ifThen`, the end of the last line included. -/
def Alternative.words : Alternative → List Word
  | .nothing => [TokenKind.newline.word]
  | .otherwise body =>
    TokenKind.elseWord.word :: (braced (Stmt.listWords body) ++ [TokenKind.newline.word])
  | .elseIf condition body next =>
    TokenKind.elseIf.word ::
      (condition.words spell ++ (braced (Stmt.listWords body) ++ next.words))

end

mutual

/-- How many statements and operands the innermost part of the written statement is in, itself
included. -/
def Stmt.nesting : Stmt → Nat
  | .declare _ value _ | .assign _ value _ | .print value _ | .returnValue (some value) _ =>
    value.nesting spell + 1
  | .ifThen condition body alternative _ =>
    max (condition.nesting spell) (max (Stmt.listNesting body) alternative.nesting) + 1
  | .whileDo condition body _ => max (condition.nesting spell) (Stmt.listNesting body) + 1
  | .function _ _ body _ => Stmt.listNesting body + 1
  | _ => 1

def Stmt.listNesting : List Stmt → Nat
  | [] => 0
  | stmt :: rest => max stmt.nesting (Stmt.listNesting rest)

def Alternative.nesting : Alternative → Nat
  | .nothing => 0
  | .otherwise body => Stmt.listNesting body
  | .elseIf condition body next =>
    max (condition.nesting spell) (max (Stmt.listNesting body) next.nesting)

end

end

mutual

/-- The statements that can be written. -/
inductive Stmt.Printable : Stmt → Prop
  | declare {name : String} {value : Expr} {line : Option Int} (hname : IsName name)
      (h : value.Printable) : Stmt.Printable (.declare name value line)
  | assign {name : String} {value : Expr} {line : Option Int} (hname : IsName name)
      (h : value.Printable) : Stmt.Printable (.assign name value line)
  | print {value : Expr} {line : Option Int} (h : value.Printable) :
      Stmt.Printable (.print value line)
  | ifThen {condition : Expr} {body : List Stmt} {alternative : Alternative} {line : Option Int}
      (hcondition : condition.Printable) (hbody : ∀ stmt ∈ body, Stmt.Printable stmt)
      (halternative : Alternative.Printable alternative) :
      Stmt.Printable (.ifThen condition body alternative line)
  | whileDo {condition : Expr} {body : List Stmt} {line : Option Int}
      (hcondition : condition.Printable) (hbody : ∀ stmt ∈ body, Stmt.Printable stmt) :
      Stmt.Printable (.whileDo condition body line)
  | breakLoop {line : Option Int} : Stmt.Printable (.breakLoop line)
  | continueLoop {line : Option Int} : Stmt.Printable (.continueLoop line)
  | function {name : String} {params : List String} {body : List Stmt} {line : Option Int}
      (hname : IsName name) (hparams : ∀ param ∈ params, IsName param)
      (hbody : ∀ stmt ∈ body, Stmt.Printable stmt) :
      Stmt.Printable (.function name params body line)
  | returnNothing {line : Option Int} : Stmt.Printable (.returnValue none line)
  | returnValue {value : Expr} {line : Option Int} (h : value.Printable) :
      Stmt.Printable (.returnValue (some value) line)

/-- The alternatives that can be written. -/
inductive Alternative.Printable : Alternative → Prop
  | nothing : Alternative.Printable .nothing
  | otherwise {body : List Stmt} (hbody : ∀ stmt ∈ body, Stmt.Printable stmt) :
      Alternative.Printable (.otherwise body)
  | elseIf {condition : Expr} {body : List Stmt} {next : Alternative}
      (hcondition : condition.Printable) (hbody : ∀ stmt ∈ body, Stmt.Printable stmt)
      (hnext : Alternative.Printable next) : Alternative.Printable (.elseIf condition body next)

end

/-! ## Programs -/

namespace Program

/-- The words that a program is written as. -/
def words (spell : Float → Numeral) (P : Program) : List Word :=
  TokenKind.programStart.word :: TokenKind.newline.word ::
    (Stmt.listWords spell P.statements ++ [TokenKind.programEnd.word])

/-- The source of a program. -/
def source (spell : Float → Numeral) (P : Program) : String :=
  String.ofList (Word.render (P.words spell))

/-- How deeply the parts of the written program are nested. -/
def nesting (spell : Float → Numeral) (P : Program) : Nat := Stmt.listNesting spell P.statements

/-- The programs that can be written. -/
def Printable (P : Program) : Prop := ∀ stmt ∈ P.statements, stmt.Printable

end Program

end Bol
