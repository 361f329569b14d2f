/-
# The grammar

Which tokens spell which program, said without reading them in any order. A phrase relates a list
of tokens to the tree it stands for. The phrases of the language are built from each other as the
rules of the grammar are: first each rule over any choice of the phrases it is made of, then the
least choice that obeys all rules.

A rule whose parts are phrases up to some length only needs those parts. So a phrase is also what
a bounded number of rules, nested in each other, makes of its tokens: this is the form that a
reader with a bound on its depth can be compared with.
-/

import Bol.Program.Parse

namespace Bol

/-- Only a number takes a minus sign before it in. -/
theorem Expr.negated_of_ne {operand : Expr} (h : ∀ value, operand ≠ .number value) :
    operand.negated = .unary .negate operand := by
  cases operand with
  | number value => exact absurd rfl (h value)
  | _ => rfl

namespace Grammar

/-- Which lists of tokens are a phrase of some sort, and what they stand for. -/
abbrev Phrase (α : Type) : Type := List Token → α → Prop

/-! ## Rules for expressions -/

section

variable {α : Type} (isOp : TokenKind → Bool) (item : Phrase α) (operand expression : Phrase Expr)

/-- Operands with operators between them, grouped from the left. -/
inductive Joined : Phrase Expr
  | single {ts : List Token} {e : Expr} (hoperand : operand ts e) : Joined ts e
  | more {left right : List Token} {op : Token} {a b : Expr} (hleft : Joined left a)
      (hop : isOp op.kind = true) (hright : operand right b) :
      Joined (left ++ op :: right) (.binary (.ofSpelling op.value) a b)

/-- One operand, or two with a comparison between them. -/
inductive Compared : Phrase Expr
  | single {ts : List Token} {e : Expr} (hoperand : operand ts e) : Compared ts e
  | pair {left right : List Token} {op : Token} {a b : Expr} (hleft : operand left a)
      (hop : op.kind.isComparison = true) (hright : operand right b) :
      Compared (left ++ op :: right) (.binary (.ofSpelling op.value) a b)

/-- One or more items with commas between them. -/
inductive Listed : Phrase (List α)
  | one {ts : List Token} {a : α} (hitem : item ts a) : Listed ts [a]
  | more {ts us : List Token} {comma : Token} {a : α} {as : List α} (hitem : item ts a)
      (hcomma : comma.kind = .comma) (hrest : Listed us as) : Listed (ts ++ comma :: us) (a :: as)

/-- Any number of items in parentheses, with commas between them. -/
inductive Parenthesised : Phrase (List α)
  | none {l r : Token} (hl : l.kind = .leftParen) (hr : r.kind = .rightParen) :
      Parenthesised [l, r] []
  | some {l r : Token} {ts : List Token} {as : List α} (hl : l.kind = .leftParen)
      (hitems : Listed item ts as) (hr : r.kind = .rightParen) :
      Parenthesised (l :: (ts ++ [r])) as

/-- An operand of a product: what stands between two operators. A minus sign before a number
literal, whatever the literal came of, is the literal of the opposite number. -/
inductive OperandOf : Phrase Expr
  | not {t : Token} {ts : List Token} {e : Expr} (ht : t.kind = .notWord) (h : operand ts e) :
      OperandOf (t :: ts) (.unary (.ofSpelling t.value) e)
  | minusNumber {t : Token} {ts : List Token} {x : Float} (ht : t.kind = .minus)
      (h : operand ts (.number x)) : OperandOf (t :: ts) (.number (-x))
  | minus {t : Token} {ts : List Token} {e : Expr} (ht : t.kind = .minus) (h : operand ts e)
      (hnumber : ∀ x, e ≠ .number x) : OperandOf (t :: ts) (.unary .negate e)
  | number {t : Token} {x : Float} (ht : t.kind = .number) (hx : Number.ofText? t.value = some x) :
      OperandOf [t] (.number x)
  | string {t : Token} (ht : t.kind = .string) : OperandOf [t] (.string t.value)
  | true {t : Token} (ht : t.kind = .trueWord) : OperandOf [t] (.boolean true)
  | false {t : Token} (ht : t.kind = .falseWord) : OperandOf [t] (.boolean false)
  | null {t : Token} (ht : t.kind = .nullWord) : OperandOf [t] .null
  | name {t : Token} (ht : t.kind = .identifier) : OperandOf [t] (.name t.value)
  | call {t : Token} {ts : List Token} {args : List Expr} (ht : t.kind = .identifier)
      (hargs : Parenthesised expression ts args) : OperandOf (t :: ts) (.call t.value args)
  | parens {l r : Token} {ts : List Token} {e : Expr} (hl : l.kind = .leftParen)
      (h : expression ts e) (hr : r.kind = .rightParen) : OperandOf (l :: (ts ++ [r])) e

/-- An expression over the given operands, by falling precedence: products, sums, comparisons,
`ani`, `kinva`. -/
def expressionOf : Phrase Expr :=
  Joined (· == .orWord) <| Joined (· == .andWord) <| Compared <| Joined TokenKind.isAdditive <|
    Joined TokenKind.isMultiplicative operand

/-- An operand. The expressions inside are those of `expressionOf`, written out here. -/
inductive Operand : Phrase Expr
  | intro {ts : List Token} {e : Expr}
      (h : OperandOf Operand (Joined (· == .orWord) (Joined (· == .andWord) (Compared
        (Joined TokenKind.isAdditive (Joined TokenKind.isMultiplicative Operand))))) ts e) :
      Operand ts e

/-- An expression. -/
def Expression : Phrase Expr := expressionOf Operand

variable {operand expression}

/-- The two rules for a minus sign as one. -/
theorem OperandOf.negated {t : Token} {ts : List Token} {e : Expr} (ht : t.kind = .minus)
    (h : operand ts e) : OperandOf operand expression (t :: ts) e.negated := by
  cases e with
  | number x => exact .minusNumber ht h
  | _ => exact .minus ht h nofun

end

/-! ## Rules for statements -/

/-- At most one line end. -/
inductive Break : List Token → Prop
  | none : Break []
  | one {t : Token} (ht : t.kind = .newline) : Break [t]

theorem Break.isLineEnd {line : List Token} (h : Break line) :
    ∀ t ∈ line, t.kind = .newline := by
  cases h with
  | none => simp
  | one ht => simpa using ht

/-- The name of a parameter. -/
inductive Parameter : Phrase String
  | intro {t : Token} (ht : t.kind = .identifier) : Parameter [t] t.value

section

variable (value : Phrase Expr) (block statements : Phrase (List Stmt))
  (simple compound : Phrase Stmt)

/-- Statements in braces. -/
inductive Block : Phrase (List Stmt)
  | intro {l r : Token} {ts : List Token} {body : List Stmt} (hl : l.kind = .leftBrace)
      (h : statements ts body) (hr : r.kind = .rightBrace) : Block (l :: (ts ++ [r])) body

/-- A condition and the block it guards. -/
inductive Clause : Phrase (Expr × List Stmt)
  | intro {test line ts : List Token} {condition : Expr} {body : List Stmt}
      (htest : value test condition) (hline : Break line) (hbody : block ts body) :
      Clause (test ++ (line ++ ts)) (condition, body)

/-- What follows the first block of an `ifThen`. -/
inductive AlternativeOf : Phrase Alternative
  | nothing : AlternativeOf [] .nothing
  | otherwise {before after ts : List Token} {word : Token} {body : List Stmt}
      (hbefore : Break before) (hword : word.kind = .elseWord) (hafter : Break after)
      (hbody : block ts body) : AlternativeOf (before ++ word :: (after ++ ts)) (.otherwise body)
  | elseIf {before ts us : List Token} {word : Token} {clause : Expr × List Stmt}
      {next : Alternative} (hbefore : Break before) (hword : word.kind = .elseIf)
      (hclause : Clause value block ts clause) (hnext : AlternativeOf us next) :
      AlternativeOf (before ++ word :: (ts ++ us)) (.elseIf clause.1 clause.2 next)

/-- A statement without a block. -/
inductive Simple : Phrase Stmt
  | declare {t name is : Token} {ts : List Token} {e : Expr} (ht : t.kind = .declare)
      (hname : name.kind = .identifier) (his : is.kind = .assign) (h : value ts e) :
      Simple (t :: name :: is :: ts) (.declare name.value e t.line)
  | assign {name is : Token} {ts : List Token} {e : Expr} (hname : name.kind = .identifier)
      (his : is.kind = .assign) (h : value ts e) :
      Simple (name :: is :: ts) (.assign name.value e name.line)
  | print {t : Token} {ts : List Token} {e : Expr} (ht : t.kind = .print) (h : value ts e) :
      Simple (t :: ts) (.print e t.line)
  | breakLoop {t : Token} (ht : t.kind = .breakWord) : Simple [t] (.breakLoop t.line)
  | continueLoop {t : Token} (ht : t.kind = .continueWords) : Simple [t] (.continueLoop t.line)
  | returnNothing {t : Token} (ht : t.kind = .returnWord) : Simple [t] (.returnValue none t.line)
  | returnValue {t : Token} {ts : List Token} {e : Expr} (ht : t.kind = .returnWord)
      (h : value ts e) : Simple (t :: ts) (.returnValue (some e) t.line)

/-- A statement with a block. -/
inductive Compound : Phrase Stmt
  | ifThen {t : Token} {ts us : List Token} {clause : Expr × List Stmt} {next : Alternative}
      (ht : t.kind = .ifWord) (hclause : Clause value block ts clause)
      (hnext : AlternativeOf value block us next) :
      Compound (t :: (ts ++ us)) (.ifThen clause.1 clause.2 next t.line)
  | whileDo {t : Token} {ts : List Token} {clause : Expr × List Stmt} (ht : t.kind = .whileWord)
      (hclause : Clause value block ts clause) :
      Compound (t :: ts) (.whileDo clause.1 clause.2 t.line)
  | function {t name : Token} {ts line us : List Token} {params : List String} {body : List Stmt}
      (ht : t.kind = .functionWord) (hname : name.kind = .identifier)
      (hparams : Parenthesised Parameter ts params) (hline : Break line) (hbody : block us body) :
      Compound (t :: name :: (ts ++ (line ++ us))) (.function name.value params body t.line)

/-- Statements one after the other, with any number of line ends around them. One line end has to
follow a simple statement that is not the last. -/
inductive ListOf : Phrase (List Stmt)
  | done : ListOf [] []
  | lineEnd {t : Token} {ts : List Token} {rest : List Stmt} (ht : t.kind = .newline)
      (hrest : ListOf ts rest) : ListOf (t :: ts) rest
  | compound {ts us : List Token} {a : Stmt} {rest : List Stmt} (h : compound ts a)
      (hrest : ListOf us rest) : ListOf (ts ++ us) (a :: rest)
  | simple {ts us : List Token} {t : Token} {a : Stmt} {rest : List Stmt} (h : simple ts a)
      (ht : t.kind = .newline) (hrest : ListOf us rest) : ListOf (ts ++ t :: us) (a :: rest)
  | last {ts : List Token} {a : Stmt} (h : simple ts a) : ListOf ts [a]

/-- A list of statements. -/
inductive Statements : Phrase (List Stmt)
  | intro {ts : List Token} {body : List Stmt}
      (h : ListOf (Simple Expression)
        (Compound Expression (Block Statements)) ts body) : Statements ts body

/-- A program between its markers, whatever stands after the closing one. -/
inductive Marked : Phrase Program
  | intro {start line stop : Token} {ts after : List Token} {body : List Stmt}
      (hstart : start.kind = .programStart) (hline : line.kind = .newline)
      (hbody : statements ts body) (hstop : stop.kind = .programEnd) :
      Marked (start :: line :: (ts ++ stop :: after)) ⟨body⟩
  | empty {start stop : Token} {after : List Token} (hstart : start.kind = .programStart)
      (hstop : stop.kind = .programEnd) : Marked (start :: stop :: after) ⟨[]⟩

/-- Statements without markers, up to the end of the input. -/
inductive Unmarked : Phrase Program
  | intro {ts : List Token} {stop : Token} {body : List Stmt} (hbody : statements ts body)
      (hstop : stop.kind = .endOfInput) : Unmarked (ts ++ [stop]) ⟨body⟩

end

end Grammar

/-! ## First tokens -/

/-- The kinds that an operand starts with. -/
def TokenKind.startsOperand : TokenKind → Bool
  | .notWord | .minus | .number | .string | .trueWord | .falseWord | .nullWord | .identifier
  | .leftParen => true
  | _ => false

/-- The kinds that a statement starts with. -/
def TokenKind.startsStatement : TokenKind → Bool
  | .declare | .identifier | .print | .breakWord | .continueWords | .returnWord | .ifWord
  | .whileWord | .functionWord => true
  | _ => false

namespace Grammar

/-- A phrase of this sort has a first token, of one of the given kinds. -/
def Starts {α : Type} (kinds : TokenKind → Bool) (phrase : Phrase α) : Prop :=
  ∀ ts a, phrase ts a → ∃ t rest, ts = t :: rest ∧ kinds t.kind = true

section

variable {α : Type} {kinds isOp : TokenKind → Bool} {item : Phrase α}
  {operand value : Phrase Expr} {block : Phrase (List Stmt)} {simple compound : Phrase Stmt}

theorem starts_operandOf : Starts TokenKind.startsOperand (OperandOf operand value) := by
  intro ts e h
  cases h with
  | not ht | minusNumber ht | minus ht | number ht | string ht | true ht | false ht | null ht
  | name ht | call ht | parens ht => exact ⟨_, _, rfl, by rw [ht]; rfl⟩

theorem Starts.joined (h : Starts kinds operand) : Starts kinds (Joined isOp operand) := by
  intro ts e hjoined
  induction hjoined with
  | single hoperand => exact h _ _ hoperand
  | more _ _ _ ih =>
      obtain ⟨t, rest, rfl, ht⟩ := ih
      exact ⟨t, _, rfl, ht⟩

theorem Starts.compared (h : Starts kinds operand) : Starts kinds (Compared operand) := by
  intro ts e hcompared
  cases hcompared with
  | single hoperand => exact h _ _ hoperand
  | pair hleft =>
      obtain ⟨t, rest, rfl, ht⟩ := h _ _ hleft
      exact ⟨t, _, rfl, ht⟩

theorem Starts.expressionOf (h : Starts kinds operand) : Starts kinds (expressionOf operand) :=
  h.joined.joined.compared.joined.joined

theorem Starts.listed (h : Starts kinds item) : Starts kinds (Listed item) := by
  intro ts as hlisted
  cases hlisted with
  | one hitem => exact h _ _ hitem
  | more hitem =>
      obtain ⟨t, rest, rfl, ht⟩ := h _ _ hitem
      exact ⟨t, _, rfl, ht⟩

theorem starts_simple : Starts TokenKind.startsStatement (Simple value) := by
  intro ts a h
  cases h with
  | declare ht | assign ht | print ht | breakLoop ht | continueLoop ht | returnNothing ht
  | returnValue ht => exact ⟨_, _, rfl, by rw [ht]; rfl⟩

theorem starts_compound : Starts TokenKind.startsStatement (Compound value block) := by
  intro ts a h
  cases h with
  | ifThen ht | whileDo ht | function ht => exact ⟨_, _, rfl, by rw [ht]; rfl⟩

/-- A list of statements starts with a line end or with a statement. -/
theorem ListOf.first (hsimple : Starts TokenKind.startsStatement simple)
    (hcompound : Starts TokenKind.startsStatement compound) {ts : List Token} {t : Token}
    {body : List Stmt} (h : ListOf simple compound (t :: ts) body) :
    t.kind = .newline ∨ t.kind.startsStatement = true := by
  generalize hall : t :: ts = all at h
  cases h with
  | done => contradiction
  | lineEnd ht =>
      obtain ⟨rfl, _⟩ := List.cons.inj hall
      exact .inl ht
  | compound hfirst =>
      obtain ⟨_, _, rfl, ht⟩ := hcompound _ _ hfirst
      obtain ⟨rfl, _⟩ := List.cons.inj hall
      exact .inr ht
  | simple hfirst =>
      obtain ⟨_, _, rfl, ht⟩ := hsimple _ _ hfirst
      obtain ⟨rfl, _⟩ := List.cons.inj hall
      exact .inr ht
  | last hfirst =>
      obtain ⟨_, _, rfl, ht⟩ := hsimple _ _ hfirst
      obtain ⟨rfl, _⟩ := List.cons.inj hall
      exact .inr ht

/-- What follows a line end at the front of a list of statements is the same list. -/
theorem ListOf.of_lineEnd (hsimple : Starts TokenKind.startsStatement simple)
    (hcompound : Starts TokenKind.startsStatement compound) {ts : List Token} {t : Token}
    {body : List Stmt} (h : ListOf simple compound (t :: ts) body) (ht : t.kind = .newline) :
    ListOf simple compound ts body := by
  have hnot : ¬ t.kind.startsStatement = true := by simp [ht, TokenKind.startsStatement]
  generalize hall : t :: ts = all at h
  cases h with
  | done => contradiction
  | lineEnd _ hrest =>
      obtain ⟨_, rfl⟩ := List.cons.inj hall
      exact hrest
  | compound hfirst =>
      obtain ⟨_, _, rfl, hstart⟩ := hcompound _ _ hfirst
      obtain ⟨rfl, _⟩ := List.cons.inj hall
      contradiction
  | simple hfirst =>
      obtain ⟨_, _, rfl, hstart⟩ := hsimple _ _ hfirst
      obtain ⟨rfl, _⟩ := List.cons.inj hall
      contradiction
  | last hfirst =>
      obtain ⟨_, _, rfl, hstart⟩ := hsimple _ _ hfirst
      obtain ⟨rfl, _⟩ := List.cons.inj hall
      contradiction

theorem ListOf.eq_nil (hsimple : Starts TokenKind.startsStatement simple)
    (hcompound : Starts TokenKind.startsStatement compound) {body : List Stmt}
    (h : ListOf simple compound [] body) : body = [] := by
  generalize hall : [] = all at h
  cases h with
  | done => rfl
  | lineEnd => contradiction
  | compound hfirst =>
      obtain ⟨_, _, rfl, _⟩ := hcompound _ _ hfirst
      contradiction
  | simple => simp at hall
  | last hfirst =>
      obtain ⟨_, _, rfl, _⟩ := hsimple _ _ hfirst
      contradiction

/-- No statement starts with a token that closes the list it would be in. -/
theorem ListOf.eq_nil_of_closesList (hsimple : Starts TokenKind.startsStatement simple)
    (hcompound : Starts TokenKind.startsStatement compound) {ts rest : List Token}
    {body : List Stmt} (h : ListOf simple compound ts body)
    (hcloses : (Parser.current (ts ++ rest)).kind.closesList = true) : ts = [] ∧ body = [] := by
  cases ts with
  | nil => exact ⟨rfl, h.eq_nil hsimple hcompound⟩
  | cons t ts =>
      change t.kind.closesList = true at hcloses
      rcases h.first hsimple hcompound with ht | ht <;> cases hkind : t.kind <;>
        simp [hkind, TokenKind.startsStatement, TokenKind.closesList] at ht hcloses

/-- Any number of line ends may stand before a list of statements. -/
theorem ListOf.lineEnds {lines ts : List Token} {body : List Stmt}
    (hlines : ∀ t ∈ lines, t.kind = .newline) (h : ListOf simple compound ts body) :
    ListOf simple compound (lines ++ ts) body := by
  induction lines with
  | nil => exact h
  | cons t lines ih =>
      rw [List.forall_mem_cons] at hlines
      exact .lineEnd hlines.1 (ih hlines.2)

end

end Grammar

end Bol
