/-
# Reading translated tokens

Readers treat tokens alike that differ in what readers do not look at, and what they make of a tree
is made of its parts. A `Translation` says what becomes of tokens and of trees, and what readers
need to know of it: from the translated tokens, the same reader, or one that does something else
with minus signs, finds the translation of what is found in the tokens themselves, or the same error
at the translated token.
-/

import Bol.Proofs.Program.Readers

namespace Bol

/-- The same error for another token. -/
def ParseError.map (f : Token → Token) : ParseError → ParseError
  | .expected kind found => .expected kind (f found)
  | .noExpression found => .noExpression (f found)
  | .noStatement found => .noStatement (f found)
  | .callStatement name => .callStatement (f name)
  | .afterStatement found => .afterStatement (f found)

/-- What becomes of tokens and trees where tokens of the kinds and values that are admitted are
translated, and minus signs are read as `minus'` says and not as `minus` does. -/
structure Translation (minus minus' : Expr → Expr) where
  token : Token → Token
  admits : Token → Prop
  expr : Expr → Expr
  stmt : Stmt → Stmt
  alternative : Alternative → Alternative
  token_kind : ∀ t, (token t).kind = t.kind
  token_value : ∀ t, (token t).value = t.value
  /-- The end of the input that a list lacks stays as it is. -/
  token_end : token (Parser.current []) = Parser.current []
  admits_end : admits (Parser.current [])
  expr_number : ∀ value, expr (.number value) = .number value
  expr_string : ∀ value, expr (.string value) = .string value
  expr_boolean : ∀ value, expr (.boolean value) = .boolean value
  expr_null : expr .null = .null
  expr_name : ∀ name, expr (.name name) = .name name
  expr_binary : ∀ op left right, expr (.binary op left right) = .binary op (expr left) (expr right)
  expr_call : ∀ callee args, expr (.call callee args) = .call callee (args.map expr)
  expr_not : ∀ t e, admits t → t.kind = .notWord →
    expr (.unary (.ofSpelling t.value) e) = .unary (.ofSpelling t.value) (expr e)
  expr_minus : ∀ e, expr (minus e) = minus' (expr e)
  stmt_declare : ∀ name value (t : Token), stmt (.declare name value (some t.line)) =
    .declare name (expr value) (some (token t).line)
  stmt_assign : ∀ name value (t : Token), stmt (.assign name value (some t.line)) =
    .assign name (expr value) (some (token t).line)
  stmt_print : ∀ value (t : Token), stmt (.print value (some t.line)) =
    .print (expr value) (some (token t).line)
  stmt_ifThen : ∀ condition body otherwise (t : Token),
    stmt (.ifThen condition body otherwise (some t.line)) =
      .ifThen (expr condition) (body.map stmt) (alternative otherwise) (some (token t).line)
  stmt_whileDo : ∀ condition body (t : Token), stmt (.whileDo condition body (some t.line)) =
    .whileDo (expr condition) (body.map stmt) (some (token t).line)
  stmt_breakLoop : ∀ t : Token, stmt (.breakLoop (some t.line)) = .breakLoop (some (token t).line)
  stmt_continueLoop : ∀ t : Token,
    stmt (.continueLoop (some t.line)) = .continueLoop (some (token t).line)
  stmt_function : ∀ name params body (t : Token),
    stmt (.function name params body (some t.line)) =
      .function name params (body.map stmt) (some (token t).line)
  stmt_returnValue : ∀ value (t : Token), stmt (.returnValue value (some t.line)) =
    .returnValue (value.map expr) (some (token t).line)
  alternative_ofClauses : ∀ clauses last, alternative (.ofClauses clauses last) =
    .ofClauses (clauses.map (Prod.map expr (List.map stmt))) (last.map (List.map stmt))

namespace Translation

variable {minus minus' : Expr → Expr} (T : Translation minus minus')

/-- A translated program. -/
def program (P : Program) : Program := ⟨P.statements.map T.stmt⟩

/-- What is read from translated tokens, `f` being what becomes of what is read from the tokens. -/
def outcome {α β : Type} (f : α → β) :
    Except ParseStop (α × List Token) → Except ParseStop (β × List Token)
  | .ok (a, rest) => .ok (f a, rest.map T.token)
  | .error (.error error) => .error (.error (error.map T.token))
  | .error .tooDeep => .error .tooDeep
  | .error (.notNumber text) => .error (.notNumber text)

end Translation

namespace Parser

variable {minus minus' : Expr → Expr}

/-- From the translations of tokens that are admitted, the second reader finds what `f` makes of
what the first one finds, or the same error at a translated token; all tokens that the first one
leaves are admitted. -/
def Follows {α β : Type} (T : Translation minus minus') (f : α → β) (p : Parser α)
    (p' : Parser β) : Prop :=
  ∀ ts, (∀ t ∈ ts, T.admits t) →
    p' (ts.map T.token) = T.outcome f (p ts) ∧
      ∀ a rest, p ts = .ok (a, rest) → ∀ t ∈ rest, T.admits t

namespace Follows

variable {α β γ δ : Type} {T : Translation minus minus'} {f : α → β} {h : γ → δ} {n : Nat}
  {p : Parser α} {p' : Parser β}

theorem bind {next : α → Parser γ} {next' : β → Parser δ} (hp : Follows T f p p')
    (hnext : ∀ a, Follows T h (next a) (next' (f a))) :
    Follows T h (p >>= next) (p' >>= next') := by
  intro ts hts
  obtain ⟨hread, hrest⟩ := hp ts hts
  rw [bind_apply, bind_apply, hread]
  rcases hfound : p ts with (error | _ | text) | ⟨a, rest⟩
  · exact ⟨rfl, nofun⟩
  · exact ⟨rfl, nofun⟩
  · exact ⟨rfl, nofun⟩
  · exact hnext a rest (hrest a rest hfound)

theorem pure (a : α) : Follows T f (Pure.pure a) (Pure.pure (f a)) := by
  refine fun ts hts => ⟨rfl, fun a' rest hread => ?_⟩
  cases hread
  exact hts

theorem pure_of_eq {a : α} {b : β} (hsame : b = f a) : Follows T f (Pure.pure a) (Pure.pure b) :=
  hsame ▸ pure a

theorem fail (error : ParseError) :
    Follows T f (fail error : Parser α) (Parser.fail (error.map T.token)) :=
  fun _ _ => ⟨rfl, nofun⟩

theorem tooDeep : Follows T f (tooDeep : Parser α) Parser.tooDeep := fun _ _ => ⟨rfl, nofun⟩

theorem ite {c : Prop} [Decidable c] {q : Parser α} {q' : Parser β} (hp : Follows T f p p')
    (hq : Follows T f q q') : Follows T f (if c then p else q) (if c then p' else q') := by
  split
  · exact hp
  · exact hq

theorem current_map (ts : List Token) :
    current (ts.map T.token) = T.token (current ts) := by
  cases ts with
  | nil => exact T.token_end.symm
  | cons t ts => rfl

theorem admits_current {ts : List Token} (hts : ∀ t ∈ ts, T.admits t) : T.admits (current ts) := by
  cases ts with
  | nil => exact T.admits_end
  | cons t ts => exact hts t List.mem_cons_self

/-- Looking at the first token, which is admitted. -/
theorem peek_bind {next : Token → Parser α} {next' : Token → Parser β}
    (hnext : ∀ t, T.admits t → Follows T f (next t) (next' (T.token t))) :
    Follows T f (peek >>= next) (peek >>= next') := by
  intro ts hts
  rw [bind_apply, bind_apply]
  dsimp only [Parser.peek]
  rw [current_map]
  exact hnext _ (admits_current hts) ts hts

theorem peek : Follows T T.token peek peek := by
  intro ts hts
  refine ⟨?_, fun a rest hread => ?_⟩
  · rw [Parser.peek, Parser.peek, current_map]
    rfl
  · cases hread
    exact hts

theorem advance : Follows T T.token advance advance := by
  intro ts hts
  refine ⟨?_, fun a rest hread t ht => ?_⟩
  · rw [Parser.advance, Parser.advance, current_map]
    cases ts with
    | nil => rfl
    | cons t ts =>
        rw [List.map_cons, afterCurrent, afterCurrent, T.token_kind]
        by_cases hend : t.kind = .endOfInput <;> simp [Translation.outcome, hend]
  · cases hread
    exact hts t (afterCurrent_subset ts ht)

theorem accept (kind : TokenKind) : Follows T id (accept kind) (accept kind) := by
  refine peek.bind fun t => ?_
  rw [T.token_kind]
  exact ite (advance.bind fun _ => pure _) (pure _)

theorem expect (kind : TokenKind) : Follows T T.token (expect kind) (expect kind) := by
  refine peek.bind fun t => ?_
  rw [T.token_kind]
  exact ite advance (fail _)

theorem skipLineEnd : Follows T id skipLineEnd skipLineEnd :=
  (accept _).bind fun _ => pure _

theorem endStatement : Follows T id endStatement endStatement := by
  refine peek.bind fun t => ?_
  rw [T.token_kind]
  exact ite (advance.bind fun _ => pure _) (ite (pure _) (fail _))

/-! ## Expressions -/

section Expressions

variable {isOp : TokenKind → Bool} {value value' : Parser Expr}

theorem chain (hvalue : Follows T T.expr value value') (left : Expr) :
    Follows T T.expr (chain isOp value n left) (chain isOp value' n (T.expr left)) := by
  induction n generalizing left with
  | zero => exact pure left
  | succ n ih =>
      refine peek.bind fun t => ?_
      rw [T.token_kind]
      refine ite (advance.bind fun op => hvalue.bind fun right => ?_) (pure _)
      rw [T.token_value, ← T.expr_binary]
      exact ih _

theorem leftAssociative (hvalue : Follows T T.expr value value') :
    Follows T T.expr (leftAssociative n isOp value) (leftAssociative n isOp value') :=
  hvalue.bind fun left => chain hvalue left

theorem comparison (hvalue : Follows T T.expr value value') :
    Follows T T.expr (comparison value) (comparison value') := by
  refine hvalue.bind fun left => peek.bind fun t => ?_
  rw [T.token_kind]
  refine ite (advance.bind fun op => hvalue.bind fun right => pure_of_eq ?_) (pure _)
  rw [T.token_value, T.expr_binary]

theorem expressionOf (hvalue : Follows T T.expr value value') :
    Follows T T.expr (expressionOf n value) (expressionOf n value') :=
  leftAssociative (leftAssociative (comparison (leftAssociative (leftAssociative hvalue))))

theorem moreItems (hp : Follows T f p p') (items : List α) :
    Follows T (List.map f) (moreItems p n items) (moreItems p' n (items.map f)) := by
  have hdone : ∀ items, Follows T (List.map f) (Pure.pure (List.reverse items))
      (Pure.pure (items.map f).reverse) := fun _ => pure_of_eq List.map_reverse.symm
  induction n generalizing items with
  | zero => exact hdone items
  | succ n ih =>
      exact (accept _).bind fun _ => ite (hp.bind fun next => ih (next :: items)) (hdone items)

theorem listOf (hp : Follows T f p p') : Follows T (List.map f) (listOf n p) (listOf n p') := by
  refine (expect _).bind fun _ => peek.bind fun t => ?_
  rw [T.token_kind]
  refine ite (Follows.bind (f := List.map f) (pure []) fun _ => ?_)
    (hp.bind fun first => (moreItems hp [first]).bind fun _ => ?_)
  all_goals exact (expect _).bind fun _ => pure _

theorem numberLiteral (text : String) :
    Follows T T.expr (numberLiteral text) (numberLiteral text) := by
  unfold Parser.numberLiteral
  cases Number.ofText? text with
  | none => exact fun _ _ => ⟨rfl, nofun⟩
  | some value => exact pure_of_eq (T.expr_number _).symm

theorem primary (hvalue : Follows T T.expr value value') :
    Follows T T.expr (primary n value) (primary n value') := by
  refine advance.bind fun t => ?_
  rw [T.token_kind, T.token_value]
  split
  case h_1 => exact numberLiteral _
  case h_2 => exact pure_of_eq (T.expr_string _).symm
  case h_3 | h_4 => exact pure_of_eq (T.expr_boolean _).symm
  case h_5 => exact pure_of_eq T.expr_null.symm
  case h_6 =>
    refine peek.bind fun t => ?_
    rw [T.token_kind]
    exact ite ((listOf hvalue).bind fun _ => pure_of_eq (T.expr_call _ _).symm)
      (pure_of_eq (T.expr_name _).symm)
  case h_7 => exact hvalue.bind fun _ => (expect _).bind fun _ => pure _
  case h_8 => exact fail _

theorem operand (depth : Nat) :
    Follows T T.expr (operand minus n depth) (operand minus' n depth) := by
  induction depth with
  | zero => exact tooDeep
  | succ depth ih =>
      refine peek_bind fun t ht => ?_
      rw [T.token_kind, T.token_value]
      split
      case h_1 hkind =>
        exact advance.bind fun _ => ih.bind fun _ => pure_of_eq (T.expr_not t _ ht hkind).symm
      case h_2 => exact advance.bind fun _ => ih.bind fun _ => pure_of_eq (T.expr_minus _).symm
      case h_3 => exact primary (expressionOf ih)

theorem expression (depth : Nat) :
    Follows T T.expr (expression minus n depth) (expression minus' n depth) :=
  expressionOf (operand depth)

end Expressions

/-! ## Statements -/

section Statements

variable {ends : TokenKind → Bool} {value value' : Parser Expr} {body body' : Parser (List Stmt)}
  {one one' : Parser Stmt}

theorem statementsFrom (hone : Follows T T.stmt one one') (read : List Stmt) :
    Follows T (List.map T.stmt) (statementsFrom one ends n read)
      (statementsFrom one' ends n (read.map T.stmt)) := by
  have hdone : ∀ read, Follows T (List.map T.stmt) (Pure.pure (List.reverse read))
      (Pure.pure (read.map T.stmt).reverse) := fun _ => pure_of_eq List.map_reverse.symm
  induction n generalizing read with
  | zero => exact hdone read
  | succ n ih =>
      refine peek.bind fun t => ?_
      rw [T.token_kind]
      exact ite (hdone read) <| (accept _).bind fun _ =>
        ite (ih _) <| hone.bind fun stmt => ih (stmt :: read)

theorem block (hone : Follows T T.stmt one one') :
    Follows T (List.map T.stmt) (block n one) (block n one') :=
  (expect _).bind fun _ => skipLineEnd.bind fun _ => (statementsFrom hone []).bind fun _ =>
    (expect _).bind fun _ => pure _

variable (hvalue : Follows T T.expr value value') (hbody : Follows T (List.map T.stmt) body body')
include hvalue

theorem binding : Follows T T.expr (binding value) (binding value') :=
  (expect _).bind fun _ => hvalue.bind fun _ => endStatement.bind fun _ => pure _

include hbody

theorem clause :
    Follows T (Prod.map T.expr (List.map T.stmt)) (clause value body) (clause value' body') :=
  hvalue.bind fun test => skipLineEnd.bind fun _ => hbody.bind fun block => pure (test, block)

theorem alternative (clauses : List (Expr × List Stmt)) :
    Follows T T.alternative (alternative value body n clauses)
      (alternative value' body' n (clauses.map (Prod.map T.expr (List.map T.stmt)))) := by
  have hdone : ∀ clauses last, Follows T T.alternative
      (Pure.pure (.ofClauses (List.reverse clauses) last))
      (Pure.pure (.ofClauses (clauses.map (Prod.map T.expr (List.map T.stmt))).reverse
        (last.map (List.map T.stmt)))) := by
    intro clauses last
    rw [← List.map_reverse, ← T.alternative_ofClauses]
    exact pure _
  induction n generalizing clauses with
  | zero => exact hdone clauses none
  | succ n ih =>
      refine skipLineEnd.bind fun _ => (accept _).bind fun _ =>
        ite ((clause hvalue hbody).bind fun next => ih (next :: clauses)) ?_
      refine (accept _).bind fun _ => ite ?_ (hdone clauses none)
      exact skipLineEnd.bind fun _ => hbody.bind fun last => hdone clauses (some last)

theorem statementAfter (t : Token) :
    Follows T T.stmt (statementAfter n value body t)
      (statementAfter n value' body' (T.token t)) := by
  have hbinding := binding hvalue
  have hclause := clause hvalue hbody
  unfold Parser.statementAfter
  dsimp only
  rw [T.token_kind, T.token_value]
  cases t.kind
  case declare =>
    refine (expect _).bind fun name => hbinding.bind fun _ => pure_of_eq ?_
    rw [T.token_value, T.stmt_declare]
  case identifier =>
    refine peek.bind fun t => ?_
    rw [T.token_kind]
    exact ite (fail _) (hbinding.bind fun _ => pure_of_eq (T.stmt_assign _ _ _).symm)
  case print =>
    exact hvalue.bind fun _ => endStatement.bind fun _ => pure_of_eq (T.stmt_print _ _).symm
  case ifWord =>
    exact hclause.bind fun _ => (alternative hvalue hbody []).bind fun _ =>
      skipLineEnd.bind fun _ => pure_of_eq (T.stmt_ifThen _ _ _ _).symm
  case whileWord =>
    exact hclause.bind fun _ => skipLineEnd.bind fun _ => pure_of_eq (T.stmt_whileDo _ _ _).symm
  case breakWord => exact endStatement.bind fun _ => pure_of_eq (T.stmt_breakLoop _).symm
  case continueWords => exact endStatement.bind fun _ => pure_of_eq (T.stmt_continueLoop _).symm
  case functionWord =>
    have hparam : Follows T id (Token.value <$> Parser.expect .identifier)
        (Token.value <$> Parser.expect .identifier) := by
      have hvalue (t : Token) : Follows T id (Pure.pure t.value) (Pure.pure (T.token t).value) :=
        pure_of_eq (T.token_value t)
      intro ts
      rw [map_apply, map_apply]
      exact (expect _).bind hvalue ts
    refine (expect _).bind fun name => (listOf hparam).bind fun params => skipLineEnd.bind fun _ =>
      hbody.bind fun _ => skipLineEnd.bind fun _ => pure_of_eq ?_
    rw [T.token_value, T.stmt_function, List.map_id]
  case returnWord =>
    refine peek.bind fun t => ?_
    rw [T.token_kind]
    exact ite (skipLineEnd.bind fun _ => pure_of_eq (T.stmt_returnValue none _).symm)
      (hvalue.bind fun _ => endStatement.bind fun _ =>
        pure_of_eq (T.stmt_returnValue (some _) _).symm)
  all_goals exact fail _

omit hvalue hbody

theorem statement (depth : Nat) :
    Follows T T.stmt (statement minus n depth) (statement minus' n depth) := by
  induction depth with
  | zero => exact tooDeep
  | succ depth ih =>
      exact advance.bind fun t => statementAfter (expression depth) (block ih) t

theorem program (depth : Nat) :
    Follows T T.program (program minus n depth) (program minus' n depth) :=
  (expect _).bind fun _ => endStatement.bind fun _ =>
    (statementsFrom (statement depth) []).bind fun _ => (expect _).bind fun _ => pure _

theorem fragment (depth : Nat) :
    Follows T T.program (fragment minus n depth) (fragment minus' n depth) :=
  (statementsFrom (statement depth) []).bind fun _ => (expect _).bind fun _ => pure _

end Statements

end Follows

end Parser

namespace Translation

open Bol.Parser

variable {minus minus' : Expr → Expr} (T : Translation minus minus')

/-- What is read where the tokens are translated. -/
def read : Except ParseStop Program → Except ParseStop Program
  | .ok P => .ok (T.program P)
  | .error (.error error) => .error (.error (error.map T.token))
  | .error .tooDeep => .error .tooDeep
  | .error (.notNumber text) => .error (.notNumber text)

variable {T} {ts : List Token} {p p' : Parser Program}

theorem run'_eq_read (h : Follows T T.program p p') (hts : ∀ t ∈ ts, T.admits t) :
    p'.run' (ts.map T.token) = T.read (p.run' ts) := by
  rw [run'_apply, run'_apply, (h ts hts).1]
  rcases p ts with (error | _ | text) | ⟨P, rest⟩ <;> rfl

end Translation

end Bol
