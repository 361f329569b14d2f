/-
# The same tokens on other lines

The grammar does not look at the lines of tokens. Where tokens stand on other lines, they spell
the same expressions and the same statements, and the statements stand on other lines likewise.
-/

import Bol.Proofs.Program.Nesting
import Bol.Proofs.Token.Seam

namespace Bol

mutual

/-- A statement with all its lines, and those of the statements inside, changed. -/
def Stmt.mapLines (f : Int → Int) : Stmt → Stmt
  | .declare name value line => .declare name value (line.map f)
  | .assign name value line => .assign name value (line.map f)
  | .print value line => .print value (line.map f)
  | .ifThen condition body alternative line =>
    .ifThen condition (Stmt.listMapLines f body) (alternative.mapLines f) (line.map f)
  | .whileDo condition body line => .whileDo condition (Stmt.listMapLines f body) (line.map f)
  | .breakLoop line => .breakLoop (line.map f)
  | .continueLoop line => .continueLoop (line.map f)
  | .function name params body line =>
    .function name params (Stmt.listMapLines f body) (line.map f)
  | .returnValue value line => .returnValue value (line.map f)
  | .misplaced sort => .misplaced sort

def Stmt.listMapLines (f : Int → Int) : List Stmt → List Stmt
  | [] => []
  | stmt :: rest => stmt.mapLines f :: Stmt.listMapLines f rest

def Alternative.mapLines (f : Int → Int) : Alternative → Alternative
  | .nothing => .nothing
  | .otherwise body => .otherwise (Stmt.listMapLines f body)
  | .elseIf condition body next =>
    .elseIf condition (Stmt.listMapLines f body) (next.mapLines f)

end

mutual

/-- The statement without the lines that it and the statements in it start on. -/
def Stmt.withoutLines : Stmt → Stmt
  | .declare name value _ => .declare name value none
  | .assign name value _ => .assign name value none
  | .print value _ => .print value none
  | .ifThen condition body alternative _ =>
    .ifThen condition (Stmt.listWithoutLines body) alternative.withoutLines none
  | .whileDo condition body _ => .whileDo condition (Stmt.listWithoutLines body) none
  | .breakLoop _ => .breakLoop none
  | .continueLoop _ => .continueLoop none
  | .function name params body _ => .function name params (Stmt.listWithoutLines body) none
  | .returnValue value _ => .returnValue value none
  | .misplaced sort => .misplaced sort

def Stmt.listWithoutLines : List Stmt → List Stmt
  | [] => []
  | stmt :: rest => stmt.withoutLines :: Stmt.listWithoutLines rest

def Alternative.withoutLines : Alternative → Alternative
  | .nothing => .nothing
  | .otherwise body => .otherwise (Stmt.listWithoutLines body)
  | .elseIf condition body next =>
    .elseIf condition (Stmt.listWithoutLines body) next.withoutLines

end

theorem Stmt.listWithoutLines_eq_map (body : List Stmt) :
    Stmt.listWithoutLines body = body.map Stmt.withoutLines := by
  induction body with
  | nil => rfl
  | cons stmt rest ih => rw [listWithoutLines, ih, List.map_cons]

theorem Stmt.listWithoutLines_append (first second : List Stmt) :
    Stmt.listWithoutLines (first ++ second) =
      Stmt.listWithoutLines first ++ Stmt.listWithoutLines second := by
  simp only [listWithoutLines_eq_map, List.map_append]

def Program.withoutLines (P : Program) : Program := ⟨Stmt.listWithoutLines P.statements⟩

mutual

theorem Stmt.withoutLines_mapLines (g : Int → Int) (stmt : Stmt) :
    (stmt.mapLines g).withoutLines = stmt.withoutLines := by
  cases stmt with
  | declare | assign | print | breakLoop | continueLoop | returnValue | misplaced => rfl
  | ifThen _ body alternative =>
      rw [Stmt.mapLines, Stmt.withoutLines, Stmt.listWithoutLines_listMapLines g body,
        Alternative.withoutLines_mapLines g alternative, Stmt.withoutLines]
  | whileDo _ body | function _ _ body =>
      rw [Stmt.mapLines, Stmt.withoutLines, Stmt.listWithoutLines_listMapLines g body,
        Stmt.withoutLines]

theorem Stmt.listWithoutLines_listMapLines (g : Int → Int) (body : List Stmt) :
    Stmt.listWithoutLines (Stmt.listMapLines g body) = Stmt.listWithoutLines body := by
  cases body with
  | nil => rfl
  | cons stmt rest =>
      rw [Stmt.listMapLines, Stmt.listWithoutLines, Stmt.withoutLines_mapLines g stmt,
        Stmt.listWithoutLines_listMapLines g rest, Stmt.listWithoutLines]

theorem Alternative.withoutLines_mapLines (g : Int → Int) (alternative : Alternative) :
    (alternative.mapLines g).withoutLines = alternative.withoutLines := by
  cases alternative with
  | nothing => rfl
  | otherwise body =>
      rw [Alternative.mapLines, Alternative.withoutLines, Stmt.listWithoutLines_listMapLines g body,
        Alternative.withoutLines]
  | elseIf _ body next =>
      rw [Alternative.mapLines, Alternative.withoutLines, Stmt.listWithoutLines_listMapLines g body,
        Alternative.withoutLines_mapLines g next, Alternative.withoutLines]

end

namespace Grammar

/-- Where the tokens of a phrase stand on other lines, they are a phrase as well, for what `g`
makes of the tree. -/
def Relocates {α : Type} (f : Int → Int) (g : α → α) (phrase : Phrase α) : Prop :=
  ∀ ts a, phrase ts a → phrase (ts.map (Token.mapLine f)) (g a)

namespace Relocates

variable {f : Int → Int} {isOp : TokenKind → Bool}
  {operand value : Phrase Expr} {statements : Phrase (List Stmt)} {plain nested : Phrase Stmt}

theorem joined (h : Relocates f id operand) : Relocates f id (Joined isOp operand) := by
  intro ts e hjoined
  induction hjoined with
  | single hoperand => exact .single (h _ _ hoperand)
  | more _ hop hright ih =>
      rw [List.map_append, List.map_cons]
      exact .more ih hop (h _ _ hright)

theorem compared (h : Relocates f id operand) : Relocates f id (Compared operand) := by
  intro ts e hcompared
  cases hcompared with
  | single hoperand => exact .single (h _ _ hoperand)
  | pair hleft hop hright =>
      rw [List.map_append, List.map_cons]
      exact .pair (h _ _ hleft) hop (h _ _ hright)

theorem expressionOf (h : Relocates f id operand) : Relocates f id (expressionOf operand) :=
  h.joined.joined.compared.joined.joined

theorem listed {α : Type} {item : Phrase α} (h : Relocates f id item) :
    Relocates f id (Listed item) := by
  intro ts as hlisted
  induction hlisted with
  | one hitem => exact .one (h _ _ hitem)
  | more hitem hcomma _ ih =>
      rw [List.map_append, List.map_cons]
      exact .more (h _ _ hitem) hcomma ih

theorem parenthesised {α : Type} {item : Phrase α} (h : Relocates f id item) :
    Relocates f id (Parenthesised item) := by
  intro ts as hitems
  cases hitems with
  | none hl hr => exact .none hl hr
  | some hl hitems hr =>
      rw [List.map_cons, List.map_append]
      exact .some hl (h.listed _ _ hitems) hr

theorem operandOf (h : Relocates f id operand) (hvalue : Relocates f id value) :
    Relocates f id (OperandOf operand value) := by
  intro ts e hoperand
  cases hoperand with
  | not ht hinner => exact .not ht (h _ _ hinner)
  | minusNumber ht hinner => exact .minusNumber ht (h _ _ hinner)
  | minus ht hinner hnumber => exact .minus ht (h _ _ hinner) hnumber
  | number ht hx => exact .number ht hx
  | string ht => exact .string ht
  | true ht => exact .true ht
  | false ht => exact .false ht
  | null ht => exact .null ht
  | name ht => exact .name ht
  | call ht hargs => exact .call ht (hvalue.parenthesised _ _ hargs)
  | parens hl hinner hr =>
      rw [List.map_cons, List.map_append]
      exact .parens hl (hvalue _ _ hinner) hr

theorem parameter : Relocates f id Parameter := by
  intro ts name hparameter
  cases hparameter with
  | intro ht => exact .intro ht

theorem lineBreak {line : List Token} (h : Break line) : Break (line.map (Token.mapLine f)) := by
  cases h with
  | none => exact .none
  | one ht => exact .one ht

theorem block (h : Relocates f (Stmt.listMapLines f) statements) :
    Relocates f (Stmt.listMapLines f) (Block statements) := by
  intro ts body hblock
  cases hblock with
  | intro hl hinner hr =>
      rw [List.map_cons, List.map_append]
      exact .intro hl (h _ _ hinner) hr

section

variable (hvalue : Relocates f id value) (hblock : Relocates f (Stmt.listMapLines f) statements)
include hvalue

theorem simple : Relocates f (Stmt.mapLines f) (Simple value) := by
  intro ts a hsimple
  cases hsimple with
  | declare ht hname his h => exact .declare ht hname his (hvalue _ _ h)
  | assign hname his h => exact .assign hname his (hvalue _ _ h)
  | print ht h => exact .print ht (hvalue _ _ h)
  | breakLoop ht => exact .breakLoop ht
  | continueLoop ht => exact .continueLoop ht
  | returnNothing ht => exact .returnNothing ht
  | returnValue ht h => exact .returnValue ht (hvalue _ _ h)

include hblock

theorem clause : Relocates f (Prod.map id (Stmt.listMapLines f)) (Clause value statements) := by
  intro ts a hclause
  cases hclause with
  | intro htest hline hbody =>
      rw [List.map_append, List.map_append]
      exact .intro (hvalue _ _ htest) (lineBreak hline) (hblock _ _ hbody)

theorem alternativeOf :
    Relocates f (Alternative.mapLines f) (AlternativeOf value statements) := by
  intro ts a halternative
  induction halternative with
  | nothing => exact .nothing
  | otherwise hbefore hword hafter hbody =>
      rw [List.map_append, List.map_cons, List.map_append]
      exact .otherwise (lineBreak hbefore) hword (lineBreak hafter) (hblock _ _ hbody)
  | elseIf hbefore hword hclause _ ih =>
      rw [List.map_append, List.map_cons, List.map_append]
      have hclause' := clause hvalue hblock _ _ hclause
      exact AlternativeOf.elseIf (lineBreak hbefore) (Token.mapLine_kind f _ ▸ hword) hclause' ih

theorem compound : Relocates f (Stmt.mapLines f) (Compound value statements) := by
  intro ts a hcompound
  cases hcompound with
  | @ifThen t _ _ _ _ ht hclause hnext =>
      rw [List.map_cons, List.map_append]
      exact .ifThen (t := t.mapLine f) ht (clause hvalue hblock _ _ hclause)
        (alternativeOf hvalue hblock _ _ hnext)
  | @whileDo t _ _ ht hclause =>
      exact .whileDo (t := t.mapLine f) ht (clause hvalue hblock _ _ hclause)
  | function ht hname hparams hline hbody =>
      rw [List.map_cons, List.map_cons, List.map_append, List.map_append]
      exact .function ht hname (parameter.parenthesised _ _ hparams) (lineBreak hline)
        (hblock _ _ hbody)

end

theorem listOf (hsimple : Relocates f (Stmt.mapLines f) plain)
    (hcompound : Relocates f (Stmt.mapLines f) nested) :
    Relocates f (Stmt.listMapLines f) (ListOf plain nested) := by
  intro ts body hlist
  induction hlist with
  | done => exact .done
  | lineEnd ht _ ih => exact .lineEnd ht ih
  | compound h _ ih =>
      rw [List.map_append]
      exact .compound (hcompound _ _ h) ih
  | simple h ht _ ih =>
      rw [List.map_append, List.map_cons]
      exact .simple (hsimple _ _ h) ht ih
  | last h => exact .last (hsimple _ _ h)

theorem expressionAt (depth : Nat) : Relocates f id (ExpressionAt depth) := by
  have hoperand : Relocates f id (OperandAt depth) := by
    induction depth with
    | zero => exact fun _ _ hnone => hnone.elim
    | succ depth ih => exact ih.operandOf ih.expressionOf
  exact hoperand.expressionOf

theorem simpleAt (depth : Nat) : Relocates f (Stmt.mapLines f) (SimpleAt depth) := by
  cases depth with
  | zero => exact fun _ _ hnone => hnone.elim
  | succ depth => exact (expressionAt depth).simple

theorem statementsAt (depth : Nat) :
    Relocates f (Stmt.listMapLines f) (StatementsAt depth) := by
  induction depth with
  | zero => exact listOf (fun _ _ hnone => hnone.elim) fun _ _ hnone => hnone.elim
  | succ depth ih =>
      exact listOf (simpleAt (depth + 1)) (compound (expressionAt depth) ih.block)

end Relocates

end Grammar

end Bol
