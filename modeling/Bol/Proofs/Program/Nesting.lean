/-
# Phrases by their nesting

How deeply the rules for operands and for blocks are nested in a phrase. With every level goes at
least one token, so a phrase is never nested more deeply than it is long. This turns the least
choice of phrases that obeys the grammar into one that is built level by level, which is how a
reader with a bound on its depth works.
-/

import Bol.Proofs.Program.Grammar

namespace Bol

namespace Grammar

/-- Whatever is the one phrase and not longer than `n` is also the other. -/
def Within {α : Type} (n : Nat) (first second : Phrase α) : Prop :=
  ∀ ts a, ts.length ≤ n → first ts a → second ts a

namespace Within

variable {α : Type} {n m : Nat} {isOp : TokenKind → Bool}
  {item item' : Phrase α} {operand operand' value value' : Phrase Expr}
  {inner inner' : Phrase (List Stmt)} {plain plain' nested nested' : Phrase Stmt}

theorem mono (h : Within n item item') (hle : m ≤ n) : Within m item item' :=
  fun ts a hlength => h ts a (Nat.le_trans hlength hle)

theorem joined (h : Within n operand operand') :
    Within n (Joined isOp operand) (Joined isOp operand') := by
  intro ts e hlength hjoined
  induction hjoined with
  | single hoperand => exact .single (h _ _ hlength hoperand)
  | more hleft hop hright ih =>
      simp only [List.length_append, List.length_cons] at hlength
      exact .more (ih (by omega)) hop (h _ _ (by omega) hright)

theorem compared (h : Within n operand operand') :
    Within n (Compared operand) (Compared operand') := by
  intro ts e hlength hcompared
  cases hcompared with
  | single hoperand => exact .single (h _ _ hlength hoperand)
  | pair hleft hop hright =>
      simp only [List.length_append, List.length_cons] at hlength
      exact .pair (h _ _ (by omega) hleft) hop (h _ _ (by omega) hright)

theorem listed (h : Within n item item') : Within n (Listed item) (Listed item') := by
  intro ts as hlength hlisted
  induction hlisted with
  | one hitem => exact .one (h _ _ hlength hitem)
  | more hitem hcomma _ ih =>
      simp only [List.length_append, List.length_cons] at hlength
      exact .more (h _ _ (by omega) hitem) hcomma (ih (by omega))

theorem parenthesised (h : Within n item item') :
    Within n (Parenthesised item) (Parenthesised item') := by
  intro ts as hlength hitems
  cases hitems with
  | none hl hr => exact .none hl hr
  | some hl hitems hr =>
      simp only [List.length_cons, List.length_append] at hlength
      exact .some hl (h.listed _ _ (by omega) hitems) hr

theorem expressionOf (h : Within n operand operand') :
    Within n (expressionOf operand) (expressionOf operand') :=
  h.joined.joined.compared.joined.joined

theorem operandOf (h : Within n operand operand') :
    Within (n + 1) (OperandOf operand (Grammar.expressionOf operand))
      (OperandOf operand' (Grammar.expressionOf operand')) := by
  intro ts e hlength hoperand
  cases hoperand with
  | not ht hinner => exact .not ht (h _ _ (by simpa using hlength) hinner)
  | minusNumber ht hinner => exact .minusNumber ht (h _ _ (by simpa using hlength) hinner)
  | minus ht hinner hnumber => exact .minus ht (h _ _ (by simpa using hlength) hinner) hnumber
  | number ht hx => exact .number ht hx
  | string ht => exact .string ht
  | true ht => exact .true ht
  | false ht => exact .false ht
  | null ht => exact .null ht
  | name ht => exact .name ht
  | call ht hargs =>
      exact .call ht (h.expressionOf.parenthesised _ _ (by simpa using hlength) hargs)
  | parens hl hinner hr =>
      simp only [List.length_cons, List.length_append] at hlength
      exact .parens hl (h.expressionOf _ _ (by omega) hinner) hr

theorem block (h : Within n inner inner') : Within (n + 1) (Block inner) (Block inner') := by
  intro ts body hlength hblock
  cases hblock with
  | intro hl hinner hr =>
      simp only [List.length_cons, List.length_append] at hlength
      exact .intro hl (h _ _ (by omega) hinner) hr

theorem clause (hvalue : Within n value value') (hblock : Within n inner inner') :
    Within n (Clause value inner) (Clause value' inner') := by
  intro ts a hlength hclause
  cases hclause with
  | intro htest hline hbody =>
      simp only [List.length_append] at hlength
      exact .intro (hvalue _ _ (by omega) htest) hline (hblock _ _ (by omega) hbody)

theorem alternativeOf (hvalue : Within n value value') (hblock : Within n inner inner') :
    Within n (AlternativeOf value inner) (AlternativeOf value' inner') := by
  intro ts a hlength halternative
  induction halternative with
  | nothing => exact .nothing
  | otherwise hbefore hword hafter hbody =>
      simp only [List.length_append, List.length_cons] at hlength
      exact .otherwise hbefore hword hafter (hblock _ _ (by omega) hbody)
  | elseIf hbefore hword hclause _ ih =>
      simp only [List.length_append, List.length_cons] at hlength
      exact .elseIf hbefore hword (hvalue.clause hblock _ _ (by omega) hclause) (ih (by omega))

theorem simple (h : Within n value value') : Within (n + 1) (Simple value) (Simple value') := by
  intro ts a hlength hsimple
  cases hsimple with
  | declare ht hname his hinner =>
      simp only [List.length_cons] at hlength
      exact .declare ht hname his (h _ _ (by omega) hinner)
  | assign hname his hinner =>
      simp only [List.length_cons] at hlength
      exact .assign hname his (h _ _ (by omega) hinner)
  | print ht hinner => exact .print ht (h _ _ (by simpa using hlength) hinner)
  | breakLoop ht => exact .breakLoop ht
  | continueLoop ht => exact .continueLoop ht
  | returnNothing ht => exact .returnNothing ht
  | returnValue ht hinner => exact .returnValue ht (h _ _ (by simpa using hlength) hinner)

theorem compound (hvalue : Within n value value') (hblock : Within n inner inner') :
    Within (n + 1) (Compound value inner) (Compound value' inner') := by
  intro ts a hlength hcompound
  cases hcompound with
  | ifThen ht hclause hnext =>
      simp only [List.length_cons, List.length_append] at hlength
      exact .ifThen ht (hvalue.clause hblock _ _ (by omega) hclause)
        (hvalue.alternativeOf hblock _ _ (by omega) hnext)
  | whileDo ht hclause =>
      exact .whileDo ht (hvalue.clause hblock _ _ (by simpa using hlength) hclause)
  | function ht hname hparams hline hbody =>
      simp only [List.length_cons, List.length_append] at hlength
      exact .function ht hname hparams hline (hblock _ _ (by omega) hbody)

theorem listOf (hsimple : Within n plain plain') (hcompound : Within n nested nested') :
    Within n (ListOf plain nested) (ListOf plain' nested') := by
  intro ts body hlength hlist
  induction hlist with
  | done => exact .done
  | lineEnd ht _ ih => exact .lineEnd ht (ih (by simp only [List.length_cons] at hlength; omega))
  | compound h _ ih =>
      simp only [List.length_append] at hlength
      exact .compound (hcompound _ _ (by omega) h) (ih (by omega))
  | simple h ht _ ih =>
      simp only [List.length_append, List.length_cons] at hlength
      exact .simple (hsimple _ _ (by omega) h) ht (ih (by omega))
  | last h => exact .last (hsimple _ _ hlength h)

end Within

/-- The operands with fewer than `depth` operands around their innermost one. -/
def OperandAt : (depth : Nat) → Phrase Expr
  | 0 => fun _ _ => False
  | depth + 1 => OperandOf (OperandAt depth) (expressionOf (OperandAt depth))

/-- The expressions over operands of bounded nesting. -/
def ExpressionAt (depth : Nat) : Phrase Expr := expressionOf (OperandAt depth)

/-- The statements without a block, over expressions of bounded nesting. -/
def SimpleAt : (depth : Nat) → Phrase Stmt
  | 0 => fun _ _ => False
  | depth + 1 => Simple (ExpressionAt depth)

/-- The statements with a block that have fewer than `depth` statements or operands around their
innermost one. -/
def CompoundAt : (depth : Nat) → Phrase Stmt
  | 0 => fun _ _ => False
  | depth + 1 =>
    Compound (ExpressionAt depth) (Block (ListOf (SimpleAt depth) (CompoundAt depth)))

/-- The lists of statements of bounded nesting. -/
def StatementsAt (depth : Nat) : Phrase (List Stmt) :=
  ListOf (SimpleAt depth) (CompoundAt depth)

theorem operand_iff {ts : List Token} {e : Expr} :
    Operand ts e ↔ OperandOf Operand Expression ts e :=
  ⟨fun ⟨h⟩ => h, fun h => ⟨h⟩⟩

theorem statements_iff {ts : List Token} {body : List Stmt} :
    Statements ts body ↔
      ListOf (Simple Expression) (Compound Expression (Block Statements))
        ts body :=
  ⟨fun ⟨h⟩ => h, fun h => ⟨h⟩⟩

theorem operandAt_of_operand (n : Nat) : Within n Operand (OperandAt n) := by
  induction n with
  | zero =>
      intro ts e hlength hoperand
      obtain rfl : ts = [] := List.eq_nil_of_length_eq_zero (by omega)
      cases operand_iff.mp hoperand
  | succ n ih =>
      intro ts e hlength hoperand
      exact ih.operandOf ts e hlength (operand_iff.mp hoperand)

theorem operand_of_operandAt (depth n : Nat) :
    Within n (OperandAt depth) Operand := by
  induction depth generalizing n with
  | zero => exact fun _ _ _ hnone => hnone.elim
  | succ depth ih =>
      intro ts e hlength hoperand
      exact operand_iff.mpr ((ih n).operandOf ts e (by omega) hoperand)

theorem starts_operandAt (depth : Nat) :
    Starts TokenKind.startsOperand (OperandAt depth) := by
  cases depth with
  | zero => exact fun _ _ hnone => hnone.elim
  | succ depth => exact starts_operandOf

theorem starts_simpleAt (depth : Nat) :
    Starts TokenKind.startsStatement (SimpleAt depth) := by
  cases depth with
  | zero => exact fun _ _ hnone => hnone.elim
  | succ depth => exact starts_simple

theorem starts_compoundAt (depth : Nat) :
    Starts TokenKind.startsStatement (CompoundAt depth) := by
  cases depth with
  | zero => exact fun _ _ hnone => hnone.elim
  | succ depth => exact starts_compound

theorem statementsAt_of_statements (n : Nat) :
    Within n Statements (StatementsAt n) := by
  induction n with
  | zero =>
      intro ts body hlength hstatements
      obtain rfl : ts = [] := List.eq_nil_of_length_eq_zero (by omega)
      obtain rfl := (statements_iff.mp hstatements).eq_nil starts_simple starts_compound
      exact .done
  | succ n ih =>
      intro ts body hlength hstatements
      have hvalue : Within n Expression (ExpressionAt n) :=
        (operandAt_of_operand n).expressionOf
      exact Within.listOf hvalue.simple (hvalue.compound (ih.block.mono (Nat.le_succ n)))
        ts body hlength (statements_iff.mp hstatements)

theorem statements_of_statementsAt (depth n : Nat) :
    Within n (StatementsAt depth) Statements := by
  induction depth generalizing n with
  | zero =>
      intro ts body hlength hstatements
      exact statements_iff.mpr (Within.listOf (fun _ _ _ hnone => hnone.elim)
        (fun _ _ _ hnone => hnone.elim) ts body hlength hstatements)
  | succ depth ih =>
      intro ts body hlength hstatements
      have hvalue : Within n (ExpressionAt depth) Expression :=
        (operand_of_operandAt depth n).expressionOf
      exact statements_iff.mpr (Within.listOf (hvalue.simple.mono (Nat.le_succ n))
        ((hvalue.compound ((ih n).block.mono (Nat.le_succ n))).mono (Nat.le_succ n))
        ts body hlength hstatements)

end Grammar

end Bol
