/-
# Lists of statements joined by a line end

Two lists of statements, with the line end between them that joining their texts gives, are one
list. The first list needs that line end only if it ends with a simple statement, and then it has
not ended with a line end yet, because no line ends stand in simple statements.
-/

import Bol.Proofs.Program.Relocation

namespace Bol

/-- The kinds that only shape statements: braces and line ends. -/
def TokenKind.layout : List TokenKind := [leftBrace, rightBrace, newline]

namespace Grammar

/-- Neither braces nor line ends stand in phrases of this sort. -/
def LacksLayout {α : Type} (phrase : Phrase α) : Prop :=
  ∀ ts a, phrase ts a → ∀ t ∈ ts, t.kind ∉ TokenKind.layout

namespace LacksLayout

variable {α : Type} {isOp : TokenKind → Bool} {item : Phrase α}
  {operand value : Phrase Expr}

theorem joined (h : LacksLayout operand) (hop : ∀ kind ∈ TokenKind.layout, isOp kind = false) :
    LacksLayout (Joined isOp operand) := by
  intro ts e hjoined
  induction hjoined with
  | single hoperand => exact h _ _ hoperand
  | more _ hisOp hright ih =>
      refine List.forall_mem_append.mpr
        ⟨ih, List.forall_mem_cons.mpr ⟨fun hkind => ?_, h _ _ hright⟩⟩
      rw [hop _ hkind] at hisOp
      cases hisOp

theorem compared (h : LacksLayout operand) : LacksLayout (Compared operand) := by
  have hcomparison : ∀ kind ∈ TokenKind.layout, kind.isComparison = false := by decide
  intro ts e hcompared
  cases hcompared with
  | single hoperand => exact h _ _ hoperand
  | pair hleft hop hright =>
      refine List.forall_mem_append.mpr
        ⟨h _ _ hleft, List.forall_mem_cons.mpr ⟨fun hkind => ?_, h _ _ hright⟩⟩
      rw [hcomparison _ hkind] at hop
      cases hop

theorem expressionOf (h : LacksLayout operand) : LacksLayout (expressionOf operand) :=
  ((((h.joined (by decide)).joined (by decide)).compared.joined (by decide)).joined (by decide))

theorem listed (h : LacksLayout item) : LacksLayout (Listed item) := by
  intro ts as hlisted
  induction hlisted with
  | one hitem => exact h _ _ hitem
  | more hitem hcomma _ ih =>
      exact List.forall_mem_append.mpr
        ⟨h _ _ hitem, List.forall_mem_cons.mpr ⟨by rw [hcomma]; decide, ih⟩⟩

theorem parenthesised (h : LacksLayout item) : LacksLayout (Parenthesised item) := by
  intro ts as hitems
  cases hitems with
  | none hl hr => simp [hl, hr, TokenKind.layout]
  | some hl hitems hr =>
      refine List.forall_mem_cons.mpr ⟨by rw [hl]; decide, List.forall_mem_append.mpr ⟨?_, ?_⟩⟩
      · exact h.listed _ _ hitems
      · simp [hr, TokenKind.layout]

theorem operandOf (h : LacksLayout operand) (hvalue : LacksLayout value) :
    LacksLayout (OperandOf operand value) := by
  intro ts e hoperand
  cases hoperand with
  | not ht hinner | minusNumber ht hinner | minus ht hinner =>
      exact List.forall_mem_cons.mpr ⟨by rw [ht]; decide, h _ _ hinner⟩
  | number ht | string ht | true ht | false ht | null ht | name ht => simp [ht, TokenKind.layout]
  | call ht hargs =>
      exact List.forall_mem_cons.mpr ⟨by rw [ht]; decide, hvalue.parenthesised _ _ hargs⟩
  | parens hl hinner hr =>
      refine List.forall_mem_cons.mpr ⟨by rw [hl]; decide, List.forall_mem_append.mpr ⟨?_, ?_⟩⟩
      · exact hvalue _ _ hinner
      · simp [hr, TokenKind.layout]

theorem expressionAt (depth : Nat) : LacksLayout (ExpressionAt depth) := by
  have hoperand : LacksLayout (OperandAt depth) := by
    induction depth with
    | zero => exact fun _ _ hnone => hnone.elim
    | succ depth ih => exact ih.operandOf ih.expressionOf
  exact hoperand.expressionOf

theorem parameter : LacksLayout Parameter := by
  intro ts name hparameter
  cases hparameter with
  | intro ht => simp [ht, TokenKind.layout]

theorem simple (h : LacksLayout value) : LacksLayout (Simple value) := by
  intro ts a hsimple
  cases hsimple with
  | declare ht hname his hvalue => simpa [ht, hname, his, TokenKind.layout] using h _ _ hvalue
  | assign hname his hvalue => simpa [hname, his, TokenKind.layout] using h _ _ hvalue
  | print ht hvalue | returnValue ht hvalue => simpa [ht, TokenKind.layout] using h _ _ hvalue
  | breakLoop ht | continueLoop ht | returnNothing ht => simp [ht, TokenKind.layout]

theorem simpleAt (depth : Nat) : LacksLayout (SimpleAt depth) := by
  cases depth with
  | zero => exact fun _ _ hnone => hnone.elim
  | succ depth => exact (expressionAt depth).simple

end LacksLayout

variable {simple compound : Phrase Stmt} {us vs : List Token} {first second : List Stmt}

/-- With a line end between them, two lists of statements are one. -/
theorem ListOf.append_lineEnd (h : ListOf simple compound us first) {t : Token}
    (ht : t.kind = .newline) (h' : ListOf simple compound vs second) :
    ListOf simple compound (us ++ t :: vs) (first ++ second) := by
  induction h with
  | done => exact .lineEnd ht h'
  | lineEnd hline _ ih => exact .lineEnd hline ih
  | compound hstmt _ ih =>
      rw [List.append_assoc]
      exact .compound hstmt ih
  | simple hstmt hline _ ih =>
      rw [List.append_assoc]
      exact .simple hstmt hline ih
  | last hstmt => exact .simple hstmt ht h'

/-- So they are if the first one is empty or ends with a line end. -/
theorem ListOf.append_of_isClosed (hstarts : Starts TokenKind.startsStatement simple)
    (hlacks : LacksLayout simple) (h : ListOf simple compound us first)
    (hclosed : Piece.IsClosed us) (h' : ListOf simple compound vs second) :
    ListOf simple compound (us ++ vs) (first ++ second) := by
  induction h with
  | done => exact h'
  | lineEnd hline _ ih => exact .lineEnd hline (ih hclosed.of_cons)
  | compound hstmt _ ih =>
      rw [List.append_assoc]
      exact .compound hstmt (ih hclosed.of_append)
  | @simple ts us t _ _ hstmt hline _ ih =>
      rw [List.append_assoc]
      rw [← List.singleton_append, ← List.append_assoc] at hclosed
      exact .simple hstmt hline (ih hclosed.of_append)
  | @last ts _ hstmt =>
      obtain ⟨t, rest, rfl, -⟩ := hstarts _ _ hstmt
      have hlast := List.getLast_mem (List.cons_ne_nil t rest)
      exact absurd (hclosed _ (List.getLast?_eq_some_getLast (List.cons_ne_nil t rest)))
        (fun hline => hlacks _ _ hstmt _ hlast (hline ▸ by decide))

/-- Statements and, after the line end that is due, other statements. -/
theorem statementsAt_joined {depth : Nat} (text : List Char)
    (h : StatementsAt depth us first) (h' : StatementsAt depth vs second) :
    StatementsAt depth (Piece.closed text us ++ vs) (first ++ second) := by
  obtain ⟨hsame, hclosed⟩ | ⟨t, ht, hmore⟩ := Piece.closed_cases text us
  · rw [hsame]
    exact h.append_of_isClosed (starts_simpleAt depth) (LacksLayout.simpleAt depth) hclosed h'
  · rw [hmore, List.append_assoc]
    exact h.append_lineEnd ht h'

end Grammar

end Bol
