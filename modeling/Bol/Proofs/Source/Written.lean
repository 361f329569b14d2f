/-
# What is read can be written

The tree that a phrase of scanned tokens stands for is one that can be written. If every number is
written with as few minus signs as it can be, then what is written is nested no more deeply than
the phrase, whatever parentheses and minus signs the phrase has that the tree does not need.
-/

import Bol.Proofs.Program.Nesting
import Bol.Proofs.Source.Print
import Mathlib.Data.Nat.Find
import Mathlib.Tactic.Choose

namespace Bol

open Grammar

/-! ## Numerals with few signs -/

/-- A spelling that writes every number with as few minus signs as possible. -/
structure IsLeastSpelling (spell : Float → Numeral) : Prop where
  isSpelling : IsSpelling spell
  signs_le : ∀ {value : Float} {numeral : Numeral}, numeral.Spells value →
    (spell value).signs ≤ numeral.signs

theorem exists_isLeastSpelling : ∃ spell, IsLeastSpelling spell := by
  have hleast (value : Float) : ∃ least : Numeral, ∀ numeral : Numeral, numeral.Spells value →
      least.Spells value ∧ least.signs ≤ numeral.signs := by
    by_cases hsome : ∃ numeral : Numeral, numeral.Spells value
    · have hsigns : ∃ signs, ∃ numeral : Numeral, numeral.Spells value ∧ numeral.signs = signs :=
        hsome.imp' Numeral.signs fun numeral h => ⟨numeral, h, rfl⟩
      classical
      obtain ⟨least, hspells, hfind⟩ := Nat.find_spec hsigns
      refine ⟨least, fun numeral h => ⟨hspells, ?_⟩⟩
      rw [hfind]
      exact Nat.find_min' hsigns ⟨numeral, h, rfl⟩
    · exact ⟨⟨0, ""⟩, fun numeral h => absurd ⟨numeral, h⟩ hsome⟩
  choose spell hspell using hleast
  exact ⟨spell, fun value ⟨numeral, h⟩ => (hspell value numeral h).1,
    fun h => (hspell _ _ h).2⟩

theorem Numeral.Spells.neg {numeral : Numeral} {value : Float} (h : numeral.Spells value) :
    Spells ⟨numeral.signs + 1, numeral.digits⟩ (-value) := by
  obtain ⟨hdigits, y, hy, rfl⟩ := h
  exact ⟨hdigits, y, hy, rfl⟩

/-! ## Expressions -/

/-- All the tokens are ones that a source can have. -/
abbrev Scanned (ts : List Token) : Prop := ∀ t ∈ ts, t.word.IsLexed

theorem Scanned.of_append {ts us : List Token} (h : Scanned (ts ++ us)) :
    Scanned ts ∧ Scanned us :=
  List.forall_mem_append.mp h

theorem Scanned.of_cons {t : Token} {ts : List Token} (h : Scanned (t :: ts)) :
    t.word.IsLexed ∧ Scanned ts :=
  List.forall_mem_cons.mp h

theorem wrappedNesting_of_le {level inner nesting : Nat} (h : level ≤ inner) :
    wrappedNesting level inner nesting = nesting :=
  if_neg (Nat.not_lt.mpr h)

theorem le_wrappedNesting (level inner nesting : Nat) :
    nesting ≤ wrappedNesting level inner nesting := by
  unfold wrappedNesting
  split <;> omega

theorem wrappedNesting_le_succ (level inner nesting : Nat) :
    wrappedNesting level inner nesting ≤ nesting + 1 := by
  unfold wrappedNesting
  split <;> omega

/-- A place that asks for a higher precedence needs no fewer parentheses. -/
theorem wrappedNesting_mono {level level' inner nesting : Nat} (hle : level ≤ level') :
    wrappedNesting level inner nesting ≤ wrappedNesting level' inner nesting := by
  unfold wrappedNesting
  split <;> split <;> omega

/-- The operators of the given kinds have one precedence, and so have their left operands. -/
def OfLevel (isOp : TokenKind → Bool) (level leftLevel : Nat) : Prop :=
  ∀ kind, isOp kind = true →
    ∃ op ∈ BinaryOp.all, kind = op.kind ∧ op.level = level ∧ op.leftLevel = leftLevel

/-- What a phrase stands for can be written where the precedence is asked for, with a bounded
nesting. -/
def Written (spell : Float → Numeral) (level depth : Nat) (phrase : Phrase Expr) : Prop :=
  ∀ ts e, Scanned ts → phrase ts e →
    e.Printable ∧ wrappedNesting level e.level (e.nesting spell) ≤ depth

namespace Written

variable {spell : Float → Numeral} {level leftLevel depth : Nat} {operand : Phrase Expr}
  {isOp : TokenKind → Bool} {ts : List Token}

theorem binary (h : OfLevel isOp level leftLevel) {t : Token} {a b : Expr} (ht : t.word.IsLexed)
    (hop : isOp t.kind = true)
    (hleft : a.Printable ∧ wrappedNesting leftLevel a.level (a.nesting spell) ≤ depth)
    (hright : b.Printable ∧ wrappedNesting (level + 1) b.level (b.nesting spell) ≤ depth) :
    (Expr.binary (.ofSpelling t.value) a b).Printable ∧
      wrappedNesting level (Expr.binary (.ofSpelling t.value) a b).level
        ((Expr.binary (.ofSpelling t.value) a b).nesting spell) ≤ depth := by
  obtain ⟨op, hmem, hkind, rfl, rfl⟩ := h t.kind hop
  have hword := BinaryOp.word_eq_of_kind_eq hmem ht hkind
  rw [BinaryOp.ofSpelling_value hmem hword, Expr.level, wrappedNesting_of_le (Nat.le_refl _)]
  exact ⟨.binary hmem hleft.1 hright.1, Nat.max_le.mpr ⟨hleft.2, hright.2⟩⟩

theorem mono {level' : Nat} (h : Written spell level' depth operand) (hle : level ≤ level') :
    Written spell level depth operand := by
  intro ts e hscanned hoperand
  obtain ⟨hprintable, hdepth⟩ := h ts e hscanned hoperand
  exact ⟨hprintable, Nat.le_trans (wrappedNesting_mono hle) hdepth⟩

theorem joined (h : Written spell (level + 1) depth operand) (hop : OfLevel isOp level level) :
    Written spell level depth (Joined isOp operand) := by
  intro ts e hscanned hjoined
  induction hjoined with
  | single hoperand => exact h.mono (Nat.le_succ level) _ _ hscanned hoperand
  | more _ hkind hright ih =>
      obtain ⟨hus, hvs⟩ := hscanned.of_append
      obtain ⟨ht, hvs⟩ := hvs.of_cons
      exact binary hop ht hkind (ih hus) (h _ _ hvs hright)

theorem compared (h : Written spell (level + 1) depth operand)
    (hop : OfLevel TokenKind.isComparison level (level + 1)) :
    Written spell level depth (Compared operand) := by
  intro ts e hscanned hcompared
  cases hcompared with
  | single hoperand => exact h.mono (Nat.le_succ level) _ _ hscanned hoperand
  | pair hleft hkind hright =>
      obtain ⟨hus, hvs⟩ := hscanned.of_append
      obtain ⟨ht, hvs⟩ := hvs.of_cons
      exact binary hop ht hkind (h _ _ hus hleft) (h _ _ hvs hright)

theorem expressionOf (h : Written spell 6 depth operand) :
    Written spell 1 depth (expressionOf operand) := by
  have hproduct : OfLevel TokenKind.isMultiplicative 5 5 := by
    intro kind
    cases kind <;> decide
  have hsum : OfLevel TokenKind.isAdditive 4 4 := by
    intro kind
    cases kind <;> decide
  have hcomparison : OfLevel TokenKind.isComparison 3 4 := by
    intro kind
    cases kind <;> decide
  have hand : OfLevel (· == .andWord) 2 2 := by
    intro kind
    cases kind <;> decide
  have hor : OfLevel (· == .orWord) 1 1 := by
    intro kind
    cases kind <;> decide
  exact ((((h.joined hproduct).joined hsum).compared hcomparison).joined hand).joined hor

/-- The opposite of a number takes at most one minus sign more than the number. -/
theorem negated (hspell : IsLeastSpelling spell) {x : Float} (hx : (Expr.number x).Printable)
    (hdepth : (spell x).signs + 1 ≤ depth) :
    (Expr.number (-x)).Printable ∧ (spell (-x)).signs + 1 ≤ depth + 1 := by
  cases hx with
  | number hsome =>
      have hneg := (hspell.isSpelling x hsome).neg
      have hsigns : (spell (-x)).signs ≤ (spell x).signs + 1 := hspell.signs_le hneg
      exact ⟨.number ⟨_, hneg⟩, by omega⟩

end Written

theorem Grammar.Listed.forall {α : Type} {item : Phrase α} {p : α → Prop}
    (h : ∀ ts a, Scanned ts → item ts a → p a) {ts : List Token} {as : List α}
    (hscanned : Scanned ts) (hlisted : Listed item ts as) : ∀ a ∈ as, p a := by
  induction hlisted with
  | one hitem => exact List.forall_mem_singleton.mpr (h _ _ hscanned hitem)
  | more hitem _ _ ih =>
      obtain ⟨hus, hvs⟩ := hscanned.of_append
      obtain ⟨-, hvs⟩ := hvs.of_cons
      exact List.forall_mem_cons.mpr ⟨h _ _ hus hitem, ih hvs⟩

theorem Grammar.Parenthesised.forall {α : Type} {item : Phrase α} {p : α → Prop}
    (h : ∀ ts a, Scanned ts → item ts a → p a) {ts : List Token} {as : List α}
    (hscanned : Scanned ts) (hitems : Parenthesised item ts as) : ∀ a ∈ as, p a := by
  cases hitems with
  | none => exact List.forall_mem_nil _
  | some _ hlisted =>
      obtain ⟨-, hts⟩ := hscanned.of_cons
      exact hlisted.forall h hts.of_append.1

theorem Expr.listNesting_le {spell : Float → Numeral} {depth : Nat} {args : List Expr}
    (h : ∀ arg ∈ args, arg.nesting spell ≤ depth) : listNesting spell args ≤ depth := by
  induction args with
  | nil => exact Nat.zero_le depth
  | cons e rest ih =>
      rw [List.forall_mem_cons] at h
      exact Nat.max_le.mpr ⟨h.1, ih h.2⟩

namespace Written

variable {spell : Float → Numeral}

theorem operandAt (hspell : IsLeastSpelling spell) (depth : Nat) :
    Written spell 6 depth (OperandAt depth) := by
  induction depth with
  | zero => exact fun _ _ _ hnone => hnone.elim
  | succ depth ih =>
      intro ts e hscanned hoperand
      cases hoperand with
      | @not t _ _ ht hinner =>
          obtain ⟨hword, hts⟩ := hscanned.of_cons
          obtain ⟨hprintable, hdepth⟩ := ih _ _ hts hinner
          rw [UnaryOp.ofSpelling_value (UnaryOp.word_eq_of_kind_eq hword ht)]
          exact ⟨.not hprintable, Nat.succ_le_succ hdepth⟩
      | minusNumber _ hinner =>
          obtain ⟨-, hts⟩ := hscanned.of_cons
          obtain ⟨hprintable, hdepth⟩ := ih _ _ hts hinner
          exact negated hspell hprintable hdepth
      | minus _ hinner hnumber =>
          obtain ⟨-, hts⟩ := hscanned.of_cons
          obtain ⟨hprintable, hdepth⟩ := ih _ _ hts hinner
          exact ⟨.negate hnumber hprintable, Nat.succ_le_succ hdepth⟩
      | number ht hx =>
          obtain ⟨hword, -⟩ := hscanned.of_cons
          have hspells : Numeral.Spells ⟨0, _⟩ _ := ⟨hword.isNumber ht, _, hx, rfl⟩
          have hsigns := hspell.signs_le hspells
          exact ⟨.number ⟨_, hspells⟩, Nat.succ_le_succ (Nat.le_trans hsigns (Nat.zero_le depth))⟩
      | string ht =>
          obtain ⟨hword, -⟩ := hscanned.of_cons
          exact ⟨.string (hword.isContent ht), Nat.succ_le_succ (Nat.zero_le depth)⟩
      | true _ | false _ => exact ⟨.boolean, Nat.succ_le_succ (Nat.zero_le depth)⟩
      | null _ => exact ⟨.null, Nat.succ_le_succ (Nat.zero_le depth)⟩
      | name ht =>
          obtain ⟨hword, -⟩ := hscanned.of_cons
          exact ⟨.name (hword.isName ht), Nat.succ_le_succ (Nat.zero_le depth)⟩
      | call ht hargs =>
          obtain ⟨hword, hts⟩ := hscanned.of_cons
          have hall := hargs.forall ih.expressionOf hts
          have hdepth := Expr.listNesting_le fun arg harg =>
            Nat.le_trans (le_wrappedNesting _ _ _) (hall arg harg).2
          exact ⟨.call (hword.isName ht) fun arg harg => (hall arg harg).1,
            Nat.succ_le_succ hdepth⟩
      | parens _ hinner _ =>
          obtain ⟨-, hts⟩ := hscanned.of_cons
          obtain ⟨hprintable, hdepth⟩ := ih.expressionOf _ _ hts.of_append.1 hinner
          have hinside := Nat.le_trans (le_wrappedNesting _ _ _) hdepth
          exact ⟨hprintable,
            Nat.le_trans (wrappedNesting_le_succ _ _ _) (Nat.succ_le_succ hinside)⟩

end Written

/-- An expression of bounded nesting can be written with that nesting. -/
theorem written_expression {spell : Float → Numeral} (hspell : IsLeastSpelling spell) {depth : Nat}
    {ts : List Token} {e : Expr} (hscanned : Scanned ts)
    (h : ExpressionAt depth ts e) : e.Printable ∧ e.nesting spell ≤ depth := by
  obtain ⟨hprintable, hdepth⟩ := (Written.operandAt hspell depth).expressionOf ts e hscanned h
  exact ⟨hprintable, Nat.le_trans (le_wrappedNesting _ _ _) hdepth⟩

/-! ## Statements -/

section

variable {spell : Float → Numeral} {depth : Nat} {ts : List Token} {plain nested : Phrase Stmt}
  {inner : Phrase (List Stmt)}

theorem Stmt.listNesting_le {body : List Stmt} (h : ∀ stmt ∈ body, stmt.nesting spell ≤ depth) :
    listNesting spell body ≤ depth := by
  induction body with
  | nil => exact Nat.zero_le depth
  | cons stmt rest ih =>
      rw [List.forall_mem_cons] at h
      exact Nat.max_le.mpr ⟨h.1, ih h.2⟩

/-- The statement can be written with a bounded nesting. -/
def Stmt.IsWritten (spell : Float → Numeral) (depth : Nat) (stmt : Stmt) : Prop :=
  stmt.Printable ∧ stmt.nesting spell ≤ depth

theorem Grammar.Parameter.isName (ts : List Token) (param : String) (hscanned : Scanned ts)
    (h : Parameter ts param) : IsName param := by
  cases h with
  | intro ht => exact hscanned.of_cons.1.isName ht

theorem isWritten_simple (hspell : IsLeastSpelling spell) {stmt : Stmt} (hscanned : Scanned ts)
    (h : Simple (ExpressionAt depth) ts stmt) : stmt.IsWritten spell (depth + 1) := by
  cases h with
  | declare _ hname _ h =>
      obtain ⟨-, hts⟩ := hscanned.of_cons
      obtain ⟨hword, hts⟩ := hts.of_cons
      obtain ⟨hprintable, hdepth⟩ := written_expression hspell hts.of_cons.2 h
      exact ⟨.declare (hword.isName hname) hprintable, Nat.succ_le_succ hdepth⟩
  | assign hname _ h =>
      obtain ⟨hword, hts⟩ := hscanned.of_cons
      obtain ⟨hprintable, hdepth⟩ := written_expression hspell hts.of_cons.2 h
      exact ⟨.assign (hword.isName hname) hprintable, Nat.succ_le_succ hdepth⟩
  | print _ h =>
      obtain ⟨hprintable, hdepth⟩ := written_expression hspell hscanned.of_cons.2 h
      exact ⟨.print hprintable, Nat.succ_le_succ hdepth⟩
  | breakLoop => exact ⟨.breakLoop, Nat.succ_le_succ (Nat.zero_le depth)⟩
  | continueLoop => exact ⟨.continueLoop, Nat.succ_le_succ (Nat.zero_le depth)⟩
  | returnNothing => exact ⟨.returnNothing, Nat.succ_le_succ (Nat.zero_le depth)⟩
  | returnValue _ h =>
      obtain ⟨hprintable, hdepth⟩ := written_expression hspell hscanned.of_cons.2 h
      exact ⟨.returnValue hprintable, Nat.succ_le_succ hdepth⟩

/-- What a block, or any phrase for a list of statements, stands for can be written with a bounded
nesting. -/
def WritesBody (spell : Float → Numeral) (depth : Nat) (phrase : Phrase (List Stmt)) : Prop :=
  ∀ ts body, Scanned ts → phrase ts body → ∀ stmt ∈ body, stmt.IsWritten spell depth

theorem WritesBody.block (h : WritesBody spell depth inner) :
    WritesBody spell depth (Block inner) := by
  intro ts body hscanned hblock
  cases hblock with
  | intro _ hinner _ =>
      obtain ⟨-, hts⟩ := hscanned.of_cons
      exact h _ _ hts.of_append.1 hinner

theorem WritesBody.clause (hspell : IsLeastSpelling spell) (h : WritesBody spell depth inner)
    {clause : Expr × List Stmt} (hscanned : Scanned ts)
    (hclause : Clause (ExpressionAt depth) inner ts clause) :
    (clause.1.Printable ∧ clause.1.nesting spell ≤ depth) ∧
      ∀ stmt ∈ clause.2, stmt.IsWritten spell depth := by
  cases hclause with
  | intro htest _ hbody =>
      obtain ⟨hus, hvs⟩ := hscanned.of_append
      exact ⟨written_expression hspell hus htest, h _ _ hvs.of_append.2 hbody⟩

theorem WritesBody.alternative (hspell : IsLeastSpelling spell) (h : WritesBody spell depth inner)
    {alternative : Alternative} (hscanned : Scanned ts)
    (halternative : AlternativeOf (ExpressionAt depth) inner ts alternative) :
    alternative.Printable ∧ alternative.nesting spell ≤ depth := by
  induction halternative with
  | nothing => exact ⟨.nothing, Nat.zero_le depth⟩
  | otherwise _ _ _ hbody =>
      obtain ⟨-, hts⟩ := hscanned.of_append
      obtain ⟨-, hts⟩ := hts.of_cons
      have hall := h _ _ hts.of_append.2 hbody
      exact ⟨.otherwise fun stmt hstmt => (hall stmt hstmt).1,
        Stmt.listNesting_le fun stmt hstmt => (hall stmt hstmt).2⟩
  | elseIf _ _ hclause _ ih =>
      obtain ⟨-, hts⟩ := hscanned.of_append
      obtain ⟨-, hts⟩ := hts.of_cons
      obtain ⟨hus, hvs⟩ := hts.of_append
      obtain ⟨hcondition, hbody⟩ := h.clause hspell hus hclause
      obtain ⟨hnext, hdepth⟩ := ih hvs
      have hlist := Stmt.listNesting_le fun stmt hstmt => (hbody stmt hstmt).2
      exact ⟨.elseIf hcondition.1 (fun stmt hstmt => (hbody stmt hstmt).1) hnext,
        Nat.max_le.mpr ⟨hcondition.2, Nat.max_le.mpr ⟨hlist, hdepth⟩⟩⟩

theorem WritesBody.compound (hspell : IsLeastSpelling spell) (h : WritesBody spell depth inner)
    {stmt : Stmt} (hscanned : Scanned ts)
    (hcompound : Compound (ExpressionAt depth) inner ts stmt) :
    stmt.IsWritten spell (depth + 1) := by
  cases hcompound with
  | ifThen _ hclause hnext =>
      obtain ⟨-, hts⟩ := hscanned.of_cons
      obtain ⟨hus, hvs⟩ := hts.of_append
      obtain ⟨hcondition, hbody⟩ := h.clause hspell hus hclause
      obtain ⟨halternative, hdepth⟩ := h.alternative hspell hvs hnext
      have hlist := Stmt.listNesting_le fun stmt hstmt => (hbody stmt hstmt).2
      exact ⟨.ifThen hcondition.1 (fun stmt hstmt => (hbody stmt hstmt).1) halternative,
        Nat.succ_le_succ (Nat.max_le.mpr ⟨hcondition.2, Nat.max_le.mpr ⟨hlist, hdepth⟩⟩)⟩
  | whileDo _ hclause =>
      obtain ⟨hcondition, hbody⟩ := h.clause hspell hscanned.of_cons.2 hclause
      have hlist := Stmt.listNesting_le fun stmt hstmt => (hbody stmt hstmt).2
      exact ⟨.whileDo hcondition.1 fun stmt hstmt => (hbody stmt hstmt).1,
        Nat.succ_le_succ (Nat.max_le.mpr ⟨hcondition.2, hlist⟩)⟩
  | function _ hname hparams _ hbody =>
      obtain ⟨-, hts⟩ := hscanned.of_cons
      obtain ⟨hword, hts⟩ := hts.of_cons
      obtain ⟨hus, hvs⟩ := hts.of_append
      have hnames := hparams.forall Parameter.isName hus
      have hall := h _ _ hvs.of_append.2 hbody
      exact ⟨.function (hword.isName hname) hnames fun stmt hstmt => (hall stmt hstmt).1,
        Nat.succ_le_succ (Stmt.listNesting_le fun stmt hstmt => (hall stmt hstmt).2)⟩

theorem writesBody_listOf
    (hplain : ∀ ts stmt, Scanned ts → plain ts stmt → stmt.IsWritten spell depth)
    (hnested : ∀ ts stmt, Scanned ts → nested ts stmt → stmt.IsWritten spell depth) :
    WritesBody spell depth (ListOf plain nested) := by
  intro ts body hscanned hlist
  induction hlist with
  | done => exact List.forall_mem_nil _
  | lineEnd _ _ ih => exact ih hscanned.of_cons.2
  | compound h _ ih =>
      obtain ⟨hus, hvs⟩ := hscanned.of_append
      exact List.forall_mem_cons.mpr ⟨hnested _ _ hus h, ih hvs⟩
  | simple h _ _ ih =>
      obtain ⟨hus, hvs⟩ := hscanned.of_append
      exact List.forall_mem_cons.mpr ⟨hplain _ _ hus h, ih hvs.of_cons.2⟩
  | last h => exact List.forall_mem_singleton.mpr (hplain _ _ hscanned h)

theorem writesBody_statementsAt (hspell : IsLeastSpelling spell) (depth : Nat) :
    WritesBody spell depth (StatementsAt depth) := by
  induction depth with
  | zero => exact writesBody_listOf (fun _ _ _ hnone => hnone.elim) fun _ _ _ hnone => hnone.elim
  | succ depth ih =>
      apply writesBody_listOf
      · exact fun _ _ hscanned h => isWritten_simple hspell hscanned h
      · exact fun _ _ hscanned h => ih.block.compound hspell hscanned h

end

/-! ## Programs -/

/-- A program that is read from scanned tokens can be written, nested no more deeply. -/
theorem printable_of_marked {spell : Float → Numeral} (hspell : IsLeastSpelling spell)
    {depth : Nat} {ts : List Token} {P : Program} (hscanned : Scanned ts)
    (h : Marked (StatementsAt depth) ts P) :
    P.Printable ∧ P.nesting spell ≤ depth := by
  cases h with
  | intro _ _ hbody _ =>
      obtain ⟨-, hts⟩ := hscanned.of_cons
      obtain ⟨-, hts⟩ := hts.of_cons
      have hall := writesBody_statementsAt hspell depth _ _ hts.of_append.1 hbody
      exact ⟨fun stmt hstmt => (hall stmt hstmt).1,
        Stmt.listNesting_le fun stmt hstmt => (hall stmt hstmt).2⟩
  | empty => exact ⟨List.forall_mem_nil _, Nat.zero_le depth⟩

end Bol
