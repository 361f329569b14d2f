/-
# The bound on the depth

What the bound on the depth can change about reading. A reader with a higher bound does the same,
unless the lower one stops it for its depth; and no reader is stopped that way on fewer tokens
than its bound. Both are one relation between readers, which every way to build readers from
others respects: a level costs a token.
-/

import Bol.Proofs.Program.Readers

namespace Bol

namespace Parser

/-- Tokens that are left of others when some are taken from the front, the end of the input not
among them. -/
def Leaves (ts rest : List Token) : Prop :=
  ∃ used, ts = used ++ rest ∧ ∀ t ∈ used, t.kind ≠ .endOfInput

theorem Leaves.refl (ts : List Token) : Leaves ts ts := ⟨[], rfl, by simp⟩

theorem Leaves.trans {ts middle rest : List Token} (h : Leaves ts middle)
    (h' : Leaves middle rest) : Leaves ts rest := by
  obtain ⟨first, rfl, hfirst⟩ := h
  obtain ⟨second, rfl, hsecond⟩ := h'
  refine ⟨first ++ second, by simp, fun t ht => ?_⟩
  exact (List.mem_append.mp ht).elim (hfirst t) (hsecond t)

theorem Leaves.length_le {ts rest : List Token} (h : Leaves ts rest) :
    rest.length ≤ ts.length := by
  obtain ⟨used, rfl, _⟩ := h
  simp

theorem leaves_afterCurrent (ts : List Token) : Leaves ts (afterCurrent ts) := by
  by_cases hend : (current ts).kind = .endOfInput
  · rw [afterCurrent_of_end hend]
    exact .refl ts
  · exact ⟨[current ts], eq_cons_afterCurrent rfl hend, by simpa using hend⟩

theorem length_afterCurrent_le (ts : List Token) : (afterCurrent ts).length ≤ ts.length :=
  (leaves_afterCurrent ts).length_le

theorem length_afterCurrent_lt {ts : List Token} (hend : (current ts).kind ≠ .endOfInput) :
    (afterCurrent ts).length < ts.length := by
  have hlength := congrArg List.length (eq_cons_afterCurrent rfl hend)
  rw [List.length_cons] at hlength
  omega

/-- Two outcomes of reading `ts`: where the first is not too deep, the second is the same, and it
leaves some of the tokens; where it is, there are at least `bound` tokens. -/
def Deepened {α : Type} (bound : Nat) (ts : List Token) :
    (outcome outcome' : Except ParseStop (α × List Token)) → Prop
  | .ok (a, rest), outcome' => outcome' = .ok (a, rest) ∧ Leaves ts rest
  | .error (.error error), outcome' => outcome' = .error (.error error)
  | .error .tooDeep, _ => bound ≤ ts.length
  | .error (.notNumber text), outcome' => outcome' = .error (.notNumber text)

/-- The second reader does what the first does, unless that finds `bound` or more tokens too
deep. -/
def Deepens {α : Type} (bound : Nat) (p p' : Parser α) : Prop :=
  ∀ ts, Deepened bound ts (p ts) (p' ts)

variable {α β : Type} {bound n : Nat} {ts : List Token}

/-- A token taken first makes up for one level. -/
theorem Deepened.after_afterCurrent {outcome outcome' : Except ParseStop (α × List Token)}
    (h : Deepened bound (afterCurrent ts) outcome outcome')
    (hend : (current ts).kind ≠ .endOfInput) : Deepened (bound + 1) ts outcome outcome' := by
  rcases outcome with (error | _ | text) | ⟨a, last⟩
  · exact h
  · have hlength := length_afterCurrent_lt hend
    change bound ≤ (afterCurrent ts).length at h
    change bound + 1 ≤ ts.length
    omega
  · exact h
  · exact ⟨h.1, (leaves_afterCurrent ts).trans h.2⟩

/-- Nothing shorter than the bound is too deep. -/
theorem Deepened.run'_ne_tooDeep {p p' : Parser α} (h : Deepened bound ts (p ts) (p' ts))
    (hlength : ts.length < bound) : p.run' ts ≠ .error .tooDeep := by
  intro hstop
  rw [run'_apply] at hstop
  rcases hp : p ts with (error | _ | text) | ⟨a, rest⟩ <;> rw [hp] at hstop h
  · cases hstop
  · exact absurd h (Nat.not_le_of_lt hlength)
  · cases hstop
  · cases hstop

namespace Deepens

variable {p p' : Parser α} {next next' : α → Parser β}

theorem leaves (h : Deepens bound p p') {a : α} {rest : List Token} (hp : p ts = .ok (a, rest)) :
    Leaves ts rest := by
  have hts := h ts
  rw [hp] at hts
  exact hts.2

theorem bind (h : Deepens bound p p') (hnext : ∀ a, Deepens bound (next a) (next' a)) :
    Deepens bound (p >>= next) (p' >>= next') := by
  intro ts
  rw [bind_apply, bind_apply]
  have hfirst := h ts
  rcases hp : p ts with (error | _ | text) | ⟨a, rest⟩ <;> rw [hp] at hfirst
  · rw [show p' ts = _ from hfirst]
    rfl
  · exact hfirst
  · rw [show p' ts = _ from hfirst]
    rfl
  · rw [hfirst.1]
    have hsecond := hnext a rest
    change Deepened bound ts (next a rest) (next' a rest)
    rcases hrest : next a rest with (error | _ | text) | ⟨b, last⟩ <;> rw [hrest] at hsecond
    · exact hsecond
    · exact Nat.le_trans hsecond hfirst.2.length_le
    · exact hsecond
    · exact ⟨hsecond.1, hfirst.2.trans hsecond.2⟩

theorem pure (a : α) : Deepens bound (Pure.pure a) (Pure.pure a) :=
  fun ts => ⟨rfl, .refl ts⟩

theorem map (f : α → β) (h : Deepens bound p p') : Deepens bound (f <$> p) (f <$> p') := by
  intro ts
  rw [map_apply, map_apply]
  exact h.bind (fun _ => pure _) ts

theorem fail (error : ParseError) : Deepens bound (fail error : Parser α) (fail error) :=
  fun _ => rfl

theorem tooDeep (p : Parser α) : Deepens 0 tooDeep p := fun _ => Nat.zero_le _

theorem peek : Deepens bound peek peek := fun ts => ⟨rfl, .refl ts⟩

theorem advance : Deepens bound advance advance := fun ts => ⟨rfl, leaves_afterCurrent ts⟩

theorem ite {c : Prop} [Decidable c] {q q' : Parser α} (hp : Deepens bound p p')
    (hq : Deepens bound q q') : Deepens bound (if c then p else q) (if c then p' else q') := by
  split
  · exact hp
  · exact hq

theorem accept (kind : TokenKind) : Deepens bound (accept kind) (accept kind) :=
  peek.bind fun _ => ite (advance.bind fun _ => pure _) (pure _)

theorem expect (kind : TokenKind) : Deepens bound (expect kind) (expect kind) :=
  peek.bind fun _ => ite advance (fail _)

theorem skipLineEnd : Deepens bound skipLineEnd skipLineEnd :=
  (accept _).bind fun _ => pure _

theorem endStatement : Deepens bound endStatement endStatement :=
  peek.bind fun _ => ite (advance.bind fun _ => pure _) (ite (pure _) (fail _))

/-! ## Expressions -/

section

variable {minus : Expr → Expr} {isOp : TokenKind → Bool} {part part' value value' : Parser Expr}

theorem chain (h : Deepens bound part part') (left : Expr) :
    Deepens bound (chain isOp part n left) (chain isOp part' n left) := by
  induction n generalizing left with
  | zero => exact pure left
  | succ n ih => exact peek.bind fun _ => ite (advance.bind fun _ => h.bind fun _ => ih _) (pure _)

theorem leftAssociative (h : Deepens bound part part') :
    Deepens bound (leftAssociative n isOp part) (leftAssociative n isOp part') :=
  h.bind fun left => h.chain left

theorem comparison (h : Deepens bound part part') :
    Deepens bound (comparison part) (comparison part') :=
  h.bind fun _ => peek.bind fun _ => ite (advance.bind fun _ => h.bind fun _ => pure _) (pure _)

theorem expressionOf (h : Deepens bound part part') :
    Deepens bound (expressionOf n part) (expressionOf n part') :=
  h.leftAssociative.leftAssociative.comparison.leftAssociative.leftAssociative

theorem moreItems (h : Deepens bound p p') (items : List α) :
    Deepens bound (moreItems p n items) (moreItems p' n items) := by
  induction n generalizing items with
  | zero => exact pure _
  | succ n ih => exact (accept _).bind fun _ => ite (h.bind fun _ => ih _) (pure _)

theorem listOf (h : Deepens bound p p') : Deepens bound (listOf n p) (listOf n p') := by
  refine (expect _).bind fun _ => peek.bind fun _ => ite ((pure _).bind fun _ => ?_)
    (h.bind fun _ => (h.moreItems _).bind fun _ => ?_)
  all_goals exact (expect _).bind fun _ => pure _

theorem numberLiteral (text : String) :
    Deepens bound (numberLiteral text) (numberLiteral text) := by
  unfold Parser.numberLiteral
  cases Number.ofText? text with
  | none => exact fun _ => rfl
  | some value => exact pure _

theorem nameOrCall (h : Deepens bound value value') (name : String) :
    Deepens bound (nameOrCall n value name) (nameOrCall n value' name) := by
  intro ts
  unfold Parser.nameOrCall
  by_cases hcall : (current ts).kind = .leftParen
  · rw [if_pos hcall, if_pos hcall]
    exact h.listOf.bind (fun _ => pure _) ts
  · rw [if_neg hcall, if_neg hcall]
    exact ⟨rfl, .refl ts⟩

theorem primaryAfter (h : Deepens bound value value') (t : Token) :
    Deepens bound (primaryAfter n value t) (primaryAfter n value' t) := by
  unfold Parser.primaryAfter
  split
  case h_1 => exact numberLiteral _
  case h_6 => exact h.nameOrCall _
  case h_7 => exact h.bind fun _ => (expect _).bind fun _ => pure _
  case h_8 => exact fail _
  all_goals exact pure _

theorem primary (h : Deepens bound value value') :
    Deepens (bound + 1) (primary n value) (primary n value') := by
  intro ts
  rw [primary_apply, primary_apply]
  by_cases hend : (current ts).kind = .endOfInput
  · unfold Parser.primaryAfter
    rw [hend]
    rfl
  · exact (h.primaryAfter _ _).after_afterCurrent hend

theorem operand {depth depth' : Nat} (hle : depth ≤ depth') :
    Deepens depth (operand minus n depth) (operand minus n depth') := by
  induction depth generalizing depth' with
  | zero => exact tooDeep _
  | succ depth ih =>
      obtain ⟨depth', rfl⟩ : ∃ fewer, depth' = fewer + 1 := ⟨depth' - 1, by omega⟩
      have hpart := ih (Nat.le_of_succ_le_succ hle)
      intro ts
      rw [operand_succ_apply, operand_succ_apply]
      split
      case h_1 ht =>
        exact (hpart.bind (fun _ => pure _) _).after_afterCurrent (by simp [ht])
      case h_2 ht =>
        exact (hpart.bind (fun _ => pure _) _).after_afterCurrent (by simp [ht])
      case h_3 => exact hpart.expressionOf.primary ts

theorem expression {depth depth' : Nat} (hle : depth ≤ depth') :
    Deepens depth (expression minus n depth) (expression minus n depth') :=
  (operand hle).expressionOf

end

/-! ## Statements -/

section

variable {minus : Expr → Expr} {ends : TokenKind → Bool} {value value' : Parser Expr}
  {body body' : Parser (List Stmt)} {one one' : Parser Stmt}

theorem statementsFrom (h : Deepens bound one one') (read : List Stmt) :
    Deepens bound (statementsFrom one ends n read) (statementsFrom one' ends n read) := by
  induction n generalizing read with
  | zero => exact pure _
  | succ n ih =>
      exact peek.bind fun _ => ite (pure _) <| (accept _).bind fun _ => ite (ih _) <|
        h.bind fun _ => ih _

theorem block (h : Deepens bound one one') : Deepens bound (block n one) (block n one') :=
  (expect _).bind fun _ => skipLineEnd.bind fun _ => (h.statementsFrom _).bind fun _ =>
    (expect _).bind fun _ => pure _

theorem clause (hvalue : Deepens bound value value') (hbody : Deepens bound body body') :
    Deepens bound (clause value body) (clause value' body') :=
  hvalue.bind fun _ => skipLineEnd.bind fun _ => hbody.bind fun _ => pure _

theorem alternative (hvalue : Deepens bound value value') (hbody : Deepens bound body body')
    (clauses : List (Expr × List Stmt)) :
    Deepens bound (alternative value body n clauses) (alternative value' body' n clauses) := by
  induction n generalizing clauses with
  | zero => exact pure _
  | succ n ih =>
      refine skipLineEnd.bind fun _ => (accept _).bind fun _ =>
        ite ((hvalue.clause hbody).bind fun _ => ih _) ((accept _).bind fun _ => ite ?_ (pure _))
      exact skipLineEnd.bind fun _ => hbody.bind fun _ => pure _

theorem binding (hvalue : Deepens bound value value') :
    Deepens bound (binding value) (binding value') :=
  (expect _).bind fun _ => hvalue.bind fun _ => endStatement.bind fun _ => pure _

theorem statementAfter (hvalue : Deepens bound value value') (hbody : Deepens bound body body')
    (t : Token) :
    Deepens bound (statementAfter n value body t) (statementAfter n value' body' t) := by
  unfold Parser.statementAfter
  cases t.kind
  case declare => exact (expect _).bind fun _ => hvalue.binding.bind fun _ => pure _
  case identifier => exact peek.bind fun _ => ite (fail _) (hvalue.binding.bind fun _ => pure _)
  case print => exact hvalue.bind fun _ => endStatement.bind fun _ => pure _
  case ifWord =>
    exact (hvalue.clause hbody).bind fun _ => (hvalue.alternative hbody _).bind fun _ =>
      skipLineEnd.bind fun _ => pure _
  case whileWord => exact (hvalue.clause hbody).bind fun _ => skipLineEnd.bind fun _ => pure _
  case breakWord => exact endStatement.bind fun _ => pure _
  case continueWords => exact endStatement.bind fun _ => pure _
  case functionWord =>
    exact (expect _).bind fun _ => ((expect _).map _).listOf.bind fun _ =>
      skipLineEnd.bind fun _ => hbody.bind fun _ => skipLineEnd.bind fun _ => pure _
  case returnWord =>
    exact peek.bind fun _ => ite (skipLineEnd.bind fun _ => pure _)
      (hvalue.bind fun _ => endStatement.bind fun _ => pure _)
  all_goals exact fail _

theorem statement {depth depth' : Nat} (hle : depth ≤ depth') :
    Deepens depth (statement minus n depth) (statement minus n depth') := by
  induction depth generalizing depth' with
  | zero => exact tooDeep _
  | succ depth ih =>
      obtain ⟨depth', rfl⟩ : ∃ fewer, depth' = fewer + 1 := ⟨depth' - 1, by omega⟩
      have hle := Nat.le_of_succ_le_succ hle
      intro ts
      rw [statement_succ_apply, statement_succ_apply]
      by_cases hend : (current ts).kind = .endOfInput
      · unfold Parser.statementAfter
        rw [hend]
        rfl
      · exact ((expression hle).statementAfter (ih hle).block _ _).after_afterCurrent hend

theorem program {depth depth' : Nat} (hle : depth ≤ depth') :
    Deepens depth (program minus n depth) (program minus n depth') :=
  (expect _).bind fun _ => endStatement.bind fun _ =>
    ((statement hle).statementsFrom _).bind fun _ => (expect _).bind fun _ => pure _

theorem fragment {depth depth' : Nat} (hle : depth ≤ depth') :
    Deepens depth (fragment minus n depth) (fragment minus n depth') :=
  ((statement hle).statementsFrom _).bind fun _ => (expect _).bind fun _ => pure _

end

end Deepens

end Parser

end Bol
