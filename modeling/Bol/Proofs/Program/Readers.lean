/-
# What readers do with a list of tokens

The equations of the readers, applied to the tokens they take from. Later proofs follow a reader
through these and never open its definition. A reader that takes the end of the input leaves it in
place, so taking a token is taking the head of the list only for the other kinds.
-/

import Bol.Proofs.Program.Grammar

namespace Bol

open Grammar

/-- The kinds that a statement without a block may stand before. -/
def TokenKind.endsSimple (kind : TokenKind) : Bool := kind == .newline || kind.closesList

namespace Parser

variable {α β : Type} {p : Parser α} {next : α → Parser β} {a : α} {b : β} {t : Token}
  {ts rest : List Token} {kind : TokenKind}

/-! ## Sequencing -/

theorem bind_apply (p : Parser α) (next : α → Parser β) (ts : List Token) :
    (p >>= next) ts =
      match p ts with
      | .ok (a, rest) => next a rest
      | .error stop => .error stop := by
  change Except.bind _ _ = _
  cases p ts <;> rfl

theorem bind_of_ok (h : p ts = .ok (a, rest)) : (p >>= next) ts = next a rest := by
  rw [bind_apply, h]

theorem bind_eq_ok :
    (p >>= next) ts = .ok (b, rest) ↔
      ∃ a middle, p ts = .ok (a, middle) ∧ next a middle = .ok (b, rest) := by
  rw [bind_apply]
  constructor
  · intro h
    rcases hp : p ts with stop | ⟨a, middle⟩ <;> rw [hp] at h
    · contradiction
    · exact ⟨a, middle, rfl, h⟩
  · rintro ⟨a, middle, hp, h⟩
    rw [hp]
    exact h

theorem bind_congr {other : α → Parser β} (h : ∀ a rest, next a rest = other a rest) :
    (p >>= next) ts = (p >>= other) ts := by
  rw [bind_apply, bind_apply]
  rcases p ts with stop | ⟨a, rest⟩
  · rfl
  · exact h a rest

theorem pure_apply (a : α) (ts : List Token) : (pure a : Parser α) ts = .ok (a, ts) := rfl

theorem map_apply (f : α → β) (p : Parser α) (ts : List Token) :
    (f <$> p) ts = (p >>= fun a => pure (f a)) ts := by
  rw [bind_apply]
  change Except.map _ _ = _
  rcases p ts with stop | ⟨a, rest⟩ <;> rfl

theorem run'_apply {α : Type} (p : Parser α) (ts : List Token) :
    p.run' ts = (p ts).map Prod.fst := rfl

theorem run'_eq_error {stop : ParseStop} : p.run' ts = .error stop ↔ p ts = .error stop := by
  rw [run'_apply]
  cases p ts <;> simp [Except.map]

/-! ## The first token -/

@[simp]
theorem current_cons (t : Token) (ts : List Token) : current (t :: ts) = t := rfl

theorem afterCurrent_cons (ht : t.kind = kind) (hkind : kind ≠ .endOfInput) :
    afterCurrent (t :: ts) = ts := by
  simp [afterCurrent, ht, hkind]

theorem afterCurrent_subset (ts : List Token) : afterCurrent ts ⊆ ts := by
  cases ts with
  | nil => exact List.Subset.refl []
  | cons t ts =>
      rw [afterCurrent]
      split
      · exact List.Subset.refl _
      · exact List.subset_cons_self t ts

/-- The end of the input stays in place. -/
theorem afterCurrent_of_end (h : (current ts).kind = .endOfInput) : afterCurrent ts = ts := by
  cases ts with
  | nil => rfl
  | cons t ts => exact if_pos h

/-- A first token that is not the end of the input is the head of the list. -/
theorem eq_cons_afterCurrent (h : (current ts).kind = kind) (hkind : kind ≠ .endOfInput) :
    ts = current ts :: afterCurrent ts := by
  cases ts with
  | nil => exact absurd h hkind.symm
  | cons t ts => rw [current_cons] at h ⊢; rw [afterCurrent_cons h hkind]

/-- What is left when a line end is taken if there is one. -/
def afterLineEnd (ts : List Token) : List Token :=
  if (current ts).kind = .newline then afterCurrent ts else ts

theorem afterLineEnd_of_eq (h : (current ts).kind = .newline) :
    afterLineEnd ts = afterCurrent ts := if_pos h

theorem afterLineEnd_of_ne (h : (current ts).kind ≠ .newline) : afterLineEnd ts = ts := if_neg h

/-- Taking a line end if there is one leaves the tokens after at most one line end. -/
theorem exists_break (ts : List Token) : ∃ line, ts = line ++ afterLineEnd ts ∧ Break line := by
  by_cases h : (current ts).kind = .newline
  · rw [afterLineEnd_of_eq h]
    exact ⟨[current ts], eq_cons_afterCurrent h (by decide), .one h⟩
  · rw [afterLineEnd_of_ne h]
    exact ⟨[], rfl, .none⟩

/-- A line end that may stand before other tokens is the one that is taken there. -/
theorem afterLineEnd_break {line : List Token} (h : Break line)
    (hts : (current ts).kind ≠ .newline) : afterLineEnd (line ++ ts) = ts := by
  cases h with
  | none => exact afterLineEnd_of_ne hts
  | @one t ht =>
      have hcurrent : (current (t :: ts)).kind = .newline := ht
      exact (afterLineEnd_of_eq hcurrent).trans (afterCurrent_cons ht (by decide))

theorem accept_apply (kind : TokenKind) (ts : List Token) :
    accept kind ts =
      if (current ts).kind = kind then .ok (true, afterCurrent ts) else .ok (false, ts) := by
  rw [accept, bind_apply]
  change (ite _ _ _ : Parser Bool) ts = _
  by_cases h : (current ts).kind = kind
  · rw [if_pos h, if_pos h]
    rfl
  · rw [if_neg h, if_neg h]
    rfl

theorem expect_apply (kind : TokenKind) (ts : List Token) :
    expect kind ts =
      if (current ts).kind = kind then .ok (current ts, afterCurrent ts)
      else .error (.error (.expected kind (current ts))) := by
  rw [expect, bind_apply]
  change (ite _ _ _ : Parser Token) ts = _
  split <;> rfl

theorem accept_bind_apply (next : Bool → Parser β) :
    (accept kind >>= next) ts =
      if (current ts).kind = kind then next true (afterCurrent ts) else next false ts := by
  rw [bind_apply, accept_apply]
  by_cases h : (current ts).kind = kind
  · rw [if_pos h, if_pos h]
  · rw [if_neg h, if_neg h]

theorem skipLineEnd_apply (ts : List Token) : skipLineEnd ts = .ok ((), afterLineEnd ts) := by
  rw [skipLineEnd, bind_apply, accept_apply]
  by_cases h : (current ts).kind = .newline
  · rw [if_pos h, afterLineEnd_of_eq h]
    rfl
  · rw [if_neg h, afterLineEnd_of_ne h]
    rfl

theorem endStatement_apply (ts : List Token) :
    endStatement ts =
      if (current ts).kind.endsSimple = true then .ok ((), afterLineEnd ts)
      else .error (.error (.afterStatement (current ts))) := by
  rw [endStatement, bind_apply]
  change (ite _ _ _ : Parser Unit) ts = _
  by_cases hline : (current ts).kind = .newline
  · rw [if_pos hline, if_pos (by simp [TokenKind.endsSimple, hline]), afterLineEnd_of_eq hline]
    rfl
  · rw [if_neg hline, afterLineEnd_of_ne hline]
    cases hcloses : (current ts).kind.closesList <;> simp [TokenKind.endsSimple, hline, hcloses] <;>
      rfl

theorem expect_eq_ok :
    expect kind ts = .ok (t, rest) ↔
      (current ts).kind = kind ∧ t = current ts ∧ rest = afterCurrent ts := by
  rw [expect_apply]
  by_cases h : (current ts).kind = kind
  · rw [if_pos h]
    simp only [Except.ok.injEq, Prod.mk.injEq, h, true_and, eq_comm]
  · simp [h]

theorem endStatement_eq_ok {u : Unit} :
    endStatement ts = .ok (u, rest) ↔
      (current ts).kind.endsSimple = true ∧ rest = afterLineEnd ts := by
  rw [endStatement_apply]
  by_cases h : (current ts).kind.endsSimple = true
  · rw [if_pos h]
    simp only [Except.ok.injEq, Prod.mk.injEq, h, true_and, eq_comm]
  · simp [h]

/-- The token that is expected is the head of the list. -/
theorem expect_cons (ht : t.kind = kind) (hkind : kind ≠ .endOfInput) :
    expect kind (t :: ts) = .ok (t, ts) := by
  rw [expect_apply, current_cons, if_pos ht, afterCurrent_cons ht hkind]

theorem eq_cons_of_expect (hkind : kind ≠ .endOfInput) (h : expect kind ts = .ok (t, rest)) :
    ts = t :: rest ∧ t.kind = kind := by
  obtain ⟨hcurrent, rfl, rfl⟩ := expect_eq_ok.mp h
  exact ⟨eq_cons_afterCurrent hcurrent hkind, hcurrent⟩

/-! ## Expressions -/

section

variable {isOp : TokenKind → Bool} {operand : Parser Expr} {item : Parser α} {n : Nat}

theorem chain_succ_apply (left : Expr) :
    chain isOp operand (n + 1) left ts =
      if isOp (current ts).kind = true then
        (operand >>= fun right =>
          chain isOp operand n (.binary (.ofSpelling (current ts).value) left right))
          (afterCurrent ts)
      else .ok (left, ts) := by
  rw [chain, bind_apply]
  change (ite _ _ _ : Parser Expr) ts = _
  split <;> rfl

theorem leftAssociative_apply :
    leftAssociative n isOp operand ts = (operand >>= chain isOp operand n) ts := rfl

theorem comparison_apply :
    comparison operand ts =
      (operand >>= fun left ts =>
        if (current ts).kind.isComparison = true then
          (operand >>= fun right =>
            pure (.binary (.ofSpelling (current ts).value) left right)) (afterCurrent ts)
        else .ok (left, ts)) ts := by
  refine bind_congr fun left ts => ?_
  change (ite _ _ _ : Parser Expr) ts = _
  split <;> rfl

theorem moreItems_succ_apply (items : List α) :
    moreItems item (n + 1) items ts =
      if (current ts).kind = .comma then
        (item >>= fun next => moreItems item n (next :: items)) (afterCurrent ts)
      else .ok (items.reverse, ts) := by
  rw [moreItems, accept_bind_apply]
  split <;> rfl

/-- What `listOf` reads between the parentheses. -/
def itemsInside (n : Nat) (item : Parser α) : Parser (List α) := fun ts =>
  if (current ts).kind = .rightParen then .ok ([], ts)
  else (item >>= fun first => moreItems item n [first]) ts

theorem listOf_apply :
    listOf n item ts =
      (expect .leftParen >>= fun _ => itemsInside n item >>= fun items =>
        expect .rightParen >>= fun _ => pure items) ts := by
  refine bind_congr fun _ ts => ?_
  change (ite _ _ _ : Parser (List α)) ts = _
  rw [bind_apply, itemsInside]
  by_cases h : (current ts).kind = .rightParen
  · rw [if_pos h, if_pos h]
    rfl
  · rw [if_neg h, if_neg h, ← bind_apply]
    rw [bind_assoc]

/-- What `primary` does after it has taken the name of something. -/
def nameOrCall (n : Nat) (expression : Parser Expr) (name : String) : Parser Expr := fun ts =>
  if (current ts).kind = .leftParen then
    (listOf n expression >>= fun args => pure (.call name args)) ts
  else .ok (.name name, ts)

theorem numberLiteral_of_eq_some {text : String} {x : Float} (h : Number.ofText? text = some x) :
    numberLiteral text = pure (.number x) := by
  rw [numberLiteral, h]

theorem numberLiteral_of_eq_none {text : String} (h : Number.ofText? text = none) :
    numberLiteral text = notNumber text := by
  rw [numberLiteral, h]

/-- What `primary` does after its first token. -/
def primaryAfter (n : Nat) (expression : Parser Expr) (t : Token) : Parser Expr :=
  match t.kind with
  | .number => numberLiteral t.value
  | .string => pure (.string t.value)
  | .trueWord => pure (.boolean true)
  | .falseWord => pure (.boolean false)
  | .nullWord => pure .null
  | .identifier => nameOrCall n expression t.value
  | .leftParen => expression >>= fun inner => expect .rightParen >>= fun _ => pure inner
  | _ => fail (.noExpression t)

theorem primary_apply (expression : Parser Expr) :
    primary n expression ts = primaryAfter n expression (current ts) (afterCurrent ts) := by
  rw [primary, bind_apply, primaryAfter]
  simp only [advance]
  generalize (current ts).kind = kind
  cases kind
  case identifier =>
    change (ite _ _ _ : Parser Expr) _ = ite _ _ _
    split <;> rfl
  all_goals rfl

theorem operand_succ_apply (minus : Expr → Expr) (depth : Nat) :
    Parser.operand minus n (depth + 1) ts =
      match (current ts).kind with
      | .notWord =>
        (Parser.operand minus n depth >>= fun e =>
          pure (.unary (.ofSpelling (current ts).value) e)) (afterCurrent ts)
      | .minus =>
        (Parser.operand minus n depth >>= fun e => pure (minus e)) (afterCurrent ts)
      | _ => primary n (expression minus n depth) ts := by
  rw [Parser.operand, bind_apply]
  simp only [peek]
  generalize (current ts).kind = kind
  cases kind <;> rfl

end

/-! ## Statements -/

end Parser

/-- The alternative that tries `clauses` in order and then goes on with `next`. -/
def Alternative.afterClauses (clauses : List (Expr × List Stmt)) (next : Alternative) :
    Alternative :=
  clauses.foldr (fun clause next => .elseIf clause.1 clause.2 next) next

theorem Alternative.afterClauses_reverse_cons (clause : Expr × List Stmt)
    (clauses : List (Expr × List Stmt)) (next : Alternative) :
    afterClauses (clause :: clauses).reverse next =
      afterClauses clauses.reverse (.elseIf clause.1 clause.2 next) := by
  simp [afterClauses]

namespace Parser

section

variable {value : Parser Expr} {body : Parser (List Stmt)} {statement : Parser Stmt}
  {ends : TokenKind → Bool} {n : Nat}

theorem skipLineEnd_bind_apply (next : Unit → Parser β) :
    (skipLineEnd >>= next) ts = next () (afterLineEnd ts) :=
  bind_of_ok (skipLineEnd_apply ts)

theorem statementsFrom_succ_apply (read : List Stmt) :
    statementsFrom statement ends (n + 1) read ts =
      if ends (current ts).kind = true then .ok (read.reverse, ts)
      else if (current ts).kind = .newline then
        statementsFrom statement ends n read (afterCurrent ts)
      else (statement >>= fun next => statementsFrom statement ends n (next :: read)) ts := by
  rw [statementsFrom, bind_apply]
  change (ite _ _ _ : Parser (List Stmt)) ts = _
  split
  · rfl
  · rw [accept_bind_apply]
    split <;> rfl

theorem block_apply :
    block n statement ts =
      (expect .leftBrace >>= fun _ ts =>
        (statementsFrom statement (fun kind => kind == .rightBrace || kind == .endOfInput) n [] >>=
          fun body => expect .rightBrace >>= fun _ => pure body) (afterLineEnd ts)) ts := by
  refine bind_congr fun _ ts => ?_
  rw [skipLineEnd_bind_apply]

theorem clause_apply :
    clause value body ts =
      (value >>= fun test ts => (body >>= fun read => pure (test, read)) (afterLineEnd ts)) ts := by
  refine bind_congr fun test ts => ?_
  rw [skipLineEnd_bind_apply]

theorem alternative_succ_apply (clauses : List (Expr × List Stmt)) :
    alternative value body (n + 1) clauses ts =
      if (current (afterLineEnd ts)).kind = .elseIf then
        (clause value body >>= fun next => alternative value body n (next :: clauses))
          (afterCurrent (afterLineEnd ts))
      else if (current (afterLineEnd ts)).kind = .elseWord then
        (body >>= fun read => pure (.afterClauses clauses.reverse (.otherwise read)))
          (afterLineEnd (afterCurrent (afterLineEnd ts)))
      else .ok (.afterClauses clauses.reverse .nothing, afterLineEnd ts) := by
  rw [alternative, skipLineEnd_bind_apply, accept_bind_apply]
  split
  · rfl
  · change (accept _ >>= _) _ = _
    rw [accept_bind_apply]
    split
    · change (skipLineEnd >>= _) _ = _
      rw [skipLineEnd_bind_apply]
      rfl
    · rfl

theorem statement_succ_apply (minus : Expr → Expr) (depth : Nat) :
    Parser.statement minus n (depth + 1) ts =
      statementAfter n (expression minus n depth) (block n (Parser.statement minus n depth))
        (current ts) (afterCurrent ts) := rfl

end

end Parser

end Bol
