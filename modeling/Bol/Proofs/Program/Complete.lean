/-
# Every phrase is read

Readers take as much as they can. This never loses a phrase: where the tokens after it cannot go
on with it, its reader takes exactly the phrase. What may go on with an expression is an operator,
or the parenthesis that makes a call of a name; what may go on with an `ifThen` is a further part
of it, perhaps behind a line end.
-/

import Bol.Proofs.Program.Nesting
import Bol.Proofs.Program.Readers

namespace Bol

/-- The kinds that an expression goes on with when they follow one. -/
def TokenKind.continuesExpression (kind : TokenKind) : Bool :=
  kind == .leftParen || kind.isMultiplicative || kind.isAdditive || kind.isComparison ||
    kind == .andWord || kind == .orWord

open Grammar

namespace Parser

/-- Phrases of the sort with at most `n` tokens are read in full where a token follows that does
not go on with them. -/
def Complete {α : Type} (n : Nat) (goesOn : TokenKind → Bool) (p : Parser α) (phrase : Phrase α) :
    Prop :=
  ∀ used a rest, used.length ≤ n → phrase used a → goesOn (current rest).kind = false →
    p (used ++ rest) = .ok (a, rest)

namespace Complete

variable {α : Type} {n : Nat} {goesOn isOp : TokenKind → Bool}
  {item : Parser α} {itemPhrase : Phrase α} {part : Parser Expr} {partPhrase : Phrase Expr}

/-! ## Expressions -/

/-- Joined operands are read from the left up to any of their operators. -/
theorem exists_chain (hpart : Complete n goesOn part partPhrase)
    (hop : ∀ kind, isOp kind = true → goesOn kind = false) (hend : isOp .endOfInput = false)
    {used : List Token} {e : Expr} (hjoined : Joined isOp partPhrase used e)
    (hlength : used.length ≤ n) (rest : List Token) (hrest : goesOn (current rest).kind = false) :
    ∃ rounds, n ≤ rounds + used.length ∧
      leftAssociative n isOp part (used ++ rest) = chain isOp part rounds e rest := by
  induction hjoined generalizing rest with
  | single hoperand =>
      refine ⟨n, Nat.le_add_right _ _, ?_⟩
      rw [leftAssociative_apply, bind_of_ok (hpart _ _ _ hlength hoperand hrest)]
  | @more left right op a b hleft hopKind hright ih =>
      simp only [List.length_append, List.length_cons] at hlength ⊢
      obtain ⟨rounds, hrounds, hread⟩ := ih (by omega) (op :: (right ++ rest)) (hop _ hopKind)
      obtain ⟨rounds, rfl⟩ : ∃ fewer, rounds = fewer + 1 := ⟨rounds - 1, by omega⟩
      refine ⟨rounds, by omega, ?_⟩
      rw [List.append_assoc, List.cons_append, hread, chain_succ_apply, current_cons,
        if_pos hopKind, afterCurrent_cons rfl (by rintro heq; simp [heq, hend] at hopKind),
        bind_of_ok (hpart _ _ _ (by omega) hright hrest)]

theorem leftAssociative (hpart : Complete n goesOn part partPhrase)
    (hop : ∀ kind, isOp kind = true → goesOn kind = false) (hend : isOp .endOfInput = false) :
    Complete n (fun kind => goesOn kind || isOp kind) (leftAssociative n isOp part)
      (Joined isOp partPhrase) := by
  intro used e rest hlength hjoined hrest
  obtain ⟨hrest, hstop⟩ := Bool.or_eq_false_iff.mp hrest
  obtain ⟨rounds, _, hread⟩ := exists_chain hpart hop hend hjoined hlength rest hrest
  rw [hread]
  cases rounds with
  | zero => rfl
  | succ rounds => rw [chain_succ_apply, if_neg (by simp [hstop])]

theorem comparison (hpart : Complete n goesOn part partPhrase)
    (hop : ∀ kind, kind.isComparison = true → goesOn kind = false) :
    Complete n (fun kind => goesOn kind || kind.isComparison) (comparison part)
      (Compared partPhrase) := by
  intro used e rest hlength hcompared hrest
  obtain ⟨hrest, hstop⟩ := Bool.or_eq_false_iff.mp hrest
  rw [comparison_apply]
  cases hcompared with
  | single hoperand =>
      rw [bind_of_ok (hpart _ _ _ hlength hoperand hrest), if_neg (by simp [hstop])]
  | @pair left right op a b hleft hopKind hright =>
      simp only [List.length_append, List.length_cons] at hlength
      have hfirst := hpart left a (op :: (right ++ rest)) (by omega) hleft (hop _ hopKind)
      rw [List.append_assoc, List.cons_append, bind_of_ok hfirst, current_cons, if_pos hopKind,
        afterCurrent_cons rfl (by rintro heq; simp [heq, TokenKind.isComparison] at hopKind),
        bind_of_ok (hpart _ _ _ (by omega) hright hrest), pure_apply]

theorem expressionOf (hpart : Complete n (· == .leftParen) part partPhrase) :
    Complete n TokenKind.continuesExpression (expressionOf n part)
      (Grammar.expressionOf partPhrase) := by
  refine leftAssociative (leftAssociative (comparison (leftAssociative (leftAssociative hpart
    ?_ rfl) ?_ rfl) ?_) ?_ rfl) ?_ rfl
  all_goals intro kind; cases kind <;> decide

theorem listed (hitem : Complete n goesOn item itemPhrase) (hcomma : goesOn .comma = false)
    (hparen : goesOn .rightParen = false) {used : List Token} {as : List α}
    (hlisted : Listed itemPhrase used as) (hlength : used.length ≤ n) {rest : List Token}
    (hrest : (current rest).kind = .rightParen) :
    ∀ {rounds : Nat} {items : List α}, used.length ≤ rounds →
      (item >>= fun first => moreItems item rounds (first :: items)) (used ++ rest) =
        .ok (items.reverse ++ as, rest) := by
  induction hlisted with
  | one hone =>
      intro rounds items hrounds
      rw [bind_of_ok (hitem _ _ _ hlength hone (by rw [hrest]; exact hparen))]
      cases rounds with
      | zero => simp [moreItems, pure_apply]
      | succ rounds => rw [moreItems_succ_apply, if_neg (by simp [hrest]), List.reverse_cons]
  | @more ts us comma a as hone hkind _ ih =>
      intro rounds items hrounds
      simp only [List.length_append, List.length_cons] at hlength hrounds
      obtain ⟨rounds, rfl⟩ : ∃ fewer, rounds = fewer + 1 := ⟨rounds - 1, by omega⟩
      rw [List.append_assoc, List.cons_append,
        bind_of_ok (hitem _ _ _ (by omega) hone (by rw [current_cons, hkind]; exact hcomma)),
        moreItems_succ_apply, current_cons, if_pos hkind, afterCurrent_cons hkind (by decide),
        ih (by omega) (by omega)]
      simp

theorem listOf (hitem : Complete n goesOn item itemPhrase) (hcomma : goesOn .comma = false)
    (hparen : goesOn .rightParen = false) {kinds : TokenKind → Bool}
    (hstarts : Starts kinds itemPhrase) (hkinds : kinds .rightParen = false) :
    Complete n (fun _ => false) (listOf n item) (Parenthesised itemPhrase) := by
  intro used as rest hlength hitems _
  rw [listOf_apply]
  cases hitems with
  | @none l r hl hr =>
      have hinside : itemsInside n item (r :: rest) = .ok ([], r :: rest) := by
        rw [itemsInside, current_cons, if_pos hr]
      change (expect _ >>= _) (l :: r :: rest) = _
      rw [bind_of_ok (expect_cons hl (by decide)), bind_of_ok hinside,
        bind_of_ok (expect_cons hr (by decide)), pure_apply]
  | @some l r ts _ hl hlisted hr =>
      simp only [List.length_cons, List.length_append] at hlength
      have hfirst : (current (ts ++ r :: rest)).kind ≠ .rightParen := by
        obtain ⟨t, us, rfl, ht⟩ := hstarts.listed _ _ hlisted
        rintro heq
        rw [List.cons_append, current_cons] at heq
        simp [heq, hkinds] at ht
      have hinside : itemsInside n item (ts ++ r :: rest) = .ok (as, r :: rest) := by
        have hclose : (current (r :: rest)).kind = .rightParen := hr
        rw [itemsInside, if_neg hfirst]
        exact listed hitem hcomma hparen hlisted (by omega) hclose (by omega)
      rw [List.cons_append, List.append_assoc, List.singleton_append,
        bind_of_ok (expect_cons hl (by decide)), bind_of_ok hinside,
        bind_of_ok (expect_cons hr (by decide)), pure_apply]

theorem operandOf {depth : Nat}
    (hpart : Complete n (· == .leftParen) (Parser.operand Expr.negated n depth) partPhrase)
    (hstarts : Starts TokenKind.startsOperand partPhrase) :
    Complete n (· == .leftParen) (Parser.operand Expr.negated n (depth + 1))
      (OperandOf partPhrase (Grammar.expressionOf partPhrase)) := by
  have hvalue : Complete n TokenKind.continuesExpression (expression Expr.negated n depth)
      (Grammar.expressionOf partPhrase) := expressionOf hpart
  have hprimary {t : Token} {ts : List Token} (hnot : t.kind ≠ .notWord) (hminus : t.kind ≠ .minus)
      (hend : t.kind ≠ .endOfInput) :
      Parser.operand Expr.negated n (depth + 1) (t :: ts) =
        primaryAfter n (expression Expr.negated n depth) t ts := by
    rw [operand_succ_apply, current_cons]
    split
    case h_1 ht => exact absurd ht hnot
    case h_2 ht => exact absurd ht hminus
    case h_3 => rw [primary_apply, current_cons, afterCurrent_cons rfl hend]
  intro used e rest hlength hoperand hrest
  have hminus {t : Token} {ts : List Token} {e : Expr} (ht : t.kind = .minus)
      (hlength : (t :: ts).length ≤ n) (hinner : partPhrase ts e) :
      Parser.operand Expr.negated n (depth + 1) (t :: ts ++ rest) = .ok (e.negated, rest) := by
    rw [List.cons_append, operand_succ_apply, current_cons, ht, afterCurrent_cons ht (by decide)]
    exact bind_of_ok (hpart _ _ _ (Nat.le_of_succ_le hlength) hinner hrest)
  cases hoperand with
  | @not t ts e ht hinner =>
      rw [List.cons_append, operand_succ_apply, current_cons, ht, afterCurrent_cons ht (by decide)]
      exact bind_of_ok (hpart _ _ _ (by simpa using Nat.le_of_succ_le hlength) hinner hrest)
  | minusNumber ht hinner =>
      rw [hminus ht hlength hinner]
      rfl
  | minus ht hinner hnumber => rw [hminus ht hlength hinner, Expr.negated_of_ne hnumber]
  | @number t x ht hx =>
      rw [List.singleton_append, hprimary (by simp [ht]) (by simp [ht]) (by simp [ht]),
        primaryAfter, ht]
      change numberLiteral t.value rest = _
      rw [numberLiteral_of_eq_some hx, pure_apply]
  | string ht | true ht | false ht | null ht =>
      rw [List.singleton_append, hprimary (by simp [ht]) (by simp [ht]) (by simp [ht]),
        primaryAfter, ht]
      rfl
  | name ht =>
      rw [List.singleton_append, hprimary (by simp [ht]) (by simp [ht]) (by simp [ht]),
        primaryAfter, ht]
      exact if_neg (by simpa using hrest)
  | @call t ts args ht hargs =>
      rw [List.cons_append, hprimary (by simp [ht]) (by simp [ht]) (by simp [ht]),
        primaryAfter, ht]
      have hopen : (current (ts ++ rest)).kind = .leftParen := by
        cases hargs with
        | none hl => exact hl
        | some hl => exact hl
      have hlist := listOf hvalue rfl rfl hstarts.expressionOf rfl ts args rest
        (Nat.le_of_succ_le hlength) hargs rfl
      change nameOrCall n _ _ _ = _
      rw [nameOrCall, if_pos hopen, bind_of_ok hlist, pure_apply]
  | @parens l r ts e hl hinner hr =>
      simp only [List.length_cons, List.length_append] at hlength
      have hclose : TokenKind.continuesExpression (current (r :: rest)).kind = false := by
        rw [current_cons, hr]
        rfl
      rw [List.cons_append, hprimary (by simp [hl]) (by simp [hl]) (by simp [hl]),
        primaryAfter, hl, List.append_assoc, List.singleton_append]
      change (expression Expr.negated n depth >>= _) _ = _
      rw [bind_of_ok (hvalue _ _ _ (by omega) hinner hclose),
        bind_of_ok (expect_cons hr (by decide)), pure_apply]

theorem operand (depth : Nat) :
    Complete n (· == .leftParen) (Parser.operand Expr.negated n depth) (OperandAt depth) := by
  induction depth with
  | zero => exact fun _ _ _ _ hnone => hnone.elim
  | succ depth ih => exact operandOf ih (starts_operandAt depth)

theorem expression (depth : Nat) :
    Complete n TokenKind.continuesExpression (expression Expr.negated n depth)
      (ExpressionAt depth) := (operand depth).expressionOf

end Complete

/-! ## Statements -/

/-- No further part of an `ifThen` follows, not even behind a line end. -/
def NoAlternative (rest : List Token) : Prop :=
  (current (afterLineEnd rest)).kind ≠ .elseIf ∧ (current (afterLineEnd rest)).kind ≠ .elseWord

/-- Statements with at most `n` tokens are read in full: simple ones together with their end,
compound ones together with some of the line ends after them. -/
structure CompleteStatement (n : Nat) (p : Parser Stmt) (simple compound : Phrase Stmt) : Prop where
  simple : ∀ used a rest after, used.length ≤ n → simple used a →
    endStatement rest = .ok ((), after) → p (used ++ rest) = .ok (a, after)
  compound : ∀ used a rest, used.length ≤ n → compound used a → NoAlternative rest →
    ∃ lines after, rest = lines ++ after ∧ (∀ t ∈ lines, t.kind = .newline) ∧
      p (used ++ rest) = .ok (a, after)

theorem endStatement_of_lineEnd {t : Token} (ht : t.kind = .newline) (rest : List Token) :
    endStatement (t :: rest) = .ok ((), rest) := by
  have hcurrent : (current (t :: rest)).kind = .newline := ht
  rw [endStatement_apply, hcurrent, afterLineEnd_of_eq hcurrent, afterCurrent_cons ht (by decide)]
  rfl

theorem endStatement_of_closesList {rest : List Token}
    (h : (current rest).kind.closesList = true) : endStatement rest = .ok ((), rest) := by
  rw [endStatement_apply, if_pos (by simp [TokenKind.endsSimple, h]), afterLineEnd_of_ne]
  intro hline
  simp [hline, TokenKind.closesList] at h

section

variable {simple compound : Phrase Stmt}

/-- Where a list of statements goes on, it does not go on with a part of an `ifThen`. -/
theorem noAlternative_of_listOf (hsimple : Starts TokenKind.startsStatement simple)
    (hcompound : Starts TokenKind.startsStatement compound) {ts rest : List Token}
    {body : List Stmt} (h : ListOf simple compound ts body)
    (hrest : (current rest).kind.closesList = true) : NoAlternative (ts ++ rest) := by
  have hfirst {us : List Token} (hus : ListOf simple compound us body) :
      (current (us ++ rest)).kind ≠ .elseIf ∧ (current (us ++ rest)).kind ≠ .elseWord := by
    cases us with
    | nil =>
        rw [List.nil_append]
        constructor <;> rintro heq <;> simp [heq, TokenKind.closesList] at hrest
    | cons t us =>
        rcases hus.first hsimple hcompound with ht | ht <;> constructor <;> rintro heq <;>
          rw [List.cons_append, current_cons] at heq <;>
          simp [heq, TokenKind.startsStatement] at ht
  unfold NoAlternative
  by_cases hline : (current (ts ++ rest)).kind = .newline
  · rw [afterLineEnd_of_eq hline]
    cases ts with
    | nil =>
        rw [List.nil_append] at hline
        simp [hline, TokenKind.closesList] at hrest
    | cons t ts =>
        have ht : t.kind = .newline := hline
        rw [List.cons_append, afterCurrent_cons ht (by decide)]
        exact hfirst (h.of_lineEnd hsimple hcompound ht)
  · rw [afterLineEnd_of_ne hline]
    exact hfirst h

end

namespace Complete

variable {n : Nat} {ends : TokenKind → Bool} {one : Parser Stmt}
  {simple compound : Phrase Stmt}

/-- Line ends in front of statements only cost rounds. -/
theorem statementsFrom_lineEnds (hends : ends .newline = false) {lines : List Token}
    (hlines : ∀ t ∈ lines, t.kind = .newline) (rounds : Nat) (read : List Stmt)
    (ts : List Token) :
    Parser.statementsFrom one ends (rounds + lines.length) read (lines ++ ts) =
      Parser.statementsFrom one ends rounds read ts := by
  induction lines with
  | nil => rfl
  | cons t lines ih =>
      rw [List.forall_mem_cons] at hlines
      rw [List.length_cons, ← Nat.add_assoc, List.cons_append, statementsFrom_succ_apply,
        current_cons, hlines.1, hends, if_neg Bool.false_ne_true, if_pos rfl,
        afterCurrent_cons hlines.1 (by decide), ih hlines.2]

theorem statementsFrom (h : CompleteStatement n one simple compound)
    (hsimple : Starts TokenKind.startsStatement simple)
    (hcompound : Starts TokenKind.startsStatement compound)
    (hends : ∀ kind, ends kind = true → kind.closesList = true) {used : List Token}
    {all : List Stmt} (hlist : ListOf simple compound used all) (hlength : used.length ≤ n)
    {rest : List Token} (hrest : ends (current rest).kind = true) :
    ∀ {rounds : Nat} {read : List Stmt}, used.length ≤ rounds →
      Parser.statementsFrom one ends rounds read (used ++ rest) =
        .ok (read.reverse ++ all, rest) := by
  have hdone (rounds : Nat) (read : List Stmt) :
      Parser.statementsFrom one ends rounds read rest = .ok (read.reverse, rest) := by
    cases rounds with
    | zero => rfl
    | succ rounds => rw [statementsFrom_succ_apply, if_pos hrest]
  have hnewline : ends .newline = false := by
    cases hline : ends .newline with
    | false => rfl
    | true => exact absurd (hends _ hline) (by decide)
  -- A statement at the front is neither the end of the list nor a line end.
  have hfront {t : Token} {ts : List Token} (ht : t.kind.startsStatement = true) (rounds : Nat)
      (read : List Stmt) :
      Parser.statementsFrom one ends (rounds + 1) read (t :: ts) =
        (one >>= fun next => Parser.statementsFrom one ends rounds (next :: read)) (t :: ts) := by
    rw [statementsFrom_succ_apply, current_cons, if_neg, if_neg]
    · rintro heq
      simp [heq, TokenKind.startsStatement] at ht
    · intro heq
      have hcloses := hends _ heq
      cases hkind : t.kind <;>
        simp [hkind, TokenKind.startsStatement, TokenKind.closesList] at ht hcloses
  induction hlist with
  | done =>
      intro rounds read _
      rw [List.nil_append, hdone, List.append_nil]
  | @lineEnd t ts body ht _ ih =>
      intro rounds read hrounds
      rw [List.length_cons] at hlength hrounds
      obtain ⟨rounds, rfl⟩ : ∃ fewer, rounds = fewer + 1 := ⟨rounds - 1, by omega⟩
      exact (statementsFrom_lineEnds hnewline (List.forall_mem_singleton.mpr ht) rounds read
        (ts ++ rest)).trans (ih (by omega) (by omega))
  | @compound ts us a body hfirst htail ih =>
      intro rounds read hrounds
      obtain ⟨t, ts, rfl, ht⟩ := hcompound _ _ hfirst
      simp only [List.length_append, List.length_cons] at hlength hrounds
      obtain ⟨rounds, rfl⟩ : ∃ fewer, rounds = fewer + 1 := ⟨rounds - 1, by omega⟩
      obtain ⟨lines, after, hsplit, hlines, hread⟩ := h.compound _ _ (us ++ rest)
        (by simp only [List.length_cons]; omega) hfirst
        (noAlternative_of_listOf hsimple hcompound htail (hends _ hrest))
      rw [List.cons_append, List.cons_append, hfront ht, List.append_assoc, ← List.cons_append,
        bind_of_ok hread, ← statementsFrom_lineEnds hnewline hlines, ← hsplit,
        ih (by omega) (by omega)]
      simp
  | @simple ts us t a body hfirst hline _ ih =>
      intro rounds read hrounds
      obtain ⟨t', ts, rfl, ht⟩ := hsimple _ _ hfirst
      simp only [List.length_append, List.length_cons] at hlength hrounds
      obtain ⟨rounds, rfl⟩ : ∃ fewer, rounds = fewer + 1 := ⟨rounds - 1, by omega⟩
      have hread := h.simple _ _ (t :: (us ++ rest)) _ (by simp only [List.length_cons]; omega)
        hfirst (endStatement_of_lineEnd hline _)
      rw [List.cons_append, List.cons_append, hfront ht, List.append_assoc, List.cons_append,
        ← List.cons_append, bind_of_ok hread, ih (by omega) (by omega)]
      simp
  | @last ts a hfirst =>
      intro rounds read hrounds
      obtain ⟨t, ts, rfl, ht⟩ := hsimple _ _ hfirst
      simp only [List.length_cons] at hlength hrounds
      obtain ⟨rounds, rfl⟩ : ∃ fewer, rounds = fewer + 1 := ⟨rounds - 1, by omega⟩
      have hread := h.simple _ _ rest _ (by simp only [List.length_cons]; omega) hfirst
        (endStatement_of_closesList (hends _ hrest))
      rw [List.cons_append, hfront ht, ← List.cons_append, bind_of_ok hread, hdone]
      simp

theorem block (h : CompleteStatement n one simple compound)
    (hsimple : Starts TokenKind.startsStatement simple)
    (hcompound : Starts TokenKind.startsStatement compound) :
    Complete n (fun _ => false) (block n one) (Block (ListOf simple compound)) := by
  intro used body rest hlength hblock _
  cases hblock with
  | @intro l r ts _ hl hlist hr =>
      simp only [List.length_cons, List.length_append] at hlength
      have hcloses : ∀ kind : TokenKind, (kind == .rightBrace || kind == .endOfInput) = true →
          kind.closesList = true := by
        intro kind hkind
        rcases Bool.or_eq_true_iff.mp hkind with hkind | hkind <;>
          rw [eq_of_beq hkind] <;> rfl
      have hend : ((current (r :: rest)).kind == .rightBrace ||
          (current (r :: rest)).kind == .endOfInput) = true := by
        rw [current_cons, hr]
        rfl
      have hbody : ∃ us, ListOf simple compound us body ∧ us.length ≤ n ∧
          afterLineEnd (ts ++ r :: rest) = us ++ r :: rest := by
        by_cases hline : (current (ts ++ r :: rest)).kind = .newline
        · cases ts with
          | nil =>
              rw [List.nil_append, current_cons, hr] at hline
              contradiction
          | cons t ts =>
              have ht : t.kind = .newline := hline
              refine ⟨ts, hlist.of_lineEnd hsimple hcompound ht, ?_, ?_⟩
              · rw [List.length_cons] at hlength
                omega
              · rw [afterLineEnd_of_eq hline, List.cons_append, afterCurrent_cons ht (by decide)]
        · exact ⟨ts, hlist, by omega, afterLineEnd_of_ne hline⟩
      obtain ⟨us, hlist, hus, hafter⟩ := hbody
      have hread : Parser.statementsFrom one _ n [] (us ++ r :: rest) = .ok (body, r :: rest) :=
        statementsFrom h hsimple hcompound hcloses hlist hus hend hus
      rw [block_apply, List.cons_append, List.append_assoc, List.singleton_append,
        bind_of_ok (expect_cons hl (by decide)), hafter, bind_of_ok hread,
        bind_of_ok (expect_cons hr (by decide)), pure_apply]

variable {value : Parser Expr} {body : Parser (List Stmt)} {valuePhrase : Phrase Expr}
  {blockPhrase : Phrase (List Stmt)}

/-- A value is read in full where a block follows, perhaps behind a line end. -/
theorem value_before_block (hvalue : Complete n TokenKind.continuesExpression value valuePhrase)
    (hopens : Starts (· == .leftBrace) blockPhrase) {used line ts rest : List Token} {e : Expr}
    {read : List Stmt} (hlength : used.length ≤ n) (hphrase : valuePhrase used e)
    (hline : Break line) (hblock : blockPhrase ts read) :
    value (used ++ (line ++ (ts ++ rest))) = .ok (e, line ++ (ts ++ rest)) := by
  refine hvalue _ _ _ hlength hphrase ?_
  cases hline with
  | none =>
      obtain ⟨t, ts, rfl, ht⟩ := hopens _ _ hblock
      have hcurrent : (current ([] ++ (t :: ts ++ rest))).kind = .leftBrace := eq_of_beq ht
      rw [hcurrent]
      rfl
  | @one t ht =>
      have hcurrent : (current ([t] ++ (ts ++ rest))).kind = .newline := ht
      rw [hcurrent]
      rfl

/-- Taking the line end before a block leaves the block. -/
theorem afterLineEnd_before_block (hopens : Starts (· == .leftBrace) blockPhrase)
    {line ts : List Token} {read : List Stmt} (hline : Break line) (hblock : blockPhrase ts read)
    (rest : List Token) : afterLineEnd (line ++ (ts ++ rest)) = ts ++ rest := by
  refine afterLineEnd_break hline ?_
  obtain ⟨t, ts, rfl, ht⟩ := hopens _ _ hblock
  rw [List.cons_append, current_cons, eq_of_beq ht]
  decide

theorem clause (hvalue : Complete n TokenKind.continuesExpression value valuePhrase)
    (hbody : Complete n (fun _ => false) body blockPhrase)
    (hopens : Starts (· == .leftBrace) blockPhrase) :
    Complete n (fun _ => false) (clause value body) (Clause valuePhrase blockPhrase) := by
  intro used read rest hlength hclause _
  cases hclause with
  | intro htest hline hblock =>
      simp only [List.length_append] at hlength
      rw [clause_apply, List.append_assoc, List.append_assoc,
        bind_of_ok (value_before_block hvalue hopens (by omega) htest hline hblock),
        afterLineEnd_before_block hopens hline hblock,
        bind_of_ok (hbody _ _ _ (by omega) hblock rfl), pure_apply]

theorem alternative (hvalue : Complete n TokenKind.continuesExpression value valuePhrase)
    (hbody : Complete n (fun _ => false) body blockPhrase)
    (hopens : Starts (· == .leftBrace) blockPhrase) {used : List Token} {next : Alternative}
    (h : AlternativeOf valuePhrase blockPhrase used next) (hlength : used.length ≤ n)
    {rest : List Token} (hrest : NoAlternative rest) :
    ∀ (rounds : Nat) (clauses : List (Expr × List Stmt)), used.length ≤ rounds →
      ∃ line after, rest = line ++ after ∧ Break line ∧
        alternative value body rounds clauses (used ++ rest) =
          .ok (.afterClauses clauses.reverse next, after) := by
  induction h with
  | nothing =>
      intro rounds clauses _
      cases rounds with
      | zero => exact ⟨[], rest, rfl, .none, rfl⟩
      | succ rounds =>
          obtain ⟨line, hline, hbreak⟩ := exists_break rest
          refine ⟨line, _, hline, hbreak, ?_⟩
          rw [List.nil_append, alternative_succ_apply, if_neg hrest.1, if_neg hrest.2]
  | @otherwise before after ts word read hbefore hword hafter hblock =>
      intro rounds clauses hrounds
      simp only [List.length_append, List.length_cons] at hlength hrounds
      obtain ⟨rounds, rfl⟩ : ∃ fewer, rounds = fewer + 1 := ⟨rounds - 1, by omega⟩
      refine ⟨[], rest, rfl, .none, ?_⟩
      rw [alternative_succ_apply, List.append_assoc, List.cons_append, List.append_assoc,
        afterLineEnd_break hbefore (by simp [hword]), current_cons, if_neg (by simp [hword]),
        if_pos hword, afterCurrent_cons hword (by decide),
        afterLineEnd_before_block hopens hafter hblock,
        bind_of_ok (hbody _ _ _ (by omega) hblock rfl), pure_apply]
  | @elseIf before ts us word guarded next hbefore hword hguarded _ ih =>
      intro rounds clauses hrounds
      simp only [List.length_append, List.length_cons] at hlength hrounds
      obtain ⟨rounds, rfl⟩ : ∃ fewer, rounds = fewer + 1 := ⟨rounds - 1, by omega⟩
      obtain ⟨line, after, hsplit, hline, hread⟩ := ih (by omega) rounds
        (guarded :: clauses) (by omega)
      refine ⟨line, after, hsplit, hline, ?_⟩
      rw [alternative_succ_apply, List.append_assoc, List.cons_append, List.append_assoc,
        afterLineEnd_break hbefore (by simp [hword]), current_cons, if_pos hword,
        afterCurrent_cons hword (by decide),
        bind_of_ok (clause hvalue hbody hopens _ _ _ (by omega) hguarded rfl), hread,
        Alternative.afterClauses_reverse_cons]

/-- A value is read in full where a statement may end. -/
theorem value_before_end (hvalue : Complete n TokenKind.continuesExpression value valuePhrase)
    {used rest after : List Token} {e : Expr} (hlength : used.length ≤ n)
    (hphrase : valuePhrase used e) (hend : endStatement rest = .ok ((), after)) :
    value (used ++ rest) = .ok (e, rest) := by
  refine hvalue _ _ _ hlength hphrase ?_
  have hends := (endStatement_eq_ok.mp hend).1
  cases hkind : (current rest).kind <;>
    simp [hkind, TokenKind.endsSimple, TokenKind.closesList] at hends <;> rfl

theorem binding (hvalue : Complete n TokenKind.continuesExpression value valuePhrase)
    {used rest after : List Token} {is : Token} {e : Expr} (hlength : used.length ≤ n)
    (his : is.kind = .assign) (hphrase : valuePhrase used e)
    (hend : endStatement rest = .ok ((), after)) :
    binding value (is :: (used ++ rest)) = .ok (e, after) := by
  rw [Parser.binding, bind_of_ok (expect_cons his (by decide)),
    bind_of_ok (value_before_end hvalue hlength hphrase hend), bind_of_ok hend, pure_apply]

theorem simpleAfter (hvalue : Complete n TokenKind.continuesExpression value valuePhrase)
    (hstarts : Starts TokenKind.startsOperand valuePhrase) {used rest after : List Token}
    {a : Stmt} (hlength : used.length ≤ n) (h : Simple valuePhrase used a)
    (hend : endStatement rest = .ok ((), after)) :
    statementAfter n value body (current (used ++ rest)) (afterCurrent (used ++ rest)) =
      .ok (a, after) := by
  unfold statementAfter
  cases h with
  | @declare t name is ts e ht hname his hphrase =>
      simp only [List.length_cons] at hlength
      rw [List.cons_append, current_cons, afterCurrent_cons ht (by decide), ht]
      change (expect .identifier >>= _) (name :: is :: (ts ++ rest)) = _
      rw [bind_of_ok (expect_cons hname (by decide)),
        bind_of_ok (binding hvalue (by omega) his hphrase hend), pure_apply]
  | @assign name is ts e hname his hphrase =>
      simp only [List.length_cons] at hlength
      rw [List.cons_append, current_cons, afterCurrent_cons hname (by decide), hname]
      change (ite (is.kind = .leftParen) _ _ : Parser Stmt) (is :: (ts ++ rest)) = _
      rw [if_neg (by simp [his]), bind_of_ok (binding hvalue (by omega) his hphrase hend),
        pure_apply]
  | @print t ts e ht hphrase =>
      rw [List.cons_append, current_cons, afterCurrent_cons ht (by decide), ht]
      change (value >>= _) (ts ++ rest) = _
      rw [bind_of_ok (value_before_end hvalue (Nat.le_of_succ_le hlength) hphrase hend),
        bind_of_ok hend, pure_apply]
  | breakLoop ht | continueLoop ht =>
      rw [List.singleton_append, current_cons, afterCurrent_cons ht (by decide), ht]
      exact bind_of_ok hend
  | returnNothing ht =>
      obtain ⟨hends, rfl⟩ := endStatement_eq_ok.mp hend
      rw [List.singleton_append, current_cons, afterCurrent_cons ht (by decide), ht]
      change (ite _ _ _ : Parser Stmt) rest = _
      rw [if_pos (by simpa [TokenKind.endsSimple] using hends), skipLineEnd_bind_apply, pure_apply]
  | @returnValue t ts e ht hphrase =>
      rw [List.cons_append, current_cons, afterCurrent_cons ht (by decide), ht]
      have hnot : ¬ ((current (ts ++ rest)).kind = .newline ∨
          (current (ts ++ rest)).kind.closesList = true) := by
        obtain ⟨t, ts, rfl, ht⟩ := hstarts _ _ hphrase
        rw [List.cons_append, current_cons]
        cases hkind : t.kind <;> simp [hkind, TokenKind.startsOperand, TokenKind.closesList] at ht ⊢
      change (ite _ _ _ : Parser Stmt) (ts ++ rest) = _
      rw [if_neg hnot,
        bind_of_ok (value_before_end hvalue (Nat.le_of_succ_le hlength) hphrase hend),
        bind_of_ok hend, pure_apply]

theorem parameter : Complete n (fun _ => false) (Token.value <$> expect .identifier) Parameter := by
  intro used name rest _ h _
  cases h with
  | intro ht =>
      rw [List.singleton_append, map_apply, bind_of_ok (expect_cons ht (by decide)), pure_apply]

theorem starts_parameter : Starts (· == .identifier) Parameter := by
  intro ts name h
  cases h with
  | intro ht => exact ⟨_, _, rfl, by simp [ht]⟩

theorem compoundAfter (hvalue : Complete n TokenKind.continuesExpression value valuePhrase)
    (hbody : Complete n (fun _ => false) body blockPhrase)
    (hopens : Starts (· == .leftBrace) blockPhrase) {used rest : List Token} {a : Stmt}
    (hlength : used.length ≤ n) (h : Compound valuePhrase blockPhrase used a)
    (hrest : NoAlternative rest) :
    ∃ lines after, rest = lines ++ after ∧ (∀ t ∈ lines, t.kind = .newline) ∧
      statementAfter n value body (current (used ++ rest)) (afterCurrent (used ++ rest)) =
        .ok (a, after) := by
  unfold statementAfter
  cases h with
  | @ifThen t ts us guarded next ht hguarded hnext =>
      simp only [List.length_cons, List.length_append] at hlength
      obtain ⟨line, middle, rfl, hline, hread⟩ :=
        alternative hvalue hbody hopens hnext (by omega) hrest n [] (by omega)
      obtain ⟨last, hlast, hbreak⟩ := exists_break middle
      refine ⟨line ++ last, afterLineEnd middle, by rw [List.append_assoc, ← hlast],
        fun t ht => (List.mem_append.mp ht).elim (hline.isLineEnd t) (hbreak.isLineEnd t), ?_⟩
      rw [List.cons_append, current_cons, afterCurrent_cons ht (by decide), ht, List.append_assoc]
      change (Parser.clause value body >>= _) _ = _
      rw [bind_of_ok (clause hvalue hbody hopens _ _ _ (by omega) hguarded rfl)]
      change (Parser.alternative value body n [] >>= _) _ = _
      rw [bind_of_ok hread, skipLineEnd_bind_apply, pure_apply]
      rfl
  | @whileDo t ts guarded ht hguarded =>
      obtain ⟨last, hlast, hbreak⟩ := exists_break rest
      refine ⟨last, afterLineEnd rest, hlast, hbreak.isLineEnd, ?_⟩
      rw [List.cons_append, current_cons, afterCurrent_cons ht (by decide), ht]
      change (Parser.clause value body >>= _) _ = _
      rw [bind_of_ok (clause hvalue hbody hopens _ _ _ (Nat.le_of_succ_le hlength) hguarded rfl)]
      change (skipLineEnd >>= _) _ = _
      rw [skipLineEnd_bind_apply, pure_apply]
  | @function t name ts line us params read ht hname hparams hline hblock =>
      simp only [List.length_cons, List.length_append] at hlength
      obtain ⟨last, hlast, hbreak⟩ := exists_break rest
      refine ⟨last, afterLineEnd rest, hlast, hbreak.isLineEnd, ?_⟩
      have hlist : Parser.listOf n _ (ts ++ (line ++ (us ++ rest))) = _ :=
        listOf parameter rfl rfl starts_parameter rfl ts params _ (by omega) hparams rfl
      rw [List.cons_append, current_cons, afterCurrent_cons ht (by decide), ht, List.cons_append,
        List.append_assoc, List.append_assoc]
      change (expect .identifier >>= _) _ = _
      rw [bind_of_ok (expect_cons hname (by decide)), bind_of_ok hlist, skipLineEnd_bind_apply,
        afterLineEnd_before_block hopens hline hblock,
        bind_of_ok (hbody _ _ _ (by omega) hblock rfl), skipLineEnd_bind_apply, pure_apply]

theorem statement (depth : Nat) :
    CompleteStatement n (statement Expr.negated n depth) (SimpleAt depth)
      (CompoundAt depth) := by
  induction depth with
  | zero => exact ⟨fun _ _ _ _ _ hnone => hnone.elim, fun _ _ _ _ hnone => hnone.elim⟩
  | succ depth ih =>
      have hbody := block ih (starts_simpleAt depth) (starts_compoundAt depth)
      have hopens : Starts (· == .leftBrace)
          (Block (ListOf (SimpleAt depth) (CompoundAt depth))) := by
        intro ts read h
        cases h with
        | intro hl => exact ⟨_, _, rfl, by simp [hl]⟩
      exact ⟨fun _ _ _ _ hlength h hend =>
          simpleAfter (expression depth) (starts_operandAt depth).expressionOf hlength h hend,
        fun _ _ _ hlength h hrest =>
          compoundAfter (expression depth) hbody hopens hlength h hrest⟩

theorem statements {depth : Nat} (hends : ∀ kind, ends kind = true → kind.closesList = true)
    {used rest : List Token} {all : List Stmt} (h : StatementsAt depth used all)
    (hlength : used.length ≤ n) (hrest : ends (current rest).kind = true) :
    Parser.statementsFrom (Parser.statement Expr.negated n depth) ends n [] (used ++ rest) =
      .ok (all, rest) :=
  statementsFrom (statement depth) (starts_simpleAt depth) (starts_compoundAt depth) hends h
    hlength hrest hlength

theorem program {depth : Nat} {ts : List Token} {P : Program}
    (h : Marked (StatementsAt depth) ts P) (hlength : ts.length ≤ n) :
    ∃ rest, program Expr.negated n depth ts = .ok (P, rest) := by
  have hcloses : ∀ kind : TokenKind, (kind == .programEnd || kind == .endOfInput) = true →
      kind.closesList = true := by
    intro kind hkind
    rcases Bool.or_eq_true_iff.mp hkind with hkind | hkind <;> rw [eq_of_beq hkind] <;> rfl
  have hends {stop : Token} {after : List Token} (hstop : stop.kind = .programEnd) :
      ((current (stop :: after)).kind == .programEnd ||
        (current (stop :: after)).kind == .endOfInput) = true := by
    rw [current_cons, hstop]
    rfl
  cases h with
  | @intro start line stop ts after body hstart hline hbody hstop =>
      simp only [List.length_cons, List.length_append] at hlength
      refine ⟨after, ?_⟩
      rw [Parser.program, bind_of_ok (expect_cons hstart (by decide)),
        bind_of_ok (endStatement_of_lineEnd hline _),
        bind_of_ok (statements hcloses hbody (by omega) (hends hstop)),
        bind_of_ok (expect_cons hstop (by decide)), pure_apply]
  | @empty start stop after hstart hstop =>
      refine ⟨after, ?_⟩
      have hnone : Parser.statementsFrom (Parser.statement Expr.negated n depth) _ n []
          (stop :: after) = .ok ([], stop :: after) :=
        statements hcloses .done (Nat.zero_le n) (hends hstop)
      rw [Parser.program, bind_of_ok (expect_cons hstart (by decide)),
        bind_of_ok (endStatement_of_closesList (hcloses _ (hends hstop))), bind_of_ok hnone,
        bind_of_ok (expect_cons hstop (by decide)), pure_apply]

theorem fragment {depth : Nat} {ts : List Token} {P : Program}
    (h : Unmarked (StatementsAt depth) ts P) (hlength : ts.length ≤ n) :
    ∃ rest, fragment Expr.negated n depth ts = .ok (P, rest) := by
  have hcloses : ∀ kind : TokenKind, (kind == .endOfInput) = true → kind.closesList = true := by
    intro kind hkind
    rw [eq_of_beq hkind]
    rfl
  cases h with
  | @intro ts stop body hbody hstop =>
      rw [List.length_append] at hlength
      have hend : (current [stop]).kind = .endOfInput := hstop
      refine ⟨afterCurrent [stop], ?_⟩
      rw [Parser.fragment, bind_of_ok (statements hcloses hbody (by omega) (by simp [hstop])),
        bind_of_ok (expect_eq_ok.mpr ⟨hend, rfl, rfl⟩), pure_apply]

end Complete

end Parser

end Bol
