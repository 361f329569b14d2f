/-
# The bound on the rounds

Every round of a loop takes a token, so a loop is never cut short by a bound that is at least the
number of tokens. Readers that differ in nothing but such bounds do the same.
-/

import Bol.Proofs.Program.Depth

namespace Bol

namespace Parser

/-- On at most `bound` tokens the two readers do the same, and none is added to the tokens. -/
def Agree {α : Type} (bound : Nat) (p p' : Parser α) : Prop :=
  ∀ ts, ts.length ≤ bound →
    p ts = p' ts ∧ ∀ a rest, p ts = .ok (a, rest) → rest.length ≤ ts.length

/-- The reader takes a token wherever it succeeds. -/
def Takes {α : Type} (p : Parser α) : Prop :=
  ∀ ts a rest, p ts = .ok (a, rest) → rest.length < ts.length

variable {α β : Type} {bound fewer n n' : Nat} {ts : List Token}

theorem length_afterLineEnd_le (ts : List Token) : (afterLineEnd ts).length ≤ ts.length := by
  unfold afterLineEnd
  split
  · exact length_afterCurrent_le ts
  · exact Nat.le_refl _

namespace Agree

variable {p p' : Parser α} {next next' : α → Parser β}

theorem mono (h : Agree bound p p') (hle : fewer ≤ bound) : Agree fewer p p' :=
  fun ts hlength => h ts (Nat.le_trans hlength hle)

/-- Tokens taken before the readers start add none either. -/
theorem of_le {outcome outcome' : Except ParseStop (α × List Token)} {us : List Token}
    (h : outcome = outcome' ∧ ∀ a rest, outcome = .ok (a, rest) → rest.length ≤ us.length)
    (hle : us.length ≤ ts.length) :
    outcome = outcome' ∧ ∀ a rest, outcome = .ok (a, rest) → rest.length ≤ ts.length :=
  ⟨h.1, fun a rest hok => Nat.le_trans (h.2 a rest hok) hle⟩

theorem bind (h : Agree bound p p') (hnext : ∀ a, Agree bound (next a) (next' a)) :
    Agree bound (p >>= next) (p' >>= next') := by
  intro ts hlength
  obtain ⟨hsame, hleft⟩ := h ts hlength
  rw [bind_apply, bind_apply, ← hsame]
  rcases hp : p ts with stop | ⟨a, rest⟩
  · exact ⟨rfl, nofun⟩
  · have hle := hleft a rest hp
    exact of_le (hnext a rest (Nat.le_trans hle hlength)) hle

/-- What follows a reader that takes a token has to do with fewer. -/
theorem bind_of_takes (h : Agree (bound + 1) p p') (htakes : Takes p)
    (hnext : ∀ a, Agree bound (next a) (next' a)) :
    Agree (bound + 1) (p >>= next) (p' >>= next') := by
  intro ts hlength
  rw [bind_apply, bind_apply, ← (h ts hlength).1]
  rcases hp : p ts with stop | ⟨a, rest⟩
  · exact ⟨rfl, nofun⟩
  · have hlt := htakes ts a rest hp
    exact of_le (hnext a rest (by omega)) (Nat.le_of_lt hlt)

/-- Loops agree if their rounds do, since each takes a token, and if nothing is left to do where
there are no tokens. -/
theorem loop {σ : Type} {again again' : (rounds : Nat) → σ → Parser α} {done : σ → α}
    (hnil : ∀ rounds s, again rounds s [] = .ok (done s, []))
    (hnil' : ∀ rounds s, again' rounds s [] = .ok (done s, []))
    (hround : ∀ fewer n n', fewer < bound → (∀ s, Agree fewer (again n s) (again' n' s)) →
      ∀ s, Agree (fewer + 1) (again (n + 1) s) (again' (n' + 1) s))
    (hn : bound ≤ n) (hn' : bound ≤ n') (s : σ) : Agree bound (again n s) (again' n' s) := by
  induction bound generalizing n n' s with
  | zero =>
      intro ts hlength
      obtain rfl := List.eq_nil_of_length_eq_zero (Nat.le_zero.mp hlength)
      rw [hnil, hnil']
      exact ⟨rfl, fun _ _ hok => by cases hok; exact Nat.le_refl 0⟩
  | succ bound ih =>
      obtain ⟨n, rfl⟩ : ∃ m, n = m + 1 := ⟨n - 1, by omega⟩
      obtain ⟨n', rfl⟩ : ∃ m, n' = m + 1 := ⟨n' - 1, by omega⟩
      have hrounds := ih (fun fewer n n' hlt => hround fewer n n' (Nat.lt_succ_of_lt hlt))
        (Nat.le_of_succ_le_succ hn) (Nat.le_of_succ_le_succ hn')
      exact hround bound n n' (Nat.lt_succ_self bound) hrounds s

theorem pure (a : α) : Agree bound (Pure.pure a) (Pure.pure a) :=
  fun ts _ => ⟨rfl, fun b rest hok => by cases hok; exact Nat.le_refl _⟩

theorem map (f : α → β) (h : Agree bound p p') : Agree bound (f <$> p) (f <$> p') := by
  intro ts hlength
  rw [map_apply, map_apply]
  exact h.bind (fun _ => pure _) ts hlength

theorem fail (error : ParseError) : Agree bound (fail error : Parser α) (fail error) :=
  fun _ _ => ⟨rfl, nofun⟩

theorem tooDeep : Agree bound (tooDeep : Parser α) tooDeep := fun _ _ => ⟨rfl, nofun⟩

theorem peek : Agree bound peek peek :=
  fun _ _ => ⟨rfl, fun _ _ hok => by cases hok; exact Nat.le_refl _⟩

theorem advance : Agree bound advance advance :=
  fun ts _ => ⟨rfl, fun _ _ hok => by cases hok; exact length_afterCurrent_le ts⟩

theorem ite {c : Prop} [Decidable c] {q q' : Parser α} (hp : Agree bound p p')
    (hq : Agree bound q q') : Agree bound (if c then p else q) (if c then p' else q') := by
  split
  · exact hp
  · exact hq

theorem accept (kind : TokenKind) : Agree bound (accept kind) (accept kind) :=
  peek.bind fun _ => ite (advance.bind fun _ => pure _) (pure _)

theorem expect (kind : TokenKind) : Agree bound (expect kind) (expect kind) :=
  peek.bind fun _ => ite advance (fail _)

theorem skipLineEnd : Agree bound skipLineEnd skipLineEnd := (accept _).bind fun _ => pure _

theorem endStatement : Agree bound endStatement endStatement :=
  peek.bind fun _ => ite (advance.bind fun _ => pure _) (ite (pure _) (fail _))

/-! ## Expressions -/

section

variable {minus : Expr → Expr} {isOp : TokenKind → Bool} {part part' value value' : Parser Expr}

theorem chain (h : Agree bound part part') (hend : isOp .endOfInput = false) (hn : bound ≤ n)
    (hn' : bound ≤ n') (left : Expr) :
    Agree bound (chain isOp part n left) (chain isOp part' n' left) := by
  have hnil (part : Parser Expr) (rounds : Nat) (left : Expr) :
      Parser.chain isOp part rounds left [] = .ok (left, []) := by
    cases rounds with
    | zero => rfl
    | succ rounds => rw [chain_succ_apply, if_neg (by simp [current, hend])]
  refine loop (hnil part) (hnil part') (fun fewer n n' hlt ih left ts hlength => ?_) hn hn' left
  rw [chain_succ_apply, chain_succ_apply]
  by_cases hop : isOp (current ts).kind = true
  · rw [if_pos hop, if_pos hop]
    have hrest : (afterCurrent ts).length < ts.length :=
      length_afterCurrent_lt (by rintro heq; simp [heq, hend] at hop)
    have hpart := h.mono (Nat.le_of_lt hlt)
    exact of_le ((hpart.bind fun right => ih _) _ (by omega)) (Nat.le_of_lt hrest)
  · rw [if_neg hop, if_neg hop]
    exact pure left ts hlength

theorem leftAssociative (h : Agree bound part part') (hend : isOp .endOfInput = false)
    (hn : bound ≤ n) (hn' : bound ≤ n') :
    Agree bound (leftAssociative n isOp part) (leftAssociative n' isOp part') :=
  h.bind fun left => h.chain hend hn hn' left

theorem comparison (h : Agree bound part part') :
    Agree bound (comparison part) (comparison part') :=
  h.bind fun _ => peek.bind fun _ => ite (advance.bind fun _ => h.bind fun _ => pure _) (pure _)

theorem expressionOf (h : Agree bound part part') (hn : bound ≤ n) (hn' : bound ≤ n') :
    Agree bound (expressionOf n part) (expressionOf n' part') :=
  ((((h.leftAssociative rfl hn hn').leftAssociative rfl hn hn').comparison).leftAssociative rfl hn
    hn').leftAssociative rfl hn hn'

theorem moreItems (h : Agree bound p p') (hn : bound ≤ n) (hn' : bound ≤ n') (items : List α) :
    Agree bound (moreItems p n items) (moreItems p' n' items) := by
  have hnil (item : Parser α) (rounds : Nat) (items : List α) :
      Parser.moreItems item rounds items [] = .ok (items.reverse, []) := by
    cases rounds <;> rfl
  refine loop (hnil p) (hnil p') (fun fewer n n' hlt ih items ts hlength => ?_) hn hn' items
  rw [moreItems_succ_apply, moreItems_succ_apply]
  by_cases hcomma : (current ts).kind = .comma
  · rw [if_pos hcomma, if_pos hcomma]
    have hrest : (afterCurrent ts).length < ts.length :=
      length_afterCurrent_lt (by simp [hcomma])
    have hitem := h.mono (Nat.le_of_lt hlt)
    exact of_le ((hitem.bind fun next => ih _) _ (by omega)) (Nat.le_of_lt hrest)
  · rw [if_neg hcomma, if_neg hcomma]
    exact pure items.reverse ts hlength

theorem listOf (h : Agree bound p p') (hn : bound ≤ n) (hn' : bound ≤ n') :
    Agree bound (listOf n p) (listOf n' p') := by
  refine (expect _).bind fun _ => peek.bind fun _ => ite ((pure _).bind fun _ => ?_)
    (h.bind fun _ => (h.moreItems hn hn' _).bind fun _ => ?_)
  all_goals exact (expect _).bind fun _ => pure _

theorem numberLiteral (text : String) : Agree bound (numberLiteral text) (numberLiteral text) := by
  unfold Parser.numberLiteral
  cases Number.ofText? text with
  | none => exact fun _ _ => ⟨rfl, nofun⟩
  | some value => exact pure _

theorem primary (h : Agree bound value value') (hn : bound ≤ n) (hn' : bound ≤ n') :
    Agree bound (primary n value) (primary n' value') := by
  refine advance.bind fun t => ?_
  split
  case h_1 => exact numberLiteral _
  case h_6 => exact peek.bind fun _ => ite ((h.listOf hn hn').bind fun _ => pure _) (pure _)
  case h_7 => exact h.bind fun _ => (expect _).bind fun _ => pure _
  case h_8 => exact fail _
  all_goals exact pure _

theorem operand (hn : bound ≤ n) (hn' : bound ≤ n') (depth : Nat) :
    Agree bound (operand minus n depth) (operand minus n' depth) := by
  induction depth with
  | zero => exact tooDeep
  | succ depth ih =>
      refine peek.bind fun t => ?_
      split
      · exact advance.bind fun _ => ih.bind fun _ => pure _
      · exact advance.bind fun _ => ih.bind fun _ => pure _
      · exact (ih.expressionOf hn hn').primary hn hn'

theorem expression (hn : bound ≤ n) (hn' : bound ≤ n') (depth : Nat) :
    Agree bound (expression minus n depth) (expression minus n' depth) :=
  (operand hn hn' depth).expressionOf hn hn'

end

/-! ## Statements -/

section

variable {minus : Expr → Expr} {ends : TokenKind → Bool} {value value' : Parser Expr}
  {body body' : Parser (List Stmt)} {one one' : Parser Stmt}

theorem statementsFrom (h : Agree bound one one') (htakes : Takes one)
    (hends : ends .endOfInput = true) (hn : bound ≤ n) (hn' : bound ≤ n') (read : List Stmt) :
    Agree bound (statementsFrom one ends n read) (statementsFrom one' ends n' read) := by
  have hnil (one : Parser Stmt) (rounds : Nat) (read : List Stmt) :
      Parser.statementsFrom one ends rounds read [] = .ok (read.reverse, []) := by
    cases rounds with
    | zero => rfl
    | succ rounds => exact (statementsFrom_succ_apply read).trans (if_pos hends)
  refine loop (hnil one) (hnil one') (fun fewer n n' hlt ih read ts hlength => ?_) hn hn' read
  rw [statementsFrom_succ_apply, statementsFrom_succ_apply]
  by_cases hstop : ends (current ts).kind = true
  · rw [if_pos hstop, if_pos hstop]
    exact pure read.reverse ts hlength
  rw [if_neg hstop, if_neg hstop]
  by_cases hline : (current ts).kind = .newline
  · rw [if_pos hline, if_pos hline]
    have hrest : (afterCurrent ts).length < ts.length :=
      length_afterCurrent_lt (by simp [hline])
    exact of_le (ih read _ (by omega)) (Nat.le_of_lt hrest)
  · rw [if_neg hline, if_neg hline]
    exact (h.mono hlt).bind_of_takes htakes (fun next => ih _) ts hlength

theorem block (h : Agree bound one one') (htakes : Takes one) (hn : bound ≤ n)
    (hn' : bound ≤ n') : Agree bound (block n one) (block n' one') :=
  (expect _).bind fun _ => skipLineEnd.bind fun _ =>
    (h.statementsFrom htakes rfl hn hn' _).bind fun _ => (expect _).bind fun _ => pure _

theorem clause (hvalue : Agree bound value value') (hbody : Agree bound body body') :
    Agree bound (clause value body) (clause value' body') :=
  hvalue.bind fun _ => skipLineEnd.bind fun _ => hbody.bind fun _ => pure _

theorem alternative (hvalue : Agree bound value value') (hbody : Agree bound body body')
    (hn : bound ≤ n) (hn' : bound ≤ n') (clauses : List (Expr × List Stmt)) :
    Agree bound (alternative value body n clauses) (alternative value' body' n' clauses) := by
  have hnil (value : Parser Expr) (body : Parser (List Stmt)) (rounds : Nat)
      (clauses : List (Expr × List Stmt)) :
      Parser.alternative value body rounds clauses [] =
        .ok (.ofClauses clauses.reverse none, []) := by
    cases rounds <;> rfl
  refine loop (hnil value body) (hnil value' body') (fun fewer n n' hlt ih clauses ts hlength => ?_)
    hn hn' clauses
  have hskip := length_afterLineEnd_le ts
  rw [alternative_succ_apply, alternative_succ_apply]
  by_cases helseIf : (current (afterLineEnd ts)).kind = .elseIf
  · rw [if_pos helseIf, if_pos helseIf]
    have hrest : (afterCurrent (afterLineEnd ts)).length < (afterLineEnd ts).length :=
      length_afterCurrent_lt (by simp [helseIf])
    have hclause := (hvalue.mono (Nat.le_of_lt hlt)).clause (hbody.mono (Nat.le_of_lt hlt))
    refine of_le ((hclause.bind fun next => ih _) _ ?_) ?_
    all_goals omega
  rw [if_neg helseIf, if_neg helseIf]
  by_cases helse : (current (afterLineEnd ts)).kind = .elseWord
  · rw [if_pos helse, if_pos helse]
    have hrest := length_afterCurrent_le (afterLineEnd ts)
    have hbreak := length_afterLineEnd_le (afterCurrent (afterLineEnd ts))
    refine of_le (((hbody.mono hlt).bind fun _ => pure _) _ ?_) ?_
    all_goals omega
  · rw [if_neg helse, if_neg helse]
    exact of_le (pure _ _ (Nat.le_trans hskip hlength)) hskip

theorem binding (hvalue : Agree bound value value') :
    Agree bound (binding value) (binding value') :=
  (expect _).bind fun _ => hvalue.bind fun _ => endStatement.bind fun _ => pure _

theorem statementAfter (hvalue : Agree bound value value') (hbody : Agree bound body body')
    (hn : bound ≤ n) (hn' : bound ≤ n') (t : Token) :
    Agree bound (statementAfter n value body t) (statementAfter n' value' body' t) := by
  unfold Parser.statementAfter
  cases t.kind
  case declare => exact (expect _).bind fun _ => hvalue.binding.bind fun _ => pure _
  case identifier => exact peek.bind fun _ => ite (fail _) (hvalue.binding.bind fun _ => pure _)
  case print => exact hvalue.bind fun _ => endStatement.bind fun _ => pure _
  case ifWord =>
    exact (hvalue.clause hbody).bind fun _ => (hvalue.alternative hbody hn hn' _).bind fun _ =>
      skipLineEnd.bind fun _ => pure _
  case whileWord => exact (hvalue.clause hbody).bind fun _ => skipLineEnd.bind fun _ => pure _
  case breakWord => exact endStatement.bind fun _ => pure _
  case continueWords => exact endStatement.bind fun _ => pure _
  case functionWord =>
    exact (expect _).bind fun _ => (((expect _).map _).listOf hn hn').bind fun _ =>
      skipLineEnd.bind fun _ => hbody.bind fun _ => skipLineEnd.bind fun _ => pure _
  case returnWord =>
    exact peek.bind fun _ => ite (skipLineEnd.bind fun _ => pure _)
      (hvalue.bind fun _ => endStatement.bind fun _ => pure _)
  all_goals exact fail _

/-- No statement is read without taking its first token. -/
theorem takes_statement (depth : Nat) : Takes (statement minus n depth) := by
  intro ts a rest hread
  cases depth with
  | zero => cases hread
  | succ depth =>
      have hend : (current ts).kind ≠ .endOfInput := by
        intro hend
        simp [statement_succ_apply, Parser.statementAfter, hend, Parser.fail] at hread
      have hleaves := ((Deepens.expression (Nat.le_refl depth)).statementAfter
        (Deepens.statement (Nat.le_refl depth)).block _).leaves hread
      exact Nat.lt_of_le_of_lt hleaves.length_le (length_afterCurrent_lt hend)

theorem statement (hn : bound ≤ n) (hn' : bound ≤ n') (depth : Nat) :
    Agree bound (statement minus n depth) (statement minus n' depth) := by
  induction depth with
  | zero => exact tooDeep
  | succ depth ih =>
      exact advance.bind fun t => (expression hn hn' depth).statementAfter
        (ih.block (takes_statement depth) hn hn') hn hn' t

theorem program (hn : bound ≤ n) (hn' : bound ≤ n') (depth : Nat) :
    Agree bound (program minus n depth) (program minus n' depth) :=
  (expect _).bind fun _ => endStatement.bind fun _ =>
    ((statement hn hn' depth).statementsFrom (takes_statement depth) rfl hn hn' _).bind fun _ =>
      (expect _).bind fun _ => pure _

theorem fragment (hn : bound ≤ n) (hn' : bound ≤ n') (depth : Nat) :
    Agree bound (fragment minus n depth) (fragment minus n' depth) :=
  ((statement hn hn' depth).statementsFrom (takes_statement depth) rfl hn hn' _).bind fun _ =>
    (expect _).bind fun _ => pure _

end

end Agree

end Parser

end Bol
