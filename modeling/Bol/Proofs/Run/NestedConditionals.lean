/-
# Conditionals with several conditions

A conditional tries its conditions in order and runs the block of the first one that holds. It could
as well have a single condition and, as its alternative, a block with nothing in it but a
conditional for the remaining ones: such a block opens one more scope for every condition that does
not hold, and all of these scopes stay empty, so nothing can tell that they are there. The nested
conditionals need one more level of depth for each condition, and a fault about a condition that is
no boolean names another keyword.
-/

import Bol.Proofs.Run.Desugaring

namespace Bol

namespace Alternative

/-- The conditions that are left to try, with their blocks. -/
def clauses : Alternative → List (Expr × List Stmt)
  | .nothing | .otherwise _ => []
  | .elseIf test block next => (test, block) :: next.clauses

/-- The same alternative with every condition in a conditional of its own, the only statement in
the block of an `otherwise`, as in `nahitr { jr test { block } nahitr { … } }`. -/
def nested (line : Option Int) : Alternative → Alternative
  | .nothing => .nothing
  | .otherwise block => .otherwise block
  | .elseIf test block next => .otherwise [.ifThen test block (next.nested line) line]

end Alternative

namespace Run

/-! ## Computations that another one matches -/

/-- Unless a bound cuts the computation short, the other one has the same outcome, up to the
keyword in a fault about a condition. -/
def IsMatchedBy {α : Type} (act other : Run α) : Prop :=
  ∀ state, ¬ IsCut (act state).1 → SameOutcome (act state) (other state)

namespace IsMatchedBy

variable {α β : Type} {act other : Run α}

theorem of_isExtendedBy (h : IsExtendedBy act other) : IsMatchedBy act other := fun state hcut =>
  h state hcut ▸ .refl _

theorem bind {next next' : α → Run β} (h : IsMatchedBy act other)
    (hnext : ∀ value, IsMatchedBy (next value) (next' value)) :
    IsMatchedBy (act >>= next) (other >>= next') := by
  intro state hcut
  refine .bind (h state (mt IsCut.bind hcut)) fun value after hact => hnext value after ?_
  rwa [bind_apply_of_ok hact] at hcut

theorem condition (keyword keyword' : TokenKind) (value : Value) :
    IsMatchedBy (condition keyword value) (Run.condition keyword' value) := by
  intro state _
  cases value with
  | boolean value => exact .refl _
  | null | number _ | string _ | function _ => exact ⟨.condition keyword keyword' _ none, rfl⟩

theorem onLine (line : Option Int) (h : IsMatchedBy act other) :
    IsMatchedBy (onLine line act) (Run.onLine line other) := by
  intro state hcut
  rw [onLine_apply] at hcut ⊢
  rw [onLine_apply]
  exact (h state (mt (isCut_tagged line).mpr hcut)).tag line

/-- A condition is matched by one after another keyword, if what depends on it is. -/
theorem test {line : Option Int} {keyword keyword' : TokenKind} {test test' : Run Value}
    {yes yes' no no' : Run Signal} (htest : IsExtendedBy test test')
    (hyes : IsMatchedBy (Run.onLine line yes) (Run.onLine line yes'))
    (hno : IsMatchedBy (Run.onLine line no) (Run.onLine line no')) :
    IsMatchedBy (Run.onLine line do if ← Run.condition keyword (← test) then yes else no)
      (Run.onLine line do if ← Run.condition keyword' (← test') then yes' else no') := by
  rw [onLine_bind, onLine_bind]
  refine .bind ((of_isExtendedBy htest).onLine line) fun value => ?_
  rw [onLine_bind, onLine_bind]
  refine .bind ((condition keyword keyword' value).onLine line) fun holds => ?_
  cases holds with
  | true => exact hyes
  | false => exact hno

end IsMatchedBy

/-! ## Conditionals in conditionals -/

section Nesting

variable (patience : Nat) (line : Option Int)

/-- What a conditional does with a block, `depth` being left for its statements. -/
def blockAt (depth : Nat) (block : List Stmt) : Run Signal :=
  inBlock (statements (exec patience depth) block)

/-- What a conditional does if its first condition does not hold. -/
def alternativeAt (depth : Nat) (otherwise : Alternative) : Run Signal :=
  alternative (eval patience depth) (blockAt patience depth) otherwise

theorem exec_ifThen (depth : Nat) (test : Expr) (body : List Stmt) (otherwise : Alternative) :
    exec patience (depth + 1) (.ifThen test body otherwise line) =
      onLine line (do
        if ← condition .ifWord (← eval patience depth test) then blockAt patience depth body
        else alternativeAt patience depth otherwise) := by
  rw [exec.eq_def]
  rfl

/-- The nested conditional stands alone in its block, so the block makes no difference. -/
theorem alternativeAt_nested (depth : Nat) (test : Expr) (block : List Stmt) (next : Alternative) :
    alternativeAt patience depth ((Alternative.elseIf test block next).nested line) =
      exec patience depth (.ifThen test block (next.nested line) line) :=
  block_ifThen patience depth test block (next.nested line) line

variable {patience line} {depth depth' : Nat}

theorem blockAt_isMatchedBy (hdepth : depth ≤ depth') (block : List Stmt) :
    IsMatchedBy (blockAt patience depth block) (blockAt patience depth' block) :=
  .of_isExtendedBy (isExtendedBy_congruence.inBlock
    (isExtendedBy_congruence.statements (exec_isExtendedBy (Nat.le_refl _) hdepth) block))

/-- With one more level for each condition, the nested conditionals match the others. -/
theorem alternativeAt_isMatchedBy (otherwise : Alternative)
    (hdepth : depth + otherwise.clauses.length ≤ depth') :
    IsMatchedBy (onLine line (alternativeAt patience depth otherwise))
      (onLine line (alternativeAt patience depth' (otherwise.nested line))) := by
  induction otherwise using Alternative.clauses.induct generalizing depth depth' with
  | case1 => exact .of_isExtendedBy (isExtendedBy_refl _)
  | case2 block => exact (blockAt_isMatchedBy hdepth block).onLine line
  | case3 test block next ih =>
      rw [Alternative.clauses, List.length_cons] at hdepth
      obtain ⟨rest, rfl⟩ := Nat.exists_eq_add_of_le' (Nat.le_trans (Nat.le_add_left 1 _) hdepth)
      have hrest : depth + next.clauses.length ≤ rest := Nat.le_of_succ_le_succ hdepth
      have hle : depth ≤ rest := Nat.le_of_add_right_le hrest
      rw [alternativeAt_nested, exec_ifThen, onLine_onLine]
      exact .test (eval_isExtendedBy (Nat.le_refl _) hle test)
        ((blockAt_isMatchedBy hle block).onLine line) (ih hrest)

/-- The others match the nested conditionals with no more depth than these. -/
theorem nested_isMatchedBy (otherwise : Alternative) (hdepth : depth ≤ depth') :
    IsMatchedBy (onLine line (alternativeAt patience depth (otherwise.nested line)))
      (onLine line (alternativeAt patience depth' otherwise)) := by
  induction otherwise using Alternative.clauses.induct generalizing depth with
  | case1 => exact .of_isExtendedBy (isExtendedBy_refl _)
  | case2 block => exact (blockAt_isMatchedBy hdepth block).onLine line
  | case3 test block next ih =>
      rw [alternativeAt_nested]
      cases depth with
      | zero =>
          rw [exec_zero]
          exact fun state hcut => absurd trivial hcut
      | succ depth =>
          have hle : depth ≤ depth' := Nat.le_of_succ_le hdepth
          rw [exec_ifThen, onLine_onLine]
          exact .test (eval_isExtendedBy (Nat.le_refl _) hle test)
            ((blockAt_isMatchedBy hle block).onLine line) (ih hle)

/-! ## The first condition that holds -/

/-- A condition that is a boolean decides what is run from the state that it leaves. -/
theorem condition_apply {keyword : TokenKind} {test : Run Value} {yes no : Run Signal}
    {state after : State} {holds : Bool} (h : test state = (.ok (.boolean holds), after)) :
    (do if ← condition keyword (← test) then yes else no : Run Signal) state =
      if holds then yes after else no after := by
  rw [bind_apply_of_ok h]
  cases holds <;> rfl

/-- The conditions are evaluated in order from the state `before`, none of them holds, and `after`
is the state that they leave. -/
def NoneHolds (eval : Expr → Run Value) (clauses : List (Expr × List Stmt))
    (before after : State) : Prop :=
  EvaluateTo eval (clauses.map Prod.fst) (clauses.map fun _ => .boolean false) before after

variable {earlier later : List (Expr × List Stmt)} {held : Expr} {block : List Stmt}
  {state middle after : State}

/-- What follows a condition that holds has no part in the outcome. -/
theorem alternativeAt_apply {otherwise : Alternative}
    (hclauses : otherwise.clauses = earlier ++ (held, block) :: later)
    (hearlier : NoneHolds (eval patience depth) earlier state middle)
    (hheld : eval patience depth held middle = (.ok (.boolean true), after)) :
    alternativeAt patience depth otherwise state = blockAt patience depth block after := by
  induction otherwise using Alternative.clauses.induct generalizing earlier state with
  | case1 | case2 => simp [Alternative.clauses] at hclauses
  | case3 test body next ih =>
      rw [Alternative.clauses] at hclauses
      cases earlier with
      | nil =>
          cases hclauses
          cases hearlier
          exact condition_apply hheld
      | cons first earlier =>
          obtain ⟨rfl, hnext⟩ := List.cons.inj hclauses
          cases hearlier with
          | cons htest hrest => exact (condition_apply htest).trans (ih hnext hrest)

/-- A conditional runs the block of its first condition that holds, from the state that this
condition leaves. -/
theorem exec_ifThen_apply {test : Expr} {body : List Stmt} {otherwise : Alternative}
    (hclauses : (test, body) :: otherwise.clauses = earlier ++ (held, block) :: later)
    (hearlier : NoneHolds (eval patience depth) earlier state middle)
    (hheld : eval patience depth held middle = (.ok (.boolean true), after)) :
    exec patience (depth + 1) (.ifThen test body otherwise line) state =
      tag line (blockAt patience depth block after) := by
  rw [exec_ifThen, onLine_apply]
  refine congrArg (tag line) ?_
  cases earlier with
  | nil =>
      cases hclauses
      cases hearlier
      exact condition_apply hheld
  | cons first earlier =>
      obtain ⟨rfl, hnext⟩ := List.cons.inj hclauses
      cases hearlier with
      | cons htest hrest =>
          exact (condition_apply htest).trans (alternativeAt_apply hnext hrest hheld)

end Nesting

theorem exec_isMatchedBy_nested (patience depth : Nat) (test : Expr) (body : List Stmt)
    (otherwise : Alternative) (line : Option Int) :
    IsMatchedBy (exec patience depth (.ifThen test body otherwise line))
      (exec patience (depth + otherwise.clauses.length)
        (.ifThen test body (otherwise.nested line) line)) := by
  cases depth with
  | zero =>
      rw [exec_zero]
      exact fun state hcut => absurd trivial hcut
  | succ depth =>
      have hle : depth ≤ depth + otherwise.clauses.length := Nat.le_add_right _ _
      rw [Nat.succ_add, exec_ifThen, exec_ifThen]
      exact .test (eval_isExtendedBy (Nat.le_refl _) hle test)
        ((blockAt_isMatchedBy hle body).onLine line)
        (alternativeAt_isMatchedBy otherwise (Nat.le_refl _))

theorem exec_nested_isMatchedBy (patience depth : Nat) (test : Expr) (body : List Stmt)
    (otherwise : Alternative) (line : Option Int) :
    IsMatchedBy (exec patience depth (.ifThen test body (otherwise.nested line) line))
      (exec patience depth (.ifThen test body otherwise line)) := by
  cases depth with
  | zero =>
      rw [exec_zero, exec_zero]
      exact .of_isExtendedBy (isExtendedBy_refl _)
  | succ depth =>
      rw [exec_ifThen, exec_ifThen]
      exact .test (isExtendedBy_refl _) (.of_isExtendedBy (isExtendedBy_refl _))
        (nested_isMatchedBy otherwise (Nat.le_refl _))

/-- A conditional with any number of conditions and the nested conditionals with one condition each
leave the same state with the same result, up to the keyword in a fault about a condition. They do
so if the nested ones have one more level of depth for each condition after the first, or if both
have the same depth and it suffices for the nested ones; and so they do under any bounds that cut
neither of them short. Where a condition holds and none before it does, the outcome is that of its
block, run from the state that the condition leaves, whatever conditions follow. -/
theorem elseIf_eq_nested (test : Expr) (body : List Stmt) (otherwise : Alternative)
    (line : Option Int) (state : State) :
    (∀ patience depth,
      ¬ IsCut (exec patience depth (.ifThen test body otherwise line) state).1 →
      SameOutcome (exec patience depth (.ifThen test body otherwise line) state)
        (exec patience (depth + otherwise.clauses.length)
          (.ifThen test body (otherwise.nested line) line) state)) ∧
    (∀ patience depth,
      ¬ IsCut (exec patience depth (.ifThen test body (otherwise.nested line) line) state).1 →
      SameOutcome (exec patience depth (.ifThen test body otherwise line) state)
        (exec patience depth (.ifThen test body (otherwise.nested line) line) state)) ∧
    (∀ patience depth patience' depth',
      ¬ IsCut (exec patience depth (.ifThen test body otherwise line) state).1 →
      ¬ IsCut (exec patience' depth' (.ifThen test body (otherwise.nested line) line) state).1 →
      SameOutcome (exec patience depth (.ifThen test body otherwise line) state)
        (exec patience' depth' (.ifThen test body (otherwise.nested line) line) state)) ∧
    (∀ patience depth earlier held block later middle after,
      (test, body) :: otherwise.clauses = earlier ++ (held, block) :: later →
      NoneHolds (eval patience depth) earlier state middle →
      eval patience depth held middle = (.ok (.boolean true), after) →
      exec patience (depth + 1) (.ifThen test body otherwise line) state =
        tag line (inBlock (statements (exec patience depth) block) after)) := by
  refine ⟨fun patience depth =>
      exec_isMatchedBy_nested patience depth test body otherwise line state,
    fun patience depth hcut =>
      (exec_nested_isMatchedBy patience depth test body otherwise line state hcut).symm,
    fun patience depth patience' depth' hcut hcut' => ?_,
    fun patience depth earlier held block later middle after hclauses hearlier hheld =>
      exec_ifThen_apply hclauses hearlier hheld⟩
  have hchain := exec_isExtendedBy (Nat.le_max_left patience patience')
    (Nat.le_max_left depth depth') (.ifThen test body otherwise line) state hcut
  have hnested := exec_isExtendedBy (Nat.le_max_right patience patience')
    (Nat.le_trans (Nat.le_max_right depth depth')
      (Nat.le_add_right _ otherwise.clauses.length))
    (.ifThen test body (otherwise.nested line) line) state hcut'
  rw [← hchain] at hcut
  rw [← hchain, ← hnested]
  exact exec_isMatchedBy_nested _ _ test body otherwise line state hcut

/-- What is tried after a first condition: `more`, then a name that is not declared. -/
def triesMore : Alternative :=
  .elseIf (.name "more") printsMore (.elseIf (.name "absent") [] (.otherwise [.breakLoop (some 5)]))

/-- Where `more` is true, the first condition does not hold and the last one is not evaluated. -/
theorem elseIf_eq_nested_triesMore :
    let chain : Stmt := .ifThen (.unary .not (.name "more")) [] triesMore (some 1)
    let nested : Stmt :=
      .ifThen (.unary .not (.name "more")) [] (triesMore.nested (some 1)) (some 1)
    SameOutcome (exec 1 4 chain moreTrue) (exec 1 6 nested moreTrue) ∧
      SameOutcome (exec 1 5 chain moreTrue) (exec 1 5 nested moreTrue) ∧
      SameOutcome (exec 2 4 chain moreTrue) (exec 1 7 nested moreTrue) ∧
      exec 1 4 chain moreTrue =
        tag (some 1) (inBlock (statements (exec 1 3) printsMore) moreTrue) ∧
      (exec 1 6 nested moreTrue).2.output = #["khara"] := by
  intro chain nested
  obtain ⟨hmore, hsame, hany, hfirst⟩ :=
    elseIf_eq_nested (.unary .not (.name "more")) [] triesMore (some 1) moreTrue
  exact ⟨hmore 1 4 (by decide), hsame 1 5 (by decide), hany 2 4 1 7 (by decide) (by decide),
    hfirst 1 3 [(.unary .not (.name "more"), [])] (.name "more") printsMore
      [(.name "absent", [])] moreTrue moreTrue rfl (EvaluateTo.cons rfl (.nil _)) rfl, by rfl⟩

end Run

end Bol
