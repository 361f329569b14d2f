/-
# Statements in terms of simpler ones

A loop with a condition is an endless loop whose body leaves it as soon as the condition does not
hold. The two do the same round by round: the block of the endless loop holds nothing but a
conditional, which ignores the scope of that block, and the signals of the body pass through the
conditional to the loop.
-/

import Bol.Proofs.Run.EmptyScopes

namespace Bol

/-- The endless loop that tests the condition inside, as in
`joparyant barobr { jr test { body } nahitr { thamb } }`. -/
def Stmt.endlessWhile (test : Expr) (body : List Stmt) (line : Option Int) : Stmt :=
  .whileDo (.boolean true) [.ifThen test body (.otherwise [.breakLoop line]) line] line

namespace Run

/-- Results that are the same, but for the keyword in a fault about a condition. -/
inductive SameButKeyword {α : Type} : Except Stop α → Except Stop α → Prop
  | same (result : Except Stop α) : SameButKeyword result result
  | condition (keyword keyword' : TokenKind) (value : Value) (line : Option Int) :
      SameButKeyword (.error (.fault ⟨.conditionType keyword value, line⟩))
        (.error (.fault ⟨.conditionType keyword' value, line⟩))

/-- Outcomes that leave the same state with results that are the same up to that keyword. -/
structure SameOutcome {α : Type} (outcome outcome' : Except Stop α × State) : Prop where
  result : SameButKeyword outcome.1 outcome'.1
  state : outcome.2 = outcome'.2

theorem SameOutcome.refl {α : Type} (outcome : Except Stop α × State) :
    SameOutcome outcome outcome := ⟨.same _, rfl⟩

theorem SameButKeyword.symm {α : Type} {result result' : Except Stop α}
    (h : SameButKeyword result result') : SameButKeyword result' result := by
  cases h with
  | same => exact .same _
  | condition keyword keyword' value line => exact .condition keyword' keyword value line

theorem SameOutcome.symm {α : Type} {outcome outcome' : Except Stop α × State}
    (h : SameOutcome outcome outcome') : SameOutcome outcome' outcome :=
  ⟨h.result.symm, h.state.symm⟩

theorem SameButKeyword.isCut_iff {α : Type} {result result' : Except Stop α}
    (h : SameButKeyword result result') : IsCut result ↔ IsCut result' := by
  cases h with
  | same => exact Iff.rfl
  | condition => exact Iff.rfl

/-- The outcome on behalf of a statement. -/
def tag {α : Type} (line : Option Int) (outcome : Except Stop α × State) :
    Except Stop α × State :=
  (tagged line outcome.1, outcome.2)

/-- Sequences have the same outcome if their first parts do and so does what follows. -/
theorem SameOutcome.bind {α β : Type} {act act' : Run α} {next next' : α → Run β} {state : State}
    (h : SameOutcome (act state) (act' state))
    (hnext : ∀ value after, act state = (.ok value, after) →
      SameOutcome (next value after) (next' value after)) :
    SameOutcome ((act >>= next) state) ((act' >>= next') state) := by
  rw [bind_apply, bind_apply]
  generalize act state = outcome at h hnext
  generalize act' state = outcome' at h
  obtain ⟨result, after⟩ := outcome
  obtain ⟨result', after'⟩ := outcome'
  obtain ⟨hresult, rfl⟩ := h
  cases hresult with
  | same =>
      cases result with
      | error stop => exact .refl _
      | ok value => exact hnext value after rfl
  | condition keyword keyword' value line => exact ⟨.condition keyword keyword' value line, rfl⟩

theorem SameOutcome.tag {α : Type} {outcome outcome' : Except Stop α × State}
    (h : SameOutcome outcome outcome') (line : Option Int) :
    SameOutcome (tag line outcome) (tag line outcome') := by
  obtain ⟨result, state⟩ := outcome
  obtain ⟨result', state'⟩ := outcome'
  obtain ⟨hresult, rfl⟩ := h
  cases hresult with
  | same => exact .refl _
  | condition keyword keyword' value own =>
      cases own with
      | none => exact ⟨.condition keyword keyword' value line, rfl⟩
      | some own => exact ⟨.condition keyword keyword' value own, rfl⟩

/-- What follows a round of a loop. -/
def afterRound (again : Run Signal) : Except Stop Signal × State → Except Stop Signal × State
  | (.error stop, state) => (.error stop, state)
  | (.ok .broke, state) => (.ok .normal, state)
  | (.ok (.returned value), state) => (.ok (.returned value), state)
  | (.ok .normal, state) | (.ok .continued, state) => again state

/-- A loop that may go on for another round comes to what follows this round, if there is one. -/
theorem loop_succ_apply (test : Run Bool) (body : Run Signal) (rounds : Nat) (state : State) :
    loop test body (rounds + 1) state =
      match test state with
      | (.error stop, after) => (.error stop, after)
      | (.ok true, after) => afterRound (loop test body rounds) (body after)
      | (.ok false, after) => (.ok .normal, after) := by
  rw [loop, bind_apply]
  rcases test state with ⟨_ | _ | _, after⟩
  · rfl
  · rfl
  · simp only [if_true, bind_apply]
    rcases body after with ⟨_ | _ | _ | _ | _, last⟩ <;> rfl

/-- An error leaves the endless loop as it left the conditional in it. -/
theorem sameOutcome_of_error (line : Option Int) (stop : Stop) (again : Run Signal)
    (state : State) :
    SameOutcome (tag line (.error stop, state))
      (tag line (afterRound again (tag line (.error stop, state)))) := by
  rcases stop with ⟨fault, _ | _⟩ | _ | _ <;> cases line <;> exact .refl _

section Rounds

variable (test : Run Value) (body : Run Signal) (line : Option Int)

/-- Runs `body` if the condition holds, and asks to leave the loop if it does not. -/
def guarded : Run Signal := onLine line do
  if ← condition .ifWord (← test) then body else return .broke

theorem guarded_apply (state : State) :
    guarded test body line state =
      match test state with
      | (.error stop, after) => tag line (.error stop, after)
      | (.ok (.boolean true), after) => tag line (body after)
      | (.ok (.boolean false), after) => (.ok .broke, after)
      | (.ok value, after) => tag line (faulty (.conditionType .ifWord value) after) := by
  rw [guarded, onLine_apply, bind_apply]
  rcases test state with ⟨_ | ⟨_ | ⟨_ | _⟩⟩, after⟩ <;> rfl

/-- The next round of a loop whose condition is an expression. -/
theorem loop_condition_apply (rounds : Nat) (state : State) :
    loop (do condition .whileWord (← test)) body (rounds + 1) state =
      match test state with
      | (.error stop, after) => (.error stop, after)
      | (.ok (.boolean true), after) =>
        afterRound (loop (do condition .whileWord (← test)) body rounds) (body after)
      | (.ok (.boolean false), after) => (.ok .normal, after)
      | (.ok value, after) => faulty (.conditionType .whileWord value) after := by
  rw [loop_succ_apply, bind_apply]
  rcases test state with ⟨_ | ⟨_ | ⟨_ | _⟩⟩, after⟩ <;> rfl

/-- Both loops agree in any number of rounds. -/
theorem loop_eq_endless (rounds : Nat) (state : State) :
    SameOutcome (onLine line (loop (do condition .whileWord (← test)) body rounds) state)
      (onLine line (loop (pure true) (guarded test body line) rounds) state) := by
  rw [onLine_apply, onLine_apply]
  change SameOutcome (tag line _) (tag line _)
  induction rounds generalizing state with
  | zero => exact .refl _
  | succ rounds ih =>
      have hround : loop (pure true) (guarded test body line) (rounds + 1) state =
          afterRound (loop (pure true) (guarded test body line) rounds)
            (guarded test body line state) := loop_succ_apply _ _ _ _
      rw [hround, guarded_apply, loop_condition_apply]
      rcases test state with ⟨stop | value, after⟩
      · exact sameOutcome_of_error line stop _ after
      · cases value with
        | boolean holds =>
            cases holds with
            | false => exact .refl _
            | true =>
                dsimp only
                rcases body after with ⟨stop | signal, last⟩
                · exact sameOutcome_of_error line stop _ last
                · cases signal with
                  | normal | continued => exact ih last
                  | broke | returned _ => exact .refl _
        | null | number _ | string _ | function _ =>
            cases line <;> exact ⟨.condition .whileWord .ifWord _ _, rfl⟩

end Rounds

section Bounds

variable (patience depth : Nat) (test : Expr) (body : List Stmt) (line : Option Int)

/-- The body of the endless loop tests the condition and leaves the loop if it does not hold. -/
theorem exec_ifThen_breakLoop :
    exec patience (depth + 1) (.ifThen test body (.otherwise [.breakLoop line]) line) =
      guarded (eval patience depth test) (inBlock (statements (exec patience depth) body))
        line := by
  rw [exec.eq_def, guarded]
  cases depth with
  | zero =>
      -- The condition is already too deep, and so is `thamb`, which is not reached.
      simp only [eval_zero]
      rfl
  | succ depth =>
      have hbreak : inBlock (statements (exec patience (depth + 1)) [.breakLoop line]) =
          pure .broke := by
        rw [statements_singleton, exec.eq_def]
        rfl
      simp only [alternative, hbreak]

/-- With one more level for the conditional, the endless loop does what the loop does. -/
theorem exec_while_eq_endless (state : State) :
    SameOutcome (exec patience (depth + 1) (.whileDo test body line) state)
      (exec patience (depth + 2) (.endlessWhile test body line) state) := by
  have htrue : (do condition .whileWord (← eval patience (depth + 1) (.boolean true))) =
      pure true := by
    rw [eval.eq_def]
    rfl
  have hendless : exec patience (depth + 2) (.endlessWhile test body line) =
      onLine line (loop (pure true) (guarded (eval patience depth test)
        (inBlock (statements (exec patience depth) body)) line) patience) := by
    rw [exec.eq_def]
    dsimp only [Stmt.endlessWhile]
    rw [htrue, block_ifThen, exec_ifThen_breakLoop]
  rw [hendless, exec.eq_def]
  exact loop_eq_endless _ _ line patience state

end Bounds

/-- A loop and the endless loop that tests its condition inside leave the same state with the same
result, up to the keyword in a fault about the condition. They do so round by round, one level of
depth apart; under any bounds that cut neither of them short; and there are bounds that do not cut
the one short if and only if there are such bounds for the other. -/
theorem while_eq_endless (test : Expr) (body : List Stmt) (line : Option Int) (state : State) :
    (∀ patience depth,
      SameOutcome (exec patience (depth + 1) (.whileDo test body line) state)
        (exec patience (depth + 2) (.endlessWhile test body line) state)) ∧
    (∀ patience depth patience' depth',
      ¬ IsCut (exec patience depth (.whileDo test body line) state).1 →
      ¬ IsCut (exec patience' depth' (.endlessWhile test body line) state).1 →
      SameOutcome (exec patience depth (.whileDo test body line) state)
        (exec patience' depth' (.endlessWhile test body line) state)) ∧
    ((∃ patience depth, ¬ IsCut (exec patience depth (.whileDo test body line) state).1) ↔
      ∃ patience depth, ¬ IsCut (exec patience depth (.endlessWhile test body line) state).1) := by
  have hsame := fun patience depth => exec_while_eq_endless patience depth test body line state
  refine ⟨hsame, fun patience depth patience' depth' hcut hcut' => ?_, ?_⟩
  · have hwhile := exec_isExtendedBy (Nat.le_max_left patience patience')
      (Nat.le_succ_of_le (Nat.le_max_left depth depth')) (.whileDo test body line) state hcut
    have hendless := exec_isExtendedBy (Nat.le_max_right patience patience')
      (Nat.le_add_right_of_le (k := 2) (Nat.le_max_right depth depth'))
      (.endlessWhile test body line) state hcut'
    rw [← hwhile, ← hendless]
    exact hsame _ _
  · constructor
    · rintro ⟨patience, depth, hcut⟩
      have hmore := exec_isExtendedBy (Nat.le_refl _) (Nat.le_succ depth)
        (.whileDo test body line) state hcut
      rw [← hmore] at hcut
      exact ⟨_, _, fun hcut' => hcut ((hsame patience depth).result.isCut_iff.mpr hcut')⟩
    · rintro ⟨patience, depth, hcut⟩
      have hmore := exec_isExtendedBy (Nat.le_refl _) (Nat.le_add_right depth 2)
        (.endlessWhile test body line) state hcut
      rw [← hmore] at hcut
      exact ⟨_, _, fun hcut' => hcut ((hsame patience depth).result.isCut_iff.mp hcut')⟩

/-- A loop's body that prints `more`, makes it false and goes on to the next round. -/
def printsMore : List Stmt :=
  [.print (.name "more") (some 2), .assign "more" (.boolean false) (some 3), .continueLoop (some 4)]

/-- A state in which `more` is true, inside a block. -/
def moreTrue : State := ⟨.empty, [.empty, ⟨[("more", .boolean true)]⟩], [], #[], 0⟩

/-- Both loops print `more` once and leave it false. -/
theorem while_eq_endless_printsMore :
    SameOutcome (exec 2 3 (.whileDo (.name "more") printsMore (some 1)) moreTrue)
        (exec 3 4 (.endlessWhile (.name "more") printsMore (some 1)) moreTrue) ∧
      (exec 3 4 (.endlessWhile (.name "more") printsMore (some 1)) moreTrue).2.output =
        #["khara"] :=
  ⟨(while_eq_endless (.name "more") printsMore (some 1) moreTrue).2.1 2 3 3 4 (by decide)
    (by decide), by rfl⟩

end Run

end Bol
