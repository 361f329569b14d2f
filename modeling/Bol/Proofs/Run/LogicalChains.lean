/-
# Chains of `ani` and `kinva`

How the operands of a chain are grouped does not matter, not even where they print, assign or fail:
whatever the grouping, evaluation takes the operands from the left, one after the other, up to the
first that decides the chain, has no truth value or fails. A grouping only changes how deeply the
operands are nested, and so which bounds suffice.
-/

import Bol.Proofs.Program.Complete
import Bol.Proofs.Run.Bounds

namespace Bol

namespace Expr

/-- Operands joined from the left, as in `(a ani b) ani c`. -/
def leftChain (op : BinaryOp) (first : Expr) (rest : List Expr) : Expr :=
  rest.foldl (.binary op) first

/-- Operands joined from the right, as in `a ani (b ani c)`. -/
def rightChain (op : BinaryOp) : Expr → List Expr → Expr
  | first, [] => first
  | first, second :: rest => .binary op first (rightChain op second rest)

/-- The expression joins the operands in their order, grouped in any way. -/
inductive Joins (op : BinaryOp) : List Expr → Expr → Prop
  | operand (expr : Expr) : Joins op [expr] expr
  | joined {operands operands' : List Expr} {left right : Expr} (hleft : Joins op operands left)
      (hright : Joins op operands' right) :
      Joins op (operands ++ operands') (.binary op left right)

namespace Joins

variable {op : BinaryOp} {operands : List Expr} {tree : Expr}

theorem foldl (h : Joins op operands tree) (rest : List Expr) :
    Joins op (operands ++ rest) (rest.foldl (.binary op) tree) := by
  induction rest generalizing operands tree with
  | nil => rwa [List.append_nil]
  | cons next rest ih =>
      rw [List.append_cons]
      exact ih (h.joined (.operand next))

theorem leftChain (op : BinaryOp) (first : Expr) (rest : List Expr) :
    Joins op (first :: rest) (leftChain op first rest) :=
  (operand first).foldl rest

theorem rightChain (op : BinaryOp) (first : Expr) (rest : List Expr) :
    Joins op (first :: rest) (rightChain op first rest) := by
  induction rest generalizing first with
  | nil => exact .operand first
  | cons second rest ih => exact (operand first).joined (ih second)

theorem length_pos (h : Joins op operands tree) : 0 < operands.length := by
  induction h with
  | operand => exact Nat.one_pos
  | joined _ _ ihleft =>
      rw [List.length_append]
      exact Nat.add_pos_left ihleft _

end Joins

end Expr

/-! ## The tree that is read -/

namespace Grammar

variable {word : TokenKind} {op : BinaryOp} {operand : Phrase Expr} {ts : List Token}
  {first : Expr} {rest : List Expr}

/-- One operand, or two with a comparison between them: what stands between words like `ani`. -/
def Comparison : Phrase Expr :=
  Compared <| Joined TokenKind.isAdditive <| Joined TokenKind.isMultiplicative Operand

/-- What stands between two words of a chain: comparisons joined by `ani` in a chain of `kinva`,
and single ones in a chain of `ani`. -/
def ChainOperand (word : TokenKind) : Phrase Expr :=
  if word = .orWord then Joined (· == .andWord) Comparison else Comparison

/-- Tokens that spell a chain: an operand, and any number of further ones, each after the word. -/
inductive ChainOf (word : TokenKind) (op : BinaryOp) (operand : Phrase Expr) :
    List Token → Expr → List Expr → Prop
  | single {ts : List Token} {first : Expr} (hoperand : operand ts first) :
      ChainOf word op operand ts first []
  | more {ts us : List Token} {t : Token} {first next : Expr} {rest : List Expr}
      (hchain : ChainOf word op operand ts first rest) (ht : t.kind = word)
      (hop : .ofSpelling t.value = op) (hoperand : operand us next) :
      ChainOf word op operand (ts ++ t :: us) first (rest ++ [next])

/-- A chain is grouped from the left. -/
theorem ChainOf.joined (h : ChainOf word op operand ts first rest) :
    Joined (· == word) operand ts (first.leftChain op rest) := by
  induction h with
  | single hoperand => exact .single hoperand
  | more _ ht hop hoperand ih =>
      rw [Expr.leftChain, List.foldl_append, List.foldl_cons, List.foldl_nil, ← hop]
      rw [← hop] at ih
      exact .more ih (beq_iff_eq.mpr ht) hoperand

theorem ChainOf.expression (hword : word = .andWord ∨ word = .orWord)
    (h : ChainOf word op (ChainOperand word) ts first rest) :
    Expression ts (first.leftChain op rest) := by
  obtain rfl | rfl := hword
  · exact .single h.joined
  · exact h.joined

end Grammar

/-- The reader of expressions reads a chain in full and groups it from the left. -/
theorem Parser.expression_chain {word : TokenKind} {op : BinaryOp} {ts after : List Token}
    {first : Expr} {rest : List Expr} {rounds depth : Nat}
    (hword : word = .andWord ∨ word = .orWord)
    (h : Grammar.ChainOf word op (Grammar.ChainOperand word) ts first rest)
    (hrounds : ts.length ≤ rounds) (hdepth : ts.length ≤ depth)
    (hafter : (current after).kind.continuesExpression = false) :
    Parser.expression Expr.negated rounds depth (ts ++ after) =
      .ok (first.leftChain op rest, after) :=
  Complete.expression depth ts _ after hrounds
    ((Grammar.operandAt_of_operand depth).expressionOf ts _ hdepth (h.expression hword)) hafter

namespace Run

open Bol.Expr

variable {op : BinaryOp} {decisive : Bool} {patience depth : Nat}

/-! ## Operands one after the other -/

/-- The first truth value if it is the decisive one, and else the second. Only then is the second
one computed. -/
def unlessSettled (decisive : Bool) (first second : Run Bool) : Run Bool := do
  let value ← first
  if value = decisive then return value else second

theorem pure_unlessSettled (act : Run Bool) :
    unlessSettled decisive (pure !decisive) act = act := by
  cases decisive <;> exact pure_bind _ _

theorem unlessSettled_pure (act : Run Bool) :
    unlessSettled decisive act (pure !decisive) = act := by
  have hvalue : ∀ value : Bool, (if value = decisive then pure value else pure !decisive) =
      (pure value : Run Bool) := by
    intro value
    cases decisive <;> cases value <;> rfl
  simp only [unlessSettled, hvalue, bind_pure]

theorem unlessSettled_assoc (first second third : Run Bool) :
    unlessSettled decisive (unlessSettled decisive first second) third =
      unlessSettled decisive first (unlessSettled decisive second third) := by
  rw [unlessSettled, unlessSettled, unlessSettled, bind_assoc]
  refine bind_congr fun value => ?_
  split
  · rename_i hsettled
    rw [pure_bind, if_pos hsettled]
  · rfl

/-- The truth value of an operand. -/
def truth (op : BinaryOp) (operand : Run Value) : Run Bool := do logicalOperand op (← operand)

/-- The truth value of a chain: that of its first operand with the decisive value, if there is
one. The operands after it are not run. -/
def firstDecisive (op : BinaryOp) (decisive : Bool) : List (Run Value) → Run Bool
  | [] => pure !decisive
  | operand :: rest => unlessSettled decisive (truth op operand) (firstDecisive op decisive rest)

theorem firstDecisive_singleton (operand : Run Value) :
    firstDecisive op decisive [operand] = truth op operand := unlessSettled_pure _

theorem firstDecisive_append (operands operands' : List (Run Value)) :
    firstDecisive op decisive (operands ++ operands') =
      unlessSettled decisive (firstDecisive op decisive operands)
        (firstDecisive op decisive operands') := by
  induction operands with
  | nil => exact (pure_unlessSettled _).symm
  | cons operand rest ih =>
      rw [List.cons_append, firstDecisive, ih, firstDecisive, unlessSettled_assoc]

/-- A truth value that was made a value is read off again. -/
theorem truth_boolean (act : Run Bool) : truth op (Value.boolean <$> act) = act := by
  rw [truth, bind_map_left]
  exact bind_pure act

theorem eval_logical (hop : op.decisive? = some decisive) (left right : Expr) :
    eval patience (depth + 1) (.binary op left right) = Value.boolean <$>
      unlessSettled decisive (truth op (eval patience depth left))
        (truth op (eval patience depth right)) := by
  rw [eval, hop, unlessSettled, map_bind, truth, bind_assoc]
  refine bind_congr fun value => bind_congr fun first => ?_
  split
  · rfl
  · rw [truth, map_eq_pure_bind, bind_assoc]

/-! ## Every grouping of a chain -/

section Grouping

variable {operands : List Expr} {tree : Expr} {patience' depth' : Nat}

theorem unlessSettled_isExtendedBy {first second first' second' : Run Bool}
    (hfirst : IsExtendedBy first first') (hsecond : IsExtendedBy second second') :
    IsExtendedBy (unlessSettled decisive first second)
      (unlessSettled decisive first' second') := by
  refine isExtendedBy_congruence.bind hfirst fun value => ?_
  split
  · exact isExtendedBy_refl _
  · exact hsecond

theorem truth_isExtendedBy {operand operand' : Run Value} (h : IsExtendedBy operand operand') :
    IsExtendedBy (truth op operand) (truth op operand') :=
  isExtendedBy_congruence.bind h fun _ => isExtendedBy_refl _

/-- A chain of two or more operands has no values but truth values. -/
theorem eval_eq_truth (hop : op.decisive? = some decisive) (h : Joins op operands tree)
    (hcount : 2 ≤ operands.length) :
    eval patience depth tree = Value.boolean <$> truth op (eval patience depth tree) := by
  cases h with
  | operand => cases Nat.not_succ_le_self 1 hcount
  | joined =>
      cases depth with
      | zero => rw [eval_zero]; rfl
      | succ depth => rw [eval_logical hop, truth_boolean]

/-- However its operands are grouped, a chain runs them one after the other. -/
theorem tree_isExtendedBy_operands (hop : op.decisive? = some decisive)
    (h : Joins op operands tree) (hpatience : patience ≤ patience') (hdepth : depth ≤ depth') :
    IsExtendedBy (truth op (eval patience depth tree))
      (firstDecisive op decisive (operands.map (eval patience' depth'))) := by
  induction h generalizing depth with
  | operand expr =>
      rw [List.map_singleton, firstDecisive_singleton]
      exact truth_isExtendedBy (eval_isExtendedBy hpatience hdepth expr)
  | joined _ _ ihleft ihright =>
      cases depth with
      | zero =>
          rw [eval_zero]
          refine isExtendedBy_of_isCut (fun state => ?_) _
          exact trivial
      | succ depth =>
          have hdepth := Nat.le_of_succ_le hdepth
          rw [eval_logical hop, truth_boolean, List.map_append, firstDecisive_append]
          exact unlessSettled_isExtendedBy (ihleft hdepth) (ihright hdepth)

/-- With as many more levels as there are operands, every grouping can run all of them. -/
theorem operands_isExtendedBy_tree (hop : op.decisive? = some decisive)
    (h : Joins op operands tree) (hpatience : patience ≤ patience')
    (hdepth : depth + operands.length ≤ depth') :
    IsExtendedBy (firstDecisive op decisive (operands.map (eval patience depth)))
      (truth op (eval patience' depth' tree)) := by
  induction h generalizing depth' with
  | operand expr =>
      rw [List.map_singleton, firstDecisive_singleton]
      exact truth_isExtendedBy (eval_isExtendedBy hpatience (Nat.le_of_add_right_le hdepth) expr)
  | joined hleft hright ihleft ihright =>
      have hleftCount := hleft.length_pos
      have hrightCount := hright.length_pos
      rw [List.length_append] at hdepth
      obtain ⟨depth', rfl⟩ : ∃ inner, depth' = inner + 1 := ⟨depth' - 1, by omega⟩
      rw [eval_logical hop, truth_boolean, List.map_append, firstDecisive_append]
      exact unlessSettled_isExtendedBy (ihleft (by omega)) (ihright (by omega))

/-- A tree of two or more operands has the outcome of its operands run one after the other. -/
theorem eval_isExtendedBy_operands (hop : op.decisive? = some decisive)
    (h : Joins op operands tree) (hcount : 2 ≤ operands.length) (hpatience : patience ≤ patience')
    (hdepth : depth ≤ depth') :
    IsExtendedBy (eval patience depth tree)
      (Value.boolean <$> firstDecisive op decisive (operands.map (eval patience' depth'))) := by
  rw [eval_eq_truth hop h hcount]
  exact isExtendedBy_congruence.map _ (tree_isExtendedBy_operands hop h hpatience hdepth)

theorem operands_isExtendedBy_eval (hop : op.decisive? = some decisive)
    (h : Joins op operands tree) (hcount : 2 ≤ operands.length) :
    IsExtendedBy (Value.boolean <$> firstDecisive op decisive (operands.map (eval patience depth)))
      (eval patience (depth + operands.length) tree) := by
  rw [eval_eq_truth hop h hcount]
  exact isExtendedBy_congruence.map _
    (operands_isExtendedBy_tree hop h (Nat.le_refl _) (Nat.le_refl _))

end Grouping

/-! ## How a chain ends -/

section Ends

variable (decisive : Bool) (eval : Expr → Run Value) (operands : List Expr) (before : State)

/-- The operands up to `operand` are evaluated in order from the state `before`, all of them to the
value that does not decide the chain, and `middle` is the state that they leave. -/
def Reaches (operand : Expr) (middle : State) : Prop :=
  ∃ earlier later, operands = earlier ++ operand :: later ∧
    EvaluateTo eval earlier (List.replicate earlier.length (.boolean !decisive)) before middle

/-- The outcome of a chain: every operand is evaluated once and none decides it, or the first that
decides it, has no truth value or stops the run is the last that is evaluated. -/
inductive ChainEnds (op : BinaryOp) : Except Stop Value × State → Prop
  | undecided {after : State} (hall : EvaluateTo eval operands
      (List.replicate operands.length (.boolean !decisive)) before after) :
      ChainEnds op (.ok (.boolean !decisive), after)
  | decided {operand : Expr} {middle after : State}
      (hreached : Reaches decisive eval operands before operand middle)
      (hoperand : eval operand middle = (.ok (.boolean decisive), after)) :
      ChainEnds op (.ok (.boolean decisive), after)
  | notBoolean {operand : Expr} {value : Value} {middle after : State}
      (hreached : Reaches decisive eval operands before operand middle)
      (hoperand : eval operand middle = (.ok value, after)) (htype : value.type ≠ .boolean) :
      ChainEnds op (faulty (.logicalOperand op value) after)
  | stopped {operand : Expr} {stop : Stop} {middle after : State}
      (hreached : Reaches decisive eval operands before operand middle)
      (hoperand : eval operand middle = (.error stop, after)) :
      ChainEnds op (.error stop, after)

variable {decisive eval operands before}

theorem Reaches.first (operand : Expr) (rest : List Expr) :
    Reaches decisive eval (operand :: rest) before operand before :=
  ⟨[], rest, rfl, .nil before⟩

theorem Reaches.next {first operand : Expr} {middle last : State}
    (hfirst : eval first before = (.ok (.boolean !decisive), middle))
    (h : Reaches decisive eval operands middle operand last) :
    Reaches decisive eval (first :: operands) before operand last := by
  obtain ⟨earlier, later, rfl, hearlier⟩ := h
  exact ⟨first :: earlier, later, rfl, .cons hfirst hearlier⟩

theorem ChainEnds.next {op : BinaryOp} {first : Expr} {middle : State}
    {outcome : Except Stop Value × State}
    (hfirst : eval first before = (.ok (.boolean !decisive), middle))
    (h : ChainEnds decisive eval operands middle op outcome) :
    ChainEnds decisive eval (first :: operands) before op outcome := by
  cases h with
  | undecided hall => exact .undecided (.cons hfirst hall)
  | decided hreached hoperand => exact .decided (hreached.next hfirst) hoperand
  | notBoolean hreached hoperand htype => exact .notBoolean (hreached.next hfirst) hoperand htype
  | stopped hreached hoperand => exact .stopped (hreached.next hfirst) hoperand

theorem chainEnds_firstDecisive (op : BinaryOp) (operands : List Expr) (before : State) :
    ChainEnds decisive eval operands before op
      ((Value.boolean <$> firstDecisive op decisive (operands.map eval)) before) := by
  induction operands generalizing before with
  | nil => exact .undecided (.nil before)
  | cons operand rest ih =>
      have hreached : Reaches decisive eval (operand :: rest) before operand before :=
        .first operand rest
      rw [List.map_cons, firstDecisive, unlessSettled, truth, map_bind, bind_assoc]
      rcases hoperand : eval operand before with ⟨stop | value, after⟩
      · rw [bind_apply_of_error hoperand]
        exact .stopped hreached hoperand
      · rw [bind_apply_of_ok hoperand]
        cases value with
        | boolean value =>
            rw [logicalOperand, pure_bind]
            by_cases hvalue : value = decisive
            · rw [if_pos hvalue]
              subst hvalue
              exact .decided hreached hoperand
            · rw [if_neg hvalue]
              obtain rfl : value = !decisive := Bool.eq_not_of_ne hvalue
              exact (ih after).next hoperand
        | null | number _ | string _ | function _ =>
            exact .notBoolean hreached hoperand nofun

end Ends

/-! ## Both groupings -/

/-- Two expressions evaluate alike: from every state they have the same result and leave the same
state, unless a bound cuts one of them short; and what the one does under some bounds, the other
does with at most `more` further levels. -/
structure EvaluateAlike (more : Nat) (expr expr' : Expr) : Prop where
  agree : ∀ state patience depth patience' depth', ¬ IsCut (eval patience depth expr state).1 →
    ¬ IsCut (eval patience' depth' expr' state).1 →
      eval patience depth expr state = eval patience' depth' expr' state
  extended : ∀ patience depth,
    IsExtendedBy (eval patience depth expr) (eval patience (depth + more) expr')
  extended' : ∀ patience depth,
    IsExtendedBy (eval patience depth expr') (eval patience (depth + more) expr)

/-- All groupings of two or more operands evaluate alike. -/
theorem evaluateAlike_of_joins {operands : List Expr} {tree tree' : Expr}
    (hop : op.decisive? = some decisive) (hcount : 2 ≤ operands.length)
    (h : Joins op operands tree) (h' : Joins op operands tree') :
    EvaluateAlike operands.length tree tree' where
  agree _ patience depth patience' depth' hcut hcut' :=
    have hsame := eval_isExtendedBy_operands hop h hcount (Nat.le_max_left patience patience')
      (Nat.le_max_left depth depth')
    have hsame' := eval_isExtendedBy_operands hop h' hcount (Nat.le_max_right patience patience')
      (Nat.le_max_right depth depth')
    hsame.agree hsame' hcut hcut'
  extended _ _ :=
    (eval_isExtendedBy_operands hop h hcount (Nat.le_refl _) (Nat.le_refl _)).trans
      (operands_isExtendedBy_eval hop h' hcount)
  extended' _ _ :=
    (eval_isExtendedBy_operands hop h' hcount (Nat.le_refl _) (Nat.le_refl _)).trans
      (operands_isExtendedBy_eval hop h hcount)

/-- What a run of a tree of two or more operands comes to, unless a bound cuts it short. -/
theorem chainEnds_of_joins {operands : List Expr} {tree : Expr} {state : State}
    (hop : op.decisive? = some decisive) (hcount : 2 ≤ operands.length)
    (h : Joins op operands tree) (hcut : ¬ IsCut (eval patience depth tree state).1) :
    ChainEnds decisive (eval patience depth) operands state op
      (eval patience depth tree state) := by
  rw [← eval_isExtendedBy_operands hop h hcount (Nat.le_refl _) (Nat.le_refl _) state hcut]
  exact chainEnds_firstDecisive op operands state

/-- Chains are associative, whatever their operands do. A chain of two or more operands is read
grouped from the left; grouped from the right it has the same result from every state and leaves
the same state. Both evaluate the operands from the left, each at most once, up to the first that
decides the chain, has no truth value or stops the run. -/
theorem logical_chain_associative (hop : op.decisive? = some decisive) (first : Expr)
    {rest : List Expr} (hrest : rest ≠ []) :
    (∀ word ts after rounds depth, word = .andWord ∨ word = .orWord →
      Grammar.ChainOf word op (Grammar.ChainOperand word) ts first rest →
      ts.length ≤ rounds → ts.length ≤ depth →
      (Parser.current after).kind.continuesExpression = false →
        Parser.expression .negated rounds depth (ts ++ after) =
          .ok (first.leftChain op rest, after)) ∧
    EvaluateAlike (rest.length + 1) (first.leftChain op rest) (first.rightChain op rest) ∧
    ∀ tree, tree = first.leftChain op rest ∨ tree = first.rightChain op rest →
      ∀ patience depth state, ¬ IsCut (eval patience depth tree state).1 →
        ChainEnds decisive (eval patience depth) (first :: rest) state op
          (eval patience depth tree state) := by
  have hcount : 2 ≤ (first :: rest).length :=
    Nat.succ_le_succ (List.length_pos_iff.mpr hrest)
  have hleft := Joins.leftChain op first rest
  have hright := Joins.rightChain op first rest
  refine ⟨fun word ts after rounds depth hword hchain hrounds hdepth hafter =>
    Parser.expression_chain hword hchain hrounds hdepth hafter,
    evaluateAlike_of_joins hop hcount hleft hright, ?_⟩
  rintro tree (rfl | rfl) patience depth state hcut
  · exact chainEnds_of_joins hop hcount hleft hcut
  · exact chainEnds_of_joins hop hcount hright hcut

/-- A function that prints its name and returns the truth value. -/
def answer (id : Nat) (name : String) (value : Bool) : Value :=
  .function ⟨id, name, [],
    [.print (.string name) (some 1), .returnValue (some (.boolean value)) (some 1)]⟩

/-- The functions `yes` and `no` are declared. -/
def answering : State :=
  { State.initial with
    globals := (Scope.empty.add "yes" (answer 0 "yes" true)).add "no" (answer 1 "no" false)
    functions := 2 }

/-- The tokens of `yes() ani no() ani ghost`. -/
def yesNoGhost : List Token :=
  [⟨.identifier, "yes", 1⟩, ⟨.leftParen, "(", 1⟩, ⟨.rightParen, ")", 1⟩, ⟨.andWord, "ani", 1⟩,
    ⟨.identifier, "no", 1⟩, ⟨.leftParen, "(", 1⟩, ⟨.rightParen, ")", 1⟩, ⟨.andWord, "ani", 1⟩,
    ⟨.identifier, "ghost", 1⟩]

theorem chainOf_yesNoGhost : Grammar.ChainOf .andWord .and (Grammar.ChainOperand .andWord)
    yesNoGhost (.call "yes" []) [.call "no" [], .name "ghost"] := by
  have hcall : ∀ name, Grammar.Comparison
      [⟨.identifier, name, 1⟩, ⟨.leftParen, "(", 1⟩, ⟨.rightParen, ")", 1⟩] (.call name []) :=
    fun name => .single (.single (.single ⟨.call rfl (.none rfl rfl)⟩))
  have hname : Grammar.Comparison [⟨.identifier, "ghost", 1⟩] (.name "ghost") :=
    .single (.single (.single ⟨.name rfl⟩))
  have hyes : Grammar.ChainOf .andWord .and (Grammar.ChainOperand .andWord) _ _ _ :=
    .single (hcall "yes")
  have hyesNo := hyes.more (t := ⟨.andWord, "ani", 1⟩) rfl rfl (hcall "no")
  exact hyesNo.more (t := ⟨.andWord, "ani", 1⟩) rfl rfl hname

/-- Both `yes` and `no` are called, in this order; the missing variable `ghost` is not looked up. -/
theorem logical_chain_associative_yesNoGhost :
    let left := (Expr.call "yes" []).leftChain .and [.call "no" [], .name "ghost"]
    let right := (Expr.call "yes" []).rightChain .and [.call "no" [], .name "ghost"]
    BinaryOp.and.decisive? = some false ∧ [Expr.call "no" [], .name "ghost"] ≠ [] ∧
      Parser.expression .negated 9 9 yesNoGhost = .ok (left, []) ∧
      EvaluateAlike 3 left right ∧
      eval 1 6 left answering =
        (.ok (.boolean false), { answering with output := #["yes", "no"] }) ∧
      ChainEnds false (eval 1 6) [.call "yes" [], .call "no" [], .name "ghost"] answering .and
        (eval 1 6 left answering) := by
  obtain ⟨hread, halike, hends⟩ := @logical_chain_associative .and false rfl (.call "yes" [])
    [.call "no" [], .name "ghost"] (List.cons_ne_nil _ _)
  have hread := hread .andWord yesNoGhost [] 9 9 (.inl rfl) chainOf_yesNoGhost (by decide)
    (by decide) rfl
  exact ⟨rfl, List.cons_ne_nil _ _, hread, halike, rfl,
    hends _ (.inl rfl) 1 6 answering (by decide)⟩

end Run

end Bol
