/-
# Types of expressions

The operators ask for operands of certain types, so an expression without calls has a type, or
none, by the types of the values of its names alone. The types tell what an evaluation comes to:
an expression with a type has a value of that type or divides by zero, and one without a type
fails, provided that every operand is evaluated, as it is where there is no `ani` and no `kinva`.
-/

import Bol.Proofs.Run.Purity

namespace Bol

/-- The type of what an operator makes of operands of two types, if it applies to them. -/
def BinaryOp.type? : BinaryOp → ValueType → ValueType → Option ValueType
  | .add, .number, .number => some .number
  | .add, .boolean, .boolean => none
  | .add, _, _ => some .string
  | .sub, .number, .number | .mul, .number, .number | .div, .number, .number => some .number
  | .less, .number, .number | .greater, .number, .number => some .boolean
  | .lessEqual, .number, .number | .greaterEqual, .number, .number => some .boolean
  | .equal, _, _ | .notEqual, _, _ => some .boolean
  | .and, .boolean, .boolean | .or, .boolean, .boolean => some .boolean
  | _, _, _ => none

/-- The type of what an operator makes of an operand of some type, if it applies to it. -/
def UnaryOp.type? : UnaryOp → ValueType → Option ValueType
  | .negate, .number => some .number
  | .not, .boolean => some .boolean
  | _, _ => none

namespace Expr

/-- The type of an expression when the names have values of the given types, if it has one. -/
def type? (names : String → Option ValueType) : Expr → Option ValueType
  | .number _ => some .number
  | .string _ => some .string
  | .boolean _ => some .boolean
  | .null => some .null
  | .name used => names used
  | .binary op left right => do op.type? (← left.type? names) (← right.type? names)
  | .unary op operand => do op.type? (← operand.type? names)
  | .call .. | .misplaced _ => none

/-- Whether every operator of an expression takes all of its operands, so that there is neither
`ani` nor `kinva`. -/
def isStrict : Expr → Bool
  | .binary op left right => op.decisive?.isNone && (left.isStrict && right.isStrict)
  | .unary _ operand => operand.isStrict
  | .number _ | .string _ | .boolean _ | .null | .name _ | .call .. | .misplaced _ => true

end Expr

/-- The types of the values of the names in sight. -/
def State.typeOf (state : State) (name : String) : Option ValueType :=
  (Chain.get? state.chain name).map Value.type

/-- A result is as its type, if there is one, says: a value is of that type, and a fault comes of
a division by zero or of there being no type. -/
def ValueType.Fits (type? : Option ValueType) : Except Fault Value → Prop
  | .ok value => type? = some value.type
  | .error fault => type? = none ∨ fault = .divisionByZero

/-! ## Operators -/

theorem BinaryOp.fits_onNumbers {op : BinaryOp} (hop : op.decisive? = none) (a b : Float) :
    ValueType.Fits (op.type? .number .number) (op.onNumbers a b) := by
  cases op with
  | div =>
      rw [onNumbers]
      split
      · exact .inr rfl
      · rfl
  | and | or => cases hop
  | other spelling => exact .inl rfl
  | add | sub | mul | equal | notEqual | less | greater | lessEqual | greaterEqual => rfl

theorem BinaryOp.fits_apply {op : BinaryOp} (hop : op.decisive? = none) (left right : Value) :
    ValueType.Fits (op.type? left.type right.type) (op.apply left right) := by
  by_cases hnumbers : ∃ a b, left = .number a ∧ right = .number b
  · obtain ⟨a, b, rfl, rfl⟩ := hnumbers
    exact fits_onNumbers hop a b
  · -- No other pair of operands is divided, so an operator fails only where it has no type.
    cases op with
    | and | or => cases hop
    | add | sub | mul | div | equal | notEqual | less | greater | lessEqual | greaterEqual
    | other spelling =>
        cases left <;> cases right <;> first
          | exact absurd ⟨_, _, rfl, rfl⟩ hnumbers
          | exact rfl
          | exact .inl rfl

theorem UnaryOp.fits_apply (op : UnaryOp) (value : Value) :
    ValueType.Fits (op.type? value.type) (op.apply value) := by
  cases op <;> cases value <;> first
    | exact rfl
    | exact .inl rfl

/-- `ani` and `kinva` are for booleans and give booleans. -/
theorem BinaryOp.boolean_of_type? {op : BinaryOp} {decisive : Bool} {left right type : ValueType}
    (hop : op.decisive? = some decisive) (htype : op.type? left right = some type) :
    left = .boolean ∧ right = .boolean ∧ type = .boolean := by
  cases op with
  | and | or =>
      cases left <;> cases right <;> cases htype
      exact ⟨rfl, rfl, rfl⟩
  | add | sub | mul | div | equal | notEqual | less | greater | lessEqual | greaterEqual
  | other spelling => cases hop

/-! ## Expressions -/

theorem ValueType.Fits.bind {type? : Option ValueType} {result : Except Fault Value}
    {next : ValueType → Option ValueType} {act : Value → Except Fault Value}
    (hresult : Fits type? result) (hnext : ∀ value, Fits (next value.type) (act value)) :
    Fits (type? >>= next) (result >>= act) := by
  cases result with
  | ok value =>
      rw [show type? = some value.type from hresult]
      exact hnext value
  | error fault =>
      obtain rfl | hfault := hresult
      · exact .inl rfl
      · exact .inr hfault

/-- What a boolean operand of `ani` or `kinva` may come to. -/
theorem ValueType.Fits.boolean {result : Except Fault Value} (h : Fits (some .boolean) result) :
    (∃ truth, result = .ok (.boolean truth)) ∨ result = .error .divisionByZero := by
  match result, h with
  | .ok (.boolean truth), _ => exact .inl ⟨truth, rfl⟩
  | .error _, .inr rfl => exact .inr rfl

/-- An expression that has a type or takes all of its operands. -/
def Expr.IsSettled (types : String → Option ValueType) (expr : Expr) : Prop :=
  expr.isStrict = true ∨ ∃ type, expr.type? types = some type

theorem Expr.exists_of_type?_binary {types : String → Option ValueType} {op : BinaryOp}
    {left right : Expr} {type : ValueType}
    (h : (Expr.binary op left right).type? types = some type) :
    ∃ first second, left.type? types = some first ∧ right.type? types = some second ∧
      op.type? first second = some type := by
  obtain ⟨first, hfirst, h⟩ := Option.bind_eq_some_iff.mp h
  obtain ⟨second, hsecond, h⟩ := Option.bind_eq_some_iff.mp h
  exact ⟨first, second, hfirst, hsecond, h⟩

theorem Expr.IsSettled.operands {types : String → Option ValueType} {op : BinaryOp}
    {left right : Expr} (h : (Expr.binary op left right).IsSettled types) :
    left.IsSettled types ∧ right.IsSettled types := by
  obtain hstrict | ⟨type, htype⟩ := h
  · simp only [isStrict, Bool.and_eq_true] at hstrict
    exact ⟨.inl hstrict.2.1, .inl hstrict.2.2⟩
  · obtain ⟨first, second, hfirst, hsecond, -⟩ := exists_of_type?_binary htype
    exact ⟨.inr ⟨first, hfirst⟩, .inr ⟨second, hsecond⟩⟩

theorem Expr.IsSettled.operand {types : String → Option ValueType} {op : UnaryOp} {operand : Expr}
    (h : (Expr.unary op operand).IsSettled types) : operand.IsSettled types := by
  refine h.imp_right fun ⟨type, htype⟩ => ?_
  obtain ⟨first, hfirst, -⟩ := Option.bind_eq_some_iff.mp htype
  exact ⟨first, hfirst⟩

/-- Where both operands are booleans, `ani` and `kinva` are fine. -/
theorem Expr.fits_logical (names : String → Option Value) {op : BinaryOp} {decisive : Bool}
    {left right : Expr} (hop : op.decisive? = some decisive)
    (hleft : ValueType.Fits (some .boolean) (left.outcome names))
    (hright : ValueType.Fits (some .boolean) (right.outcome names)) :
    ValueType.Fits (some .boolean) ((Expr.binary op left right).outcome names) := by
  rw [outcome, hop]
  obtain ⟨truth, hleft⟩ | hleft := hleft.boolean <;> rw [hleft]
  · change ValueType.Fits _ (if truth = decisive then .ok (.boolean truth) else do
      let second ← right.outcome names
      return .boolean (← op.operand second))
    split
    · rfl
    · obtain ⟨other, hright⟩ | hright := hright.boolean <;> rw [hright]
      · rfl
      · exact .inr rfl
  · exact .inr rfl

/-- An expression that is settled has the outcome that its type, or the lack of one, announces. -/
theorem Expr.fits_outcome (names : String → Option Value) {expr : Expr}
    (h : expr.IsSettled fun name => (names name).map Value.type) :
    ValueType.Fits (expr.type? fun name => (names name).map Value.type) (expr.outcome names) := by
  induction expr using Expr.isStrict.induct with
  | case1 op left right ihleft ihright =>
      have hleft := ihleft h.operands.1
      have hright := ihright h.operands.2
      cases hop : op.decisive? with
      | none =>
          rw [Expr.type?, Expr.outcome, hop]
          exact hleft.bind fun first => hright.bind fun second =>
            BinaryOp.fits_apply hop first second
      | some decisive =>
          obtain hstrict | ⟨type, htype⟩ := h
          · simp [isStrict, hop] at hstrict
          obtain ⟨first, second, hfirst, hsecond, hboth⟩ := exists_of_type?_binary htype
          obtain ⟨rfl, rfl, rfl⟩ := BinaryOp.boolean_of_type? hop hboth
          rw [htype]
          exact fits_logical names hop (hfirst ▸ hleft) (hsecond ▸ hright)
  | case2 op operand ih => exact (ih h.operand).bind op.fits_apply
  | case7 used =>
      rw [Expr.type?, Expr.outcome]
      cases names used with
      | none => exact .inl rfl
      | some value => rfl
  | case8 | case9 => exact .inl rfl
  | _ => rfl

namespace Run

/-- Types are sound and tight for expressions without calls. One that has a type evaluates to a
value of that type, or fails by dividing by zero and in no other way; one that has none, and in
which there is neither `ani` nor `kinva`, fails. Either way nothing changes. Only a bound on
depth that the nesting of the expression reaches keeps an evaluation from its end. -/
theorem eval_by_type (patience depth : Nat) (expr : Expr) (state : State)
    (hfree : expr.isCallFree = true) :
    (∀ type, expr.type? state.typeOf = some type →
      (∃ value, value.type = type ∧ eval patience depth expr state = (.ok value, state)) ∨
      (eval patience depth expr state = faulty .divisionByZero state ∧
        Fault.divisionByZero.message = "division by zero") ∨
      (eval patience depth expr state = (.error .tooDeep, state) ∧ depth ≤ expr.height)) ∧
    (expr.type? state.typeOf = none → expr.isStrict = true →
      (∃ fault, eval patience depth expr state = faulty fault state) ∨
      (eval patience depth expr state = (.error .tooDeep, state) ∧ depth ≤ expr.height)) := by
  have hfits := @Expr.fits_outcome (Chain.get? state.chain) expr
  have hcomputes := computes_eval hfree patience depth state
  rw [Computes, ofExcept_apply] at hcomputes
  refine ⟨fun type htype => ?_, fun htype hstrict => ?_⟩
  · have hfits := hfits (.inr ⟨type, htype⟩)
    obtain heval | hdeep := hcomputes
    · cases houtcome : expr.outcome (Chain.get? state.chain) with
      | ok value =>
          rw [houtcome] at hfits heval
          exact .inl ⟨value, Option.some.inj (hfits.symm.trans htype), heval⟩
      | error fault =>
          rw [houtcome] at hfits heval
          obtain hnone | rfl := hfits
          · cases hnone.symm.trans htype
          · exact .inr (.inl ⟨heval, rfl⟩)
    · exact .inr (.inr hdeep)
  · have hfits := hfits (.inl hstrict)
    obtain heval | hdeep := hcomputes
    · cases houtcome : expr.outcome (Chain.get? state.chain) with
      | ok value =>
          rw [houtcome] at hfits
          cases hfits.symm.trans htype
      | error fault =>
          rw [houtcome] at heval
          exact .inl ⟨fault, heval⟩
    · exact .inr hdeep

/-- A quotient of numbers has a type, whatever the divisor is; one by a sum of truth values has
none. -/
theorem eval_by_type_quotient :
    let quotient : Expr → Expr := .binary .div (.number 1)
    let byZero := quotient (.number 0)
    let bySum := quotient (.binary .add (.boolean true) (.boolean false))
    (byZero.isCallFree = true ∧ byZero.type? State.initial.typeOf = some .number ∧
      ((∃ value, value.type = .number ∧ eval 0 3 byZero .initial = (.ok value, .initial)) ∨
        (eval 0 3 byZero .initial = faulty .divisionByZero .initial ∧
          Fault.divisionByZero.message = "division by zero") ∨
        (eval 0 3 byZero .initial = (.error .tooDeep, .initial) ∧ 3 ≤ byZero.height))) ∧
    (bySum.isCallFree = true ∧ bySum.type? State.initial.typeOf = none ∧ bySum.isStrict = true ∧
      ((∃ fault, eval 0 3 bySum .initial = faulty fault .initial) ∨
        (eval 0 3 bySum .initial = (.error .tooDeep, .initial) ∧ 3 ≤ bySum.height))) :=
  ⟨⟨rfl, rfl, (eval_by_type 0 3 _ .initial rfl).1 .number rfl⟩,
    rfl, rfl, rfl, (eval_by_type 0 3 _ .initial rfl).2 rfl rfl⟩

end Run

end Bol
