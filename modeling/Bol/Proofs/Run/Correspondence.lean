/-
# Corresponding runs

Two runs correspond if they do the same but for a difference that the language cannot tell: the
lines of statements, say, or the numbers of functions. A `Correspondence` says what may differ, by a
relation for each of the things that a run deals with, and what the operations of a run need to know
of these relations. From corresponding states, corresponding programs print the same lines, end
alike, and leave corresponding states. They go through the same operations, but for expressions that
come to the same value: a correspondence may allow the second run more depth for these, and then it
says nothing of first runs that are nested too deeply.
-/

import Bol.Proofs.Run.Simulation
import Bol.Proofs.Scope.Related

namespace Bol

/-- Expressions that come to the same value in any state, wherever the depth suffices for the first
one and the second one has `lag` more. -/
def Expr.Coincides (lag : Nat) (expr expr' : Expr) : Prop :=
  ∃ value : Value, value.type ≠ .function ∧ ∀ patience depth,
    Run.eval patience depth expr = throw .tooDeep ∨
      Run.eval patience depth expr = pure value ∧
        Run.eval patience (lag + depth) expr' = pure value

/-- Related expressions match, or where `lax` they may come to the same value instead. -/
structure Expr.RunAlike (E : Expr → Expr → Prop) (lax : Prop) (lag : Nat) : Prop where
  lag_eq_zero : ¬ lax → lag = 0
  matches_or_coincides : ∀ {expr expr' : Expr}, E expr expr' →
    expr.Matches E expr' ∨ lax ∧ expr.Coincides lag expr'

theorem Expr.RunAlike.eq : RunAlike Eq False 0 where
  lag_eq_zero _ := rfl
  matches_or_coincides h := .inl (h ▸ .refl (fun _ => rfl) _)

/-- How two runs may differ: which expressions, statements, values and scopes correspond, and which
lines of faults. Corresponding values are equal, or they are functions that match and that are told
apart in one run where they are in the other. Which values correspond may depend on how many
functions have been made; values that correspond go on to do so when more are made. From some number
on, functions that are made get the same number in both runs. -/
structure Correspondence where
  expr : Expr → Expr → Prop
  stmt : Stmt → Stmt → Prop
  line : Option Int → Option Int → Prop
  value : (made : Nat) → Value → Value → Prop
  scope : (made : Nat) → Scope → Scope → Prop
  /-- How many functions have been made at least. -/
  start : Nat
  /-- Whether nothing is said of first runs that are nested too deeply. -/
  lax : Prop
  /-- How much more depth the second run has. -/
  lag : Nat
  runAlike : Expr.RunAlike expr lax lag
  matches_of_stmt : ∀ {s s' : Stmt}, stmt s s' → s.Matches expr stmt s'
  line_of_stmt : ∀ {s s' : Stmt}, stmt s s' → line s.line s'.line
  line_none : line none none
  line_or : ∀ {own own' given given' : Option Int}, line own own' → line given given' →
    line (own.or given) (own'.or given')
  value_mono : ∀ {made made' : Nat} {v v' : Value}, made ≤ made' → value made v v' →
    value made' v v'
  value_of_type_ne : ∀ {made : Nat} {v : Value}, v.type ≠ .function → value made v v
  value_of_made : ∀ {made : Nat} {name : String} {params : List String} {body body' : List Stmt},
    start ≤ made → List.Forall₂ stmt body body' →
      value (made + 1) (.function ⟨made, name, params, body⟩)
        (.function ⟨made, name, params, body'⟩)
  eq_of_type_ne : ∀ {made : Nat} {v v' : Value}, value made v v' → v.type ≠ .function → v' = v
  function_of_value : ∀ {made : Nat} {function : Function} {v' : Value},
    value made (.function function) v' →
      ∃ function', v' = .function function' ∧ function.Matches stmt function'
  equal_eq : ∀ {made : Nat} {v v' w w' : Value}, value made v v' → value made w w' →
    v.equal w = v'.equal w'
  scope_mono : ∀ {made made' : Nat} {s s' : Scope}, made ≤ made' → scope made s s' →
    scope made' s s'
  scope_empty : ∀ {made : Nat}, scope made .empty .empty
  get? : ∀ {made : Nat} {s s' : Scope}, scope made s s' → ∀ name,
    Option.Rel (value made) (s.get? name) (s'.get? name)
  add : ∀ {made : Nat} {s s' : Scope} {v v' : Value}, scope made s s' → ∀ name,
    value made v v' → scope made (s.add name v) (s'.add name v')
  set : ∀ {made : Nat} {s s' : Scope} {v v' : Value}, scope made s s' → ∀ name,
    value made v v' → scope made (s.set name v) (s'.set name v')

namespace Correspondence

variable (C : Correspondence)

/-- Corresponding scopes, the same lines printed and as many functions made. -/
structure States (state state' : State) : Prop where
  start : C.start ≤ state.functions
  globals : C.scope state.functions state.globals state'.globals
  locals : List.Forall₂ (C.scope state.functions) state.locals state'.locals
  callers : List.Forall₂ (List.Forall₂ (C.scope state.functions)) state.callers state'.callers
  output : state.output = state'.output
  functions : state.functions = state'.functions

/-- The same reason to end early. -/
inductive Stops : Stop → Stop → Prop
  | fault {fault fault' : Fault} {line line' : Option Int} (h : fault.Alike fault')
      (hline : C.line line line') : Stops (.fault ⟨fault, line⟩) (.fault ⟨fault', line'⟩)
  | tooDeep : Stops .tooDeep .tooDeep
  | unfinished : Stops .unfinished .unfinished

/-- Results that are related, or the same reason to have none. -/
inductive Results {α β : Type} (rel : α → β → Prop) : Except Stop α → Except Stop β → Prop
  | ok {value : α} {value' : β} (h : rel value value') : Results rel (.ok value) (.ok value')
  | error {stop stop' : Stop} (h : C.Stops stop stop') : Results rel (.error stop) (.error stop')

/-- From corresponding states in which `made` functions have been made, two computations come to
related results and to corresponding states, in which no fewer have. -/
def Runs {α β : Type} (made : Nat) (rel : (made : Nat) → α → β → Prop) (act : Run α)
    (act' : Run β) : Prop :=
  ∀ state state', made ≤ state.functions → C.States state state' →
    (C.lax → (act state).1 ≠ .error .tooDeep) →
    state.functions ≤ (act state).2.functions ∧
      C.Results (rel (act state).2.functions) (act state).1 (act' state').1 ∧
      C.States (act state).2 (act' state').2

variable {C} {made : Nat}

/-! ## Scopes and states -/

namespace States

variable {state state' : State}

theorem chain (h : C.States state state') :
    List.Forall₂ (C.scope state.functions) state.chain state'.chain :=
  List.rel_append h.locals (.cons h.globals .nil)

theorem openBlock (h : C.States state state') : C.States state.openBlock state'.openBlock :=
  { h with locals := .cons C.scope_empty h.locals }

theorem closeBlock (h : C.States state state') : C.States state.closeBlock state'.closeBlock :=
  { h with locals := forall₂_tail h.locals }

theorem openCall (h : C.States state state') : C.States state.openCall state'.openCall :=
  { h with
    locals := .cons C.scope_empty .nil
    callers := .cons h.locals h.callers }

theorem closeCall (h : C.States state state') : C.States state.closeCall state'.closeCall := by
  have hcallers := h.callers
  refine { h with locals := ?_, callers := forall₂_tail hcallers }
  unfold State.closeCall
  generalize state.callers = waiting at hcallers ⊢
  generalize state'.callers = waiting' at hcallers ⊢
  cases hcallers with
  | nil => exact .nil
  | cons hlocals _ => exact hlocals

/-- One more function has been made. -/
theorem grow (h : C.States state state') :
    C.States { state with functions := state.functions + 1 }
      { state' with functions := state'.functions + 1 } where
  start := Nat.le_succ_of_le h.start
  globals := C.scope_mono (Nat.le_succ _) h.globals
  locals := h.locals.imp fun _ _ => C.scope_mono (Nat.le_succ _)
  callers := h.callers.imp fun _ _ hlocals => hlocals.imp fun _ _ => C.scope_mono (Nat.le_succ _)
  output := h.output
  functions := congrArg (· + 1) h.functions

end States

/-! ## Operations -/

namespace Runs

open Run

variable {α β γ δ : Type} {rel : Nat → α → β → Prop} {rel' : Nat → γ → δ → Prop}

theorem pure {value : α} {value' : β} (h : ∀ made' ≥ made, rel made' value value') :
    C.Runs made rel (Pure.pure value) (Pure.pure value') :=
  fun _ _ hmade hstates _ => ⟨Nat.le_refl _, .ok (h _ hmade), hstates⟩

theorem throw {stop stop' : Stop} (h : C.Stops stop stop') :
    C.Runs made rel (throw stop) (throw stop') :=
  fun _ _ _ hstates _ => ⟨Nat.le_refl _, .error h, hstates⟩

theorem fail {fault fault' : Fault} (h : fault.Alike fault') :
    C.Runs made rel (Run.fail fault) (Run.fail fault') :=
  throw (.fault h C.line_none)

theorem bind {act : Run α} {act' : Run β} {next : α → Run γ} {next' : β → Run δ}
    (h : C.Runs made rel act act')
    (hnext : ∀ made' value value', made ≤ made' → rel made' value value' →
      C.Runs made' rel' (next value) (next' value')) :
    C.Runs made rel' (act >>= next) (act' >>= next') := by
  intro state state' hmade hstates hdeep
  have hfirst : C.lax → (act state).1 ≠ .error .tooDeep := fun hlax hstop =>
    hdeep hlax (bind_eq_error_iff.mpr (.inl hstop))
  obtain ⟨hgrows, hresult, hafter⟩ := h state state' hmade hstates hfirst
  rcases hact : act state with ⟨result, after⟩
  rcases hact' : act' state' with ⟨result', after'⟩
  rw [hact, hact'] at hresult hafter
  rw [hact] at hgrows
  cases hresult with
  | ok hvalue =>
      rw [bind_apply_of_ok hact] at hdeep ⊢
      rw [bind_apply_of_ok hact']
      obtain ⟨hgrows', hresult', hafter'⟩ :=
        hnext _ _ _ (Nat.le_trans hmade hgrows) hvalue _ _ (Nat.le_refl _) hafter hdeep
      exact ⟨Nat.le_trans hgrows hgrows', hresult', hafter'⟩
  | error hstop =>
      rw [bind_apply_of_error hact, bind_apply_of_error hact']
      exact ⟨hgrows, .error hstop, hafter⟩

theorem inBlock {act : Run α} {act' : Run β} (h : C.Runs made rel act act') :
    C.Runs made rel (Run.inBlock act) (Run.inBlock act') := by
  intro state state' hmade hstates hdeep
  obtain ⟨hgrows, hresult, hafter⟩ :=
    h state.openBlock state'.openBlock hmade hstates.openBlock hdeep
  exact ⟨hgrows, hresult, hafter.closeBlock⟩

theorem inCall {act : Run α} {act' : Run β} (h : C.Runs made rel act act') :
    C.Runs made rel (Run.inCall act) (Run.inCall act') := by
  intro state state' hmade hstates hdeep
  obtain ⟨hgrows, hresult, hafter⟩ :=
    h state.openCall state'.openCall hmade hstates.openCall hdeep
  exact ⟨hgrows, hresult, hafter.closeCall⟩

theorem results_tagged {rel : α → β → Prop} {result : Except Stop α} {result' : Except Stop β}
    {line line' : Option Int} (hline : C.line line line') (h : C.Results rel result result') :
    C.Results rel (tagged line result) (tagged line' result') := by
  cases h with
  | ok h => exact .ok h
  | error h =>
      cases h with
      | tooDeep => exact .error .tooDeep
      | unfinished => exact .error .unfinished
      | @fault _ _ own own' h hown =>
          have hor := C.line_or hown hline
          cases own <;> cases own' <;> exact .error (.fault h hor)

theorem onLine {act : Run α} {act' : Run β} {line line' : Option Int} (hline : C.line line line')
    (h : C.Runs made rel act act') :
    C.Runs made rel (Run.onLine line act) (Run.onLine line' act') := by
  intro state state' hmade hstates hdeep
  rw [onLine_apply] at hdeep ⊢
  rw [onLine_apply]
  obtain ⟨hgrows, hresult, hafter⟩ := h state state' hmade hstates fun hlax hstop =>
    hdeep hlax (congrArg (tagged line) hstop)
  exact ⟨hgrows, results_tagged hline hresult, hafter⟩

theorem lookup (name : String) : C.Runs made C.value (Run.lookup name) (Run.lookup name) := by
  intro state state' _ hstates _
  have hget := Chain.get?_rel (C.get? · name) hstates.chain
  rw [lookup_apply, lookup_apply]
  generalize Chain.get? state.chain name = found at hget ⊢
  generalize Chain.get? state'.chain name = found' at hget ⊢
  cases hget with
  | none => exact ⟨Nat.le_refl _, .error (.fault (.refl _) C.line_none), hstates⟩
  | some hvalue => exact ⟨Nat.le_refl _, .ok hvalue, hstates⟩

theorem declare (name : String) {value value' : Value} (hvalue : C.value made value value') :
    C.Runs made (fun _ _ _ => True) (Run.declare name value) (Run.declare name value') := by
  rintro ⟨globals, locals, callers, output, functions⟩
    ⟨globals', locals', callers', output', functions'⟩ hmade ⟨hstart, hglobals, hlocals, hcallers,
      rfl, rfl⟩ _
  rw [declare_apply, declare_apply]
  have hvalue := C.value_mono hmade hvalue
  have hfails : C.Stops (.fault ⟨.alreadyDeclared name, none⟩)
    (.fault ⟨.alreadyDeclared name, none⟩) := .fault (.refl _) C.line_none
  cases hlocals with
  | nil =>
      have hdeclare := Scope.declare?_rel (C.get? · name) hglobals (C.add · name hvalue)
      dsimp only at hdeclare ⊢
      generalize Scope.declare? globals name value = found at hdeclare ⊢
      generalize Scope.declare? globals' name value' = found' at hdeclare ⊢
      cases hdeclare with
      | none => exact ⟨Nat.le_refl _, .error hfails, hstart, hglobals, .nil, hcallers, rfl, rfl⟩
      | some hscope => exact ⟨Nat.le_refl _, .ok trivial, hstart, hscope, .nil, hcallers, rfl, rfl⟩
  | @cons scope scope' _ _ hinner houter =>
      have hdeclare := Scope.declare?_rel (C.get? · name) hinner (C.add · name hvalue)
      dsimp only at hdeclare ⊢
      generalize Scope.declare? scope name value = found at hdeclare ⊢
      generalize Scope.declare? scope' name value' = found' at hdeclare ⊢
      cases hdeclare with
      | none =>
          exact ⟨Nat.le_refl _, .error hfails, hstart, hglobals, .cons hinner houter, hcallers, rfl,
            rfl⟩
      | some hscope =>
          exact ⟨Nat.le_refl _, .ok trivial, hstart, hglobals, .cons hscope houter, hcallers, rfl,
            rfl⟩

theorem assign (name : String) {value value' : Value} (hvalue : C.value made value value') :
    C.Runs made (fun _ _ _ => True) (Run.assign name value) (Run.assign name value') := by
  intro state state' hmade hstates _
  have hvalue := C.value_mono hmade hvalue
  have hassign := Chain.assign?_rel (C.get? · name) hstates.locals (C.set · name hvalue)
  rw [assign_apply, assign_apply, ← Scope.has_eq_of_rel (C.get? · name) hstates.globals]
  generalize Chain.assign? name value state.locals = found at hassign ⊢
  generalize Chain.assign? name value' state'.locals = found' at hassign ⊢
  cases hassign with
  | some hlocals => exact ⟨Nat.le_refl _, .ok trivial, { hstates with locals := hlocals }⟩
  | none =>
      dsimp only
      split
      · exact ⟨Nat.le_refl _, .ok trivial,
          { hstates with globals := C.set hstates.globals name hvalue }⟩
      · exact ⟨Nat.le_refl _, .error (.fault (.refl _) C.line_none), hstates⟩

theorem print (line : String) :
    C.Runs made (fun _ _ _ => True) (Run.print line) (Run.print line) := by
  intro state state' _ hstates _
  exact ⟨Nat.le_refl _, .ok trivial,
    { hstates with output := by simp [print_apply, hstates.output] }⟩

theorem newFunction (name : String) (params : List String) {body body' : List Stmt}
    (hbody : List.Forall₂ C.stmt body body') :
    C.Runs made (fun made function function' => C.value made (.function function)
        (.function function'))
      (Run.newFunction name params body) (Run.newFunction name params body') := by
  intro state state' _ hstates _
  rw [newFunction_apply, newFunction_apply, ← hstates.functions]
  have hgrown := hstates.grow
  rw [← hstates.functions] at hgrown
  exact ⟨Nat.le_succ _, .ok (C.value_of_made hstates.start hbody), hgrown⟩

theorem bindParams (params : List String) {args args' : List Value}
    (hargs : List.Forall₂ (C.value made) args args') :
    C.Runs made (fun _ _ _ => True) (Run.bindParams (params.zip args))
      (Run.bindParams (params.zip args')) := by
  induction params generalizing args args' made with
  | nil => exact pure fun _ _ => trivial
  | cons param params ih =>
      cases hargs with
      | nil => exact pure fun _ _ => trivial
      | cons hvalue hrest =>
          exact (declare param hvalue).bind fun _ _ _ hmade _ =>
            ih (hrest.imp fun _ _ => C.value_mono hmade)

/-- Expressions that come to the same value correspond where depth does not count. -/
theorem coincides (hlax : C.lax) {expr expr' : Expr} (h : expr.Coincides C.lag expr') :
    C.Runs made C.value (eval patience depth expr) (eval patience (C.lag + depth) expr') := by
  obtain ⟨value, htype, heval⟩ := h
  obtain hstop | ⟨hfirst, hsecond⟩ := heval patience depth
  · rw [hstop]
    exact fun _ _ _ _ hdeep => absurd rfl (hdeep hlax)
  · rw [hfirst, hsecond]
    exact pure fun _ _ => C.value_of_type_ne htype

/-- Without any depth, the second run has none either, or nothing is said of the first one. -/
theorem zero (act : Nat → Run α) (act' : Nat → Run β) (hact : act 0 = MonadExcept.throw .tooDeep)
    (hact' : act' 0 = MonadExcept.throw .tooDeep) : C.Runs made rel (act 0) (act' (C.lag + 0)) := by
  by_cases hlax : C.lax
  · rw [hact]
    exact fun _ _ _ _ hdeep => absurd rfl (hdeep hlax)
  · rw [C.runAlike.lag_eq_zero hlax, hact, hact']
    exact throw .tooDeep

end Runs

/-! ## Programs -/

/-- Corresponding computations are those of a simulation in which all names stay the same. -/
def simulation (C : Correspondence) : Simulation where
  value := C.value
  value_mono := C.value_mono
  value_of_type_ne := C.value_of_type_ne
  eq_of_type_ne := C.eq_of_type_ne
  function_of_value h :=
    have ⟨function', hvalue, hmatches⟩ := C.function_of_value h
    ⟨function', hvalue, hmatches.name, congrArg List.length hmatches.params⟩
  equal_eq := C.equal_eq
  Frame := Unit
  name _ := Eq
  expr _ := C.expr
  stmt _ := C.stmt
  function params body params' body' := params = params' ∧ List.Forall₂ C.stmt body body'
  fault := Fault.Alike
  line := C.line
  lag := C.lag
  Runs _ := C.Runs
  similar_or_runs h := (C.runAlike.matches_or_coincides h).imp (·.similar)
    fun ⟨hlax, hsame⟩ _ _ _ => .coincides hlax hsame
  similar_of_stmt h := (C.matches_of_stmt h).similar fun _ _ _ hbody => ⟨rfl, hbody⟩
  line_of_stmt := C.line_of_stmt
  fault_of_alike h := h
  fault_notFunction h := h ▸ .refl _
  fault_argumentCount _ _ h := h ▸ .refl _
  pure := .pure
  fail := .fail
  throw h hline := .throw (.fault h hline)
  unfinished := .throw .unfinished
  tooDeep := .zero
  bind := .bind
  inBlock := .inBlock
  onLine := .onLine
  lookup h := h ▸ .lookup _
  declare h hvalue := h ▸ .declare _ hvalue
  assign h hvalue := h ▸ .assign _ hvalue
  print text := .print text
  newFunction name _ _ _ _ h := h.1 ▸ .newFunction name _ h.2
  call _ _ function function' _ _ hfunction hargs _ := by
    obtain ⟨_, hsame, hmatches⟩ := C.function_of_value hfunction
    cases hsame
    refine ⟨(), hmatches.body, fun hrest => ?_⟩
    rw [← hmatches.params]
    exact .inCall ((Runs.bindParams function.params hargs).bind fun _ _ _ _ _ => hrest _)

theorem Runs.topLevel (patience depth : Nat) {stmts stmts' : List Stmt}
    (h : List.Forall₂ C.stmt stmts stmts') :
    C.Runs made (fun _ _ _ => True) (Run.topLevel (Run.exec patience depth) stmts)
      (Run.topLevel (Run.exec patience (C.lag + depth)) stmts') :=
  C.simulation.topLevel () patience depth h

/-- Programs of corresponding statements run alike. -/
theorem Runs.program (patience depth : Nat) {program program' : Program}
    (h : List.Forall₂ C.stmt program.statements program'.statements) :
    C.Runs made (fun _ _ _ => True) (program.run patience depth)
      (program'.run patience (C.lag + depth)) :=
  C.simulation.program () patience depth h

end Correspondence

end Bol
