/-
# What the operations of a run do to the state

One equation per operation: its result and the state it leaves, as functions of the state it
starts from. Proofs about runs cite these equations instead of unfolding the operations.
-/

import Bol.State

namespace Bol

/-- A name is looked up in the scopes of the running call first, then in the global one. -/
theorem State.get?_chain (state : State) (name : String) : Chain.get? state.chain name =
    (Chain.get? state.locals name).or (state.globals.get? name) := by
  rw [State.chain, Chain.get?, List.findSome?_append, List.findSome?_singleton]
  rfl

namespace Run

variable {α β : Type}

/-- The outcome of a fault that has no line yet. -/
def faulty (fault : Fault) (state : State) : Except Stop α × State :=
  (.error (.fault ⟨fault, none⟩), state)

/-- A sequence runs its second part from where the first one ends, if that has a value. -/
theorem bind_apply (act : Run α) (next : α → Run β) (state : State) :
    (act >>= next) state =
      match act state with
      | (.ok value, after) => next value after
      | (.error stop, after) => (.error stop, after) := by
  change ExceptT.bindCont next (act state).1 (act state).2 = _
  rcases act state with ⟨_ | _, after⟩ <;> rfl

theorem bind_apply_of_ok {act : Run α} {next : α → Run β} {state after : State} {value : α}
    (h : act state = (.ok value, after)) : (act >>= next) state = next value after := by
  rw [bind_apply, h]

theorem bind_apply_of_error {act : Run α} {next : α → Run β} {state after : State} {stop : Stop}
    (h : act state = (.error stop, after)) : (act >>= next) state = (.error stop, after) := by
  rw [bind_apply, h]

section

variable {act : Run α} {next : α → Run β} {state : State}

/-- A sequence has a value if its second part has one, run from where the first one ends. -/
theorem exists_of_bind_eq_ok {result : β} (h : ((act >>= next) state).1 = .ok result) :
    ∃ value after, act state = (.ok value, after) ∧ (next value after).1 = .ok result := by
  rcases hact : act state with ⟨stop | value, after⟩
  · rw [bind_apply_of_error hact] at h
    cases h
  · rw [bind_apply_of_ok hact] at h
    exact ⟨value, after, rfl, h⟩

/-- A sequence stops where its first part does, or where its second one does from there on. -/
theorem bind_eq_error_iff {stop : Stop} :
    ((act >>= next) state).1 = .error stop ↔
      (act state).1 = .error stop ∨
        ∃ value after, act state = (.ok value, after) ∧ (next value after).1 = .error stop := by
  constructor
  · intro h
    rcases hact : act state with ⟨first | value, after⟩
    · rw [bind_apply_of_error hact] at h
      exact .inl (congrArg Except.error (Except.error.inj h))
    · rw [bind_apply_of_ok hact] at h
      exact .inr ⟨value, after, rfl, h⟩
  · rintro (h | ⟨value, after, hact, h⟩)
    · rcases hact : act state with ⟨first | value, after⟩ <;> rw [hact] at h
      · rw [bind_apply_of_error hact]
        exact congrArg Except.error (Except.error.inj h)
      · cases h
    · rwa [bind_apply_of_ok hact]

end

theorem lookup_apply (name : String) (state : State) :
    lookup name state =
      match Chain.get? state.chain name with
      | some value => (.ok value, state)
      | none => faulty (.undeclared name) state := by
  change (match Chain.get? state.chain name with
    | some value => pure value
    | none => fail (.undeclared name) : Run Value) state = _
  cases Chain.get? state.chain name <;> rfl

theorem declare_apply (name : String) (value : Value) (state : State) :
    declare name value state =
      match state.locals with
      | [] =>
        match state.globals.declare? name value with
        | some globals => (.ok (), { state with globals })
        | none => faulty (.alreadyDeclared name) state
      | scope :: outer =>
        match scope.declare? name value with
        | some scope => (.ok (), { state with locals := scope :: outer })
        | none => faulty (.alreadyDeclared name) state := by
  obtain ⟨globals, locals, callers, output, functions⟩ := state
  cases locals with
  | nil =>
      change (match globals.declare? name value with
        | some globals => set (⟨globals, [], callers, output, functions⟩ : State)
        | none => fail (.alreadyDeclared name) : Run Unit) _ = _
      dsimp only
      cases globals.declare? name value <;> rfl
  | cons scope outer =>
      change (match scope.declare? name value with
        | some scope => set (⟨globals, scope :: outer, callers, output, functions⟩ : State)
        | none => fail (.alreadyDeclared name) : Run Unit) _ = _
      dsimp only
      cases scope.declare? name value <;> rfl

section

variable {name : String} {value : Value} {state : State} {scope : Scope} {outer : List Scope}

theorem declare_apply_of_free (hlocals : state.locals = scope :: outer)
    (hfree : scope.has name = false) :
    declare name value state =
      (.ok (), { state with locals := scope.add name value :: outer }) := by
  rw [declare_apply, hlocals]
  dsimp only [Scope.declare?]
  rw [hfree]
  rfl

theorem declare_apply_of_held (hlocals : state.locals = scope :: outer)
    (hheld : scope.has name = true) :
    declare name value state = faulty (.alreadyDeclared name) state := by
  rw [declare_apply, hlocals]
  dsimp only [Scope.declare?]
  rw [hheld]
  rfl

end

theorem assign_apply (name : String) (value : Value) (state : State) :
    assign name value state =
      match Chain.assign? name value state.locals with
      | some locals => (.ok (), { state with locals })
      | none =>
        if state.globals.has name then
          (.ok (), { state with globals := state.globals.set name value })
        else faulty (.assignUndeclared name) state := by
  change (match Chain.assign? name value state.locals with
    | some locals => set { state with locals }
    | none =>
      if state.globals.has name then
        set { state with globals := state.globals.set name value }
      else fail (.assignUndeclared name) : Run Unit) state = _
  cases Chain.assign? name value state.locals with
  | some locals => rfl
  | none =>
      dsimp only
      cases state.globals.has name <;> rfl

theorem print_apply (line : String) (state : State) :
    print line state = (.ok (), { state with output := state.output.push line }) := rfl

theorem newFunction_apply (name : String) (params : List String) (body : List Stmt)
    (state : State) :
    newFunction name params body state =
      (.ok ⟨state.functions, name, params, body⟩,
        { state with functions := state.functions + 1 }) := rfl

theorem inBlock_apply (act : Run α) (state : State) :
    inBlock act state =
      let (result, after) := act { state with locals := .empty :: state.locals }
      (result, { after with locals := after.locals.tail }) := rfl

theorem inCall_apply (act : Run α) (state : State) :
    inCall act state =
      let (result, after) :=
        act { state with locals := [.empty], callers := state.locals :: state.callers }
      (result, { after with locals := after.callers.headD [], callers := after.callers.tail }) :=
  rfl

/-- A result on behalf of a statement: a fault without a line has the statement's. -/
def tagged (line : Option Int) : Except Stop α → Except Stop α
  | .error (.fault ⟨fault, none⟩) => .error (.fault ⟨fault, line⟩)
  | result => result

theorem onLine_apply (line : Option Int) (act : Run α) (state : State) :
    onLine line act state = (tagged line (act state).1, (act state).2) := by
  unfold onLine
  rcases act state with ⟨⟨⟨fault, _ | _⟩ | _ | _⟩ | _, after⟩ <;> rfl

/-- The line of a sequence goes to the faults of its parts. -/
theorem onLine_bind (line : Option Int) (act : Run α) (next : α → Run β) :
    onLine line (act >>= next) = onLine line act >>= fun value => onLine line (next value) := by
  funext state
  rw [onLine_apply, bind_apply, bind_apply, onLine_apply]
  rcases act state with ⟨⟨⟨fault, _ | own⟩ | _ | _⟩ | value, after⟩
  · rfl
  · rfl
  · rfl
  · rfl
  · exact (onLine_apply line (next value) after).symm

theorem onLine_onLine (line : Option Int) (act : Run α) :
    onLine line (onLine line act) = onLine line act := by
  funext state
  rw [onLine_apply, onLine_apply]
  rcases act state with ⟨⟨⟨fault, _ | own⟩ | _ | _⟩ | value, after⟩ <;> cases line <;> rfl

theorem of_tagged_eq_ok {line : Option Int} {result : Except Stop α} {value : α}
    (h : tagged line result = .ok value) : result = .ok value := by
  rcases result with ⟨⟨_, _ | _⟩ | _ | _⟩ | _ <;> first | exact h | cases h

theorem exists_tagged_eq_error (line : Option Int) (stop : Stop) :
    ∃ stop', tagged line (.error stop : Except Stop α) = .error stop' := by
  rcases stop with ⟨_, _ | _⟩ | _ | _ <;> exact ⟨_, rfl⟩

/-- Only the line of a fault may come from the statement. -/
theorem exists_of_tagged_eq_fault {line line' : Option Int} {result : Except Stop α}
    {fault : Fault} (h : tagged line result = .error (.fault ⟨fault, line'⟩)) :
    ∃ own, result = .error (.fault ⟨fault, own⟩) ∧ line' = own.or line := by
  rcases result with ⟨⟨_, _ | _⟩ | _ | _⟩ | _ <;> cases h <;> exact ⟨_, rfl, rfl⟩

/-! ## Expressions that are evaluated in order -/

/-- Evaluated in order from the state `before`, each in the state that the one before it leaves,
the expressions have the values, and `after` is the state that they leave. -/
inductive EvaluateTo (eval : Expr → Run Value) :
    List Expr → List Value → (before after : State) → Prop
  | nil (state : State) : EvaluateTo eval [] [] state state
  | cons {expr : Expr} {rest : List Expr} {value : Value} {values : List Value}
      {before middle after : State} (hexpr : eval expr before = (.ok value, middle))
      (hrest : EvaluateTo eval rest values middle after) :
      EvaluateTo eval (expr :: rest) (value :: values) before after

end Run

end Bol
