/-
# Runs with a renamed parameter

Two runs are compared, of which the second one calls a function with one of its parameters renamed.
In the frame of such a call the name of the parameter is bound in one run where the other name is
bound in the other; in all other frames, and among the globals, the same names are bound. The
parameter is held by a scope of the call as long as the call runs, so neither of the two names is
ever looked up outside of it.
-/

import Bol.Proofs.Program.Renaming
import Bol.Proofs.Run.Scopes
import Bol.Proofs.Run.Simulation
import Bol.Proofs.Scope.Related

namespace Bol

/-! ## Names that stay -/

namespace State

/-- The names of all scopes stay, but for names that come to the scope that is innermost in sight.
-/
def KeepsNames (before after : State) : Prop := ∃ allowed, AddsNames allowed before after

variable {allowed : List String} {before after later : State}

/-- No scope of the running call loses a name. -/
theorem AddsNames.locals_subset (h : AddsNames allowed before after) :
    before.locals.flatMap Scope.names ⊆ after.locals.flatMap Scope.names := by
  obtain ⟨-, added, -, hchain⟩ := h
  unfold State.chain at hchain
  cases hlocals : before.locals with
  | nil => exact List.nil_subset _
  | cons scope outer =>
      rw [hlocals] at hchain
      cases hlocals' : after.locals with
      | nil => simp [hlocals'] at hchain
      | cons scope' outer' =>
          rw [hlocals', List.cons_append, List.cons_append, List.map_cons, List.map_cons,
            List.modifyHead_cons, List.cons.injEq, List.map_append, List.map_append] at hchain
          have houter := (List.append_inj' hchain.2 rfl).1
          rw [List.flatMap_cons, List.flatMap_cons, List.flatMap_def, List.flatMap_def, houter,
            hchain.1, List.append_assoc]
          exact List.subset_append_right _ _

theorem AddsNames.length_locals (h : AddsNames allowed before after) :
    after.locals.length = before.locals.length := by
  obtain ⟨-, added, -, hchain⟩ := h
  simpa [State.chain] using congrArg List.length hchain

namespace KeepsNames

theorem refl (state : State) : KeepsNames state state := ⟨[], .refl state⟩

theorem trans (h : KeepsNames before after) (h' : KeepsNames after later) :
    KeepsNames before later := by
  obtain ⟨allowed, h⟩ := h
  obtain ⟨allowed', h'⟩ := h'
  exact ⟨allowed ++ allowed', (h.mono (List.subset_append_left _ _)).trans
    (h'.mono (List.subset_append_right _ _))⟩

theorem closeBlock (h : KeepsNames before.openBlock after) : KeepsNames before after.closeBlock :=
  have ⟨_, h⟩ := h
  ⟨[], h.closeBlock⟩

theorem closeCall (h : KeepsNames before.openCall after) : KeepsNames before after.closeCall :=
  have ⟨_, h⟩ := h
  ⟨[], h.closeCall⟩

theorem callers_eq (h : KeepsNames before after) : after.callers = before.callers :=
  have ⟨_, h⟩ := h
  h.callers

theorem locals_subset (h : KeepsNames before after) :
    before.locals.flatMap Scope.names ⊆ after.locals.flatMap Scope.names :=
  have ⟨_, h⟩ := h
  h.locals_subset

theorem locals_ne_nil (h : KeepsNames before after) (hlocals : before.locals ≠ []) :
    after.locals ≠ [] := by
  obtain ⟨_, h⟩ := h
  rwa [← List.length_pos_iff, h.length_locals, List.length_pos_iff]

end KeepsNames

end State

namespace Run

/-- A declaration that succeeds within a call binds its name there. -/
theorem mem_of_declare_eq_ok {name : String} {value : Value} {state after : State}
    (h : declare name value state = (.ok (), after)) (hlocals : state.locals ≠ []) :
    name ∈ after.locals.flatMap Scope.names := by
  obtain ⟨globals, locals, callers, output, functions⟩ := state
  cases locals with
  | nil => exact absurd rfl hlocals
  | cons scope outer =>
      rw [declare_apply] at h
      dsimp only at h
      cases hdeclare : scope.declare? name value with
      | none => rw [hdeclare] at h; cases h
      | some scope' =>
          rw [hdeclare] at h
          cases h
          simp [(declare?_eq_some hdeclare).2]

/-- Parameters that are all declared are all bound. -/
theorem subset_of_bindParams_eq_ok {pairs : List (String × Value)} {state after : State}
    (h : bindParams pairs state = (.ok (), after)) (hlocals : state.locals ≠ []) :
    pairs.map Prod.fst ⊆ after.locals.flatMap Scope.names := by
  induction pairs generalizing state with
  | nil => exact List.nil_subset _
  | cons pair rest ih =>
      rw [bindParams] at h
      obtain ⟨_, middle, hdeclare, -⟩ := exists_of_bind_eq_ok (congrArg Prod.fst h)
      rw [bind_apply_of_ok hdeclare] at h
      have hkeeps : state.KeepsNames (declare pair.1 pair.2 state).2 :=
        ⟨_, Declares.declare pair.1 pair.2 state⟩
      have hrest := Declares.bindParams rest middle
      rw [hdeclare] at hkeeps
      rw [h] at hrest
      exact List.cons_subset.mpr
        ⟨hrest.locals_subset (mem_of_declare_eq_ok hdeclare hlocals),
          ih h (hkeeps.locals_ne_nil hlocals)⟩

end Run

theorem Chain.get?_ne_none {chain : List Scope} {name : String}
    (h : name ∈ chain.flatMap Scope.names) : Chain.get? chain name ≠ none := by
  obtain ⟨scope, hscope, hname⟩ := List.mem_flatMap.mp h
  rw [← Scope.has_eq_true_iff, Scope.has] at hname
  intro hnone
  rw [List.findSome?_eq_none_iff.mp hnone scope hscope] at hname
  cases hname

/-! ## What may differ -/

/-- Faults that are reported alike, or that name `new` where the other one names `old`. -/
inductive Fault.Renamed (old new : String) : Fault → Fault → Prop
  | alike {cause cause' : Fault} (h : cause.Alike cause') : Renamed old new cause cause'
  | alreadyDeclared : Renamed old new (.alreadyDeclared old) (.alreadyDeclared new)
  | notFunction : Renamed old new (.notFunction old) (.notFunction new)
  | argumentCount (expected got : Nat) :
      Renamed old new (.argumentCount old expected got) (.argumentCount new expected got)

namespace ParameterRenaming

variable (r : ParameterRenaming)

/-- Equal values, or functions of one number and name that are declared alike but for the renaming.
-/
inductive Values : Value → Value → Prop
  | plain {value : Value} (h : value.type ≠ .function) : Values value value
  | function {id : Nat} {name : String} {params params' : List String} {body body' : List Stmt}
      (h : r.Functions params body params' body') :
      Values (.function ⟨id, name, params, body⟩) (.function ⟨id, name, params', body'⟩)

/-- The running call of both runs: not of the renamed function, or of the renamed function. -/
inductive Frame
  | plain | renamed

/-- Which names stand for each other in a frame. -/
def FrameNames : Frame → String → String → Prop
  | .plain => Eq
  | .renamed => r.Names

/-- States that bind the same names, but that the running call may have the parameter renamed. -/
structure States (frame : Frame) (state state' : State) : Prop where
  globals : state.globals.Related Eq r.Values state'.globals
  locals : List.Forall₂ (Scope.Related (r.FrameNames frame) r.Values) state.locals state'.locals
  output : state.output = state'.output
  functions : state.functions = state'.functions

/-- In a call of the renamed function, the parameter is bound. -/
def Holds (frame : Frame) (state : State) : Prop :=
  frame = .renamed → r.old ∈ state.locals.flatMap Scope.names

/-- The same reason to end early, at the same line. -/
inductive Stops : Stop → Stop → Prop
  | fault {cause cause' : Fault} {line : Option Int} (h : cause.Renamed r.old r.new cause') :
      Stops (.fault ⟨cause, line⟩) (.fault ⟨cause', line⟩)
  | tooDeep : Stops .tooDeep .tooDeep
  | unfinished : Stops .unfinished .unfinished

/-- Results that are related, or the same reason to have none. -/
inductive Results {α β : Type} (rel : α → β → Prop) : Except Stop α → Except Stop β → Prop
  | ok {value : α} {value' : β} (h : rel value value') : Results rel (.ok value) (.ok value')
  | error {stop stop' : Stop} (h : r.Stops stop stop') : Results rel (.error stop) (.error stop')

/-- What two computations come to that start in `state` and `state'`. -/
structure Agrees {α β : Type} (frame : Frame) (rel : α → β → Prop) (state state' : State)
    (outcome : Except Stop α × State) (outcome' : Except Stop β × State) : Prop where
  results : r.Results rel outcome.1 outcome'.1
  states : r.States frame outcome.2 outcome'.2
  keeps : state.KeepsNames outcome.2
  keeps' : state'.KeepsNames outcome'.2

/-- Two computations agree wherever they start in states that differ by the renaming. -/
def Runs {α β : Type} (frame : Frame) (rel : α → β → Prop) (act : Run α) (act' : Run β) : Prop :=
  ∀ state state', r.States frame state state' → r.Holds frame state →
    r.Agrees frame rel state state' (act state) (act' state')

variable {r}

/-! ## Values, names and states -/

namespace Values

variable {value value' other other' : Value}

theorem refl (value : Value) : r.Values value value := by
  cases value with
  | function function =>
      exact .function (.inside (List.forall₂_same.mpr fun stmt _ => .same stmt))
  | null | boolean _ | number _ | string _ => exact .plain (by simp [Value.type])

theorem eq_of_type_ne (h : r.Values value value') (htype : value.type ≠ .function) :
    value' = value := by
  cases h with
  | plain => rfl
  | function => exact absurd rfl htype

theorem function_of {function : Function} (h : r.Values (.function function) value') :
    ∃ function', value' = .function function' ∧ function.name = function'.name ∧
      function.params.length = function'.params.length := by
  cases h with
  | plain htype => exact absurd rfl htype
  | function h =>
      refine ⟨_, rfl, rfl, ?_⟩
      cases h with
      | inside => rfl
      | here => exact (List.length_map _).symm

theorem equal_eq (h : r.Values value value') (hother : r.Values other other') :
    value.equal other = value'.equal other' := by
  cases h <;> cases hother <;> first | rfl | (cases value <;> rfl) | (cases other <;> rfl)

end Values

section

variable {frame : Frame} {name name' : String}

theorem FrameNames.eq_iff (h : r.FrameNames frame name name') (bound bound' : String)
    (hbound : r.FrameNames frame bound bound') : name = bound ↔ name' = bound' := by
  cases frame with
  | plain =>
      cases h
      cases hbound
      rfl
  | renamed => exact Names.eq_iff h hbound

theorem FrameNames.cases (h : r.FrameNames frame name name') :
    name = name' ∨ frame = .renamed ∧ name = r.old ∧ name' = r.new := by
  cases frame with
  | plain => exact .inl h
  | renamed => exact (Names.cases h).imp_right fun hnames => ⟨rfl, hnames⟩

theorem FrameNames.get?_rel (h : r.FrameNames frame name name') {scope scope' : Scope}
    (hscope : scope.Related (r.FrameNames frame) r.Values scope') :
    Option.Rel r.Values (scope.get? name) (scope'.get? name') :=
  hscope.get? h.eq_iff

/-- Where a name differs, a scope of the running call holds it. -/
theorem FrameNames.eq_or_get?_ne_none (h : r.FrameNames frame name name') {state : State}
    (hholds : r.Holds frame state) : name = name' ∨ Chain.get? state.locals name ≠ none := by
  obtain heq | ⟨hframe, rfl, -⟩ := h.cases
  · exact .inl heq
  · exact .inr (Chain.get?_ne_none (hholds hframe))

theorem FrameNames.renamed_alreadyDeclared (h : r.FrameNames frame name name') :
    Fault.Renamed r.old r.new (.alreadyDeclared name) (.alreadyDeclared name') := by
  obtain rfl | ⟨-, rfl, rfl⟩ := h.cases
  · exact .alike (.refl _)
  · exact .alreadyDeclared

theorem FrameNames.renamed_notFunction (h : r.FrameNames frame name name') :
    Fault.Renamed r.old r.new (.notFunction name) (.notFunction name') := by
  obtain rfl | ⟨-, rfl, rfl⟩ := h.cases
  · exact .alike (.refl _)
  · exact .notFunction

theorem FrameNames.renamed_argumentCount (h : r.FrameNames frame name name') (expected got : Nat) :
    Fault.Renamed r.old r.new (.argumentCount name expected got)
      (.argumentCount name' expected got) := by
  obtain rfl | ⟨-, rfl, rfl⟩ := h.cases
  · exact .alike (.refl _)
  · exact .argumentCount expected got

end

theorem Holds.of_keepsNames {frame : Frame} {before after : State} (h : r.Holds frame before)
    (hkeeps : before.KeepsNames after) : r.Holds frame after :=
  fun hframe => hkeeps.locals_subset (h hframe)

namespace States

variable {frame inner : Frame} {state state' : State}

theorem openBlock (h : r.States frame state state') :
    r.States frame state.openBlock state'.openBlock :=
  { h with locals := .cons .nil h.locals }

theorem closeBlock (h : r.States frame state state') :
    r.States frame state.closeBlock state'.closeBlock :=
  { h with locals := forall₂_tail h.locals }

theorem openCall (h : r.States frame state state') :
    r.States inner state.openCall state'.openCall :=
  { h with locals := .cons .nil .nil }

end States

/-! ## Operations -/

section

variable {α β γ δ : Type} {frame inner : Frame} {rel : α → β → Prop} {rel' : γ → δ → Prop}
  {state state' : State}

/-- Computations that leave the states as they are. -/
theorem Agrees.of_results {result : Except Stop α} {result' : Except Stop β}
    (hstates : r.States frame state state') (h : r.Results rel result result') :
    r.Agrees frame rel state state' (result, state) (result', state') :=
  ⟨h, hstates, .refl _, .refl _⟩

theorem Agrees.bind {act : Run α} {act' : Run β} {next : α → Run γ} {next' : β → Run δ}
    (h : r.Agrees frame rel state state' (act state) (act' state'))
    (hnext : ∀ value value' after after', act state = (.ok value, after) → rel value value' →
      r.States frame after after' → state.KeepsNames after →
        r.Agrees frame rel' after after' (next value after) (next' value' after')) :
    r.Agrees frame rel' state state' ((act >>= next) state) ((act' >>= next') state') := by
  rw [Run.bind_apply, Run.bind_apply]
  rcases hact : act state with ⟨result, after⟩
  rcases hact' : act' state' with ⟨result', after'⟩
  rw [hact, hact'] at h
  obtain ⟨hresults, hstates, hkeeps, hkeeps'⟩ := h
  cases hresults with
  | ok hvalue =>
      have hrest := hnext _ _ _ _ hact hvalue hstates hkeeps
      exact ⟨hrest.results, hrest.states, hkeeps.trans hrest.keeps, hkeeps'.trans hrest.keeps'⟩
  | error hstop => exact ⟨.error hstop, hstates, hkeeps, hkeeps'⟩

theorem Agrees.closeBlock {outcome : Except Stop α × State} {outcome' : Except Stop β × State}
    (h : r.Agrees frame rel state.openBlock state'.openBlock outcome outcome') :
    r.Agrees frame rel state state' (outcome.1, outcome.2.closeBlock)
      (outcome'.1, outcome'.2.closeBlock) :=
  ⟨h.results, h.states.closeBlock, h.keeps.closeBlock, h.keeps'.closeBlock⟩

/-- After a call, whatever its frame was, the caller's scopes are back. -/
theorem Agrees.closeCall {outcome : Except Stop α × State} {outcome' : Except Stop β × State}
    (h : r.Agrees inner rel state.openCall state'.openCall outcome outcome')
    (hstates : r.States frame state state') :
    r.Agrees frame rel state state' (outcome.1, outcome.2.closeCall)
      (outcome'.1, outcome'.2.closeCall) := by
  refine ⟨h.results, { h.states with locals := ?_ }, h.keeps.closeCall, h.keeps'.closeCall⟩
  rw [State.closeCall, State.closeCall, h.keeps.callers_eq, h.keeps'.callers_eq]
  exact hstates.locals

theorem Runs.bind {act : Run α} {act' : Run β} {next : α → Run γ} {next' : β → Run δ}
    (h : r.Runs frame rel act act')
    (hnext : ∀ value value', rel value value' → r.Runs frame rel' (next value) (next' value')) :
    r.Runs frame rel' (act >>= next) (act' >>= next') :=
  fun _ _ hstates hholds => (h _ _ hstates hholds).bind
    fun _ _ _ _ _ hvalue hafter hkeeps => hnext _ _ hvalue _ _ hafter (hholds.of_keepsNames hkeeps)

theorem Runs.inBlock {act : Run α} {act' : Run β} (h : r.Runs frame rel act act') :
    r.Runs frame rel (Run.inBlock act) (Run.inBlock act') :=
  fun _ _ hstates hholds => (h _ _ hstates.openBlock hholds).closeBlock

theorem Results.tagged {result : Except Stop α} {result' : Except Stop β} (line : Option Int)
    (h : r.Results rel result result') :
    r.Results rel (Run.tagged line result) (Run.tagged line result') := by
  cases h with
  | ok h => exact .ok h
  | error h =>
      cases h with
      | tooDeep => exact .error .tooDeep
      | unfinished => exact .error .unfinished
      | @fault _ _ own h => cases own <;> exact .error (.fault h)

theorem Runs.onLine {act : Run α} {act' : Run β} (line : Option Int)
    (h : r.Runs frame rel act act') :
    r.Runs frame rel (Run.onLine line act) (Run.onLine line act') := by
  intro state state' hstates hholds
  rw [Run.onLine_apply, Run.onLine_apply]
  have hagrees := h state state' hstates hholds
  exact { hagrees with results := hagrees.results.tagged line }

end

section

variable {frame inner : Frame} {state state' : State} {name name' : String} {value value' : Value}
  (hname : r.FrameNames frame name name')
include hname

theorem Runs.lookup : r.Runs frame r.Values (Run.lookup name) (Run.lookup name') := by
  intro state state' hstates hholds
  have hlocals := Chain.get?_rel hname.get?_rel hstates.locals
  have hsame := hname.eq_or_get?_ne_none hholds
  rw [Run.lookup_apply, Run.lookup_apply, State.get?_chain, State.get?_chain]
  generalize Chain.get? state.locals name = found at hlocals hsame ⊢
  generalize Chain.get? state'.locals name' = found' at hlocals ⊢
  cases hlocals with
  | some hvalue => exact .of_results hstates (.ok hvalue)
  | none =>
      -- No scope of the call holds the name, so it is the same one among the globals.
      obtain rfl := hsame.resolve_right (absurd rfl)
      have hglobal := hstates.globals.get?_same name
      rw [Option.none_or, Option.none_or]
      generalize state.globals.get? name = found at hglobal ⊢
      generalize state'.globals.get? name = found' at hglobal ⊢
      cases hglobal with
      | some hvalue => exact .of_results hstates (.ok hvalue)
      | none => exact .of_results hstates (.error (.fault (.alike (.refl _))))

/-- Declarations agree where the name is the same or some scope of the running call is open. -/
theorem declare_agrees (hvalue : r.Values value value') (hstates : r.States frame state state')
    (hplace : name = name' ∨ state.locals ≠ []) :
    r.Agrees frame (fun _ _ => True) state state' (Run.declare name value state)
      (Run.declare name' value' state') := by
  have hfails : r.Results (fun _ _ : Unit => True) (.error (.fault ⟨.alreadyDeclared name, none⟩))
    (.error (.fault ⟨.alreadyDeclared name', none⟩)) :=
    .error (.fault hname.renamed_alreadyDeclared)
  have hkeeps : ∀ (state : State) (name : String) (value : Value),
      state.KeepsNames (Run.declare name value state).2 :=
    fun state name value => ⟨_, Run.Declares.declare name value state⟩
  suffices hrel : r.Results (fun _ _ => True) (Run.declare name value state).1
        (Run.declare name' value' state').1 ∧
      r.States frame (Run.declare name value state).2 (Run.declare name' value' state').2 from
    ⟨hrel.1, hrel.2, hkeeps state name value, hkeeps state' name' value'⟩
  rw [Run.declare_apply, Run.declare_apply]
  obtain ⟨globals, locals, callers, output, functions⟩ := state
  obtain ⟨globals', locals', callers', output', functions'⟩ := state'
  obtain ⟨hglobals, hlocals, houtput, hfunctions⟩ := hstates
  cases hlocals with
  | nil =>
      obtain rfl := hplace.resolve_right (absurd rfl)
      have hdeclare := Scope.declare?_rel (·.get?_same name) hglobals (·.add rfl hvalue)
      dsimp only at hdeclare ⊢
      generalize Scope.declare? globals name value = found at hdeclare ⊢
      generalize Scope.declare? globals' name value' = found' at hdeclare ⊢
      cases hdeclare with
      | none => exact ⟨hfails, hglobals, .nil, houtput, hfunctions⟩
      | some hscope => exact ⟨.ok trivial, hscope, .nil, houtput, hfunctions⟩
  | @cons scope scope' _ _ hinner houter =>
      have hdeclare := Scope.declare?_rel hname.get?_rel hinner (·.add hname hvalue)
      dsimp only at hdeclare ⊢
      generalize Scope.declare? scope name value = found at hdeclare ⊢
      generalize Scope.declare? scope' name' value' = found' at hdeclare ⊢
      cases hdeclare with
      | none => exact ⟨hfails, hglobals, .cons hinner houter, houtput, hfunctions⟩
      | some hscope => exact ⟨.ok trivial, hglobals, .cons hscope houter, houtput, hfunctions⟩

theorem Runs.declare (hvalue : r.Values value value') :
    r.Runs frame (fun _ _ => True) (Run.declare name value) (Run.declare name' value') := by
  intro state state' hstates hholds
  refine declare_agrees hname hvalue hstates ((hname.eq_or_get?_ne_none hholds).imp_right ?_)
  rintro hfound hlocals
  rw [hlocals] at hfound
  exact hfound rfl

theorem Runs.assign (hvalue : r.Values value value') :
    r.Runs frame (fun _ _ => True) (Run.assign name value) (Run.assign name' value') := by
  intro state state' hstates hholds
  have hkeeps : ∀ (state : State) (name : String) (value : Value),
      state.KeepsNames (Run.assign name value state).2 :=
    fun state name value => ⟨[], Run.Declares.assign name value state⟩
  suffices hrel : r.Results (fun _ _ => True) (Run.assign name value state).1
        (Run.assign name' value' state').1 ∧
      r.States frame (Run.assign name value state).2 (Run.assign name' value' state').2 from
    ⟨hrel.1, hrel.2, hkeeps state name value, hkeeps state' name' value'⟩
  have hassign := Chain.assign?_rel hname.get?_rel hstates.locals
    (·.set hname hname.eq_iff hvalue)
  have hsame := hname.eq_or_get?_ne_none hholds
  rw [Ne, ← Chain.assign?_eq_none_iff value] at hsame
  rw [Run.assign_apply, Run.assign_apply]
  generalize Chain.assign? name value state.locals = found at hassign hsame ⊢
  generalize Chain.assign? name' value' state'.locals = found' at hassign ⊢
  cases hassign with
  | some hlocals => exact ⟨.ok trivial, { hstates with locals := hlocals }⟩
  | none =>
      obtain rfl := hsame.resolve_right (absurd rfl)
      dsimp only
      rw [← Scope.has_eq_of_rel (·.get?_same name) hstates.globals]
      split
      · exact ⟨.ok trivial, { hstates with globals := hstates.globals.set_same name hvalue }⟩
      · exact ⟨.error (.fault (.alike (.refl _))), hstates⟩

end

theorem Runs.print {frame : Frame} (text : String) :
    r.Runs frame (fun _ _ => True) (Run.print text) (Run.print text) :=
  fun state state' hstates _ =>
    ⟨.ok trivial, { hstates with output := congrArg (·.push text) hstates.output },
      ⟨[], Run.Declares.print text state⟩, ⟨[], Run.Declares.print text state'⟩⟩

theorem Runs.newFunction {frame : Frame} (name : String) {params params' : List String}
    {body body' : List Stmt} (h : r.Functions params body params' body') :
    r.Runs frame (fun function function' => r.Values (.function function) (.function function'))
      (Run.newFunction name params body) (Run.newFunction name params' body') := by
  intro state state' hstates _
  refine ⟨.ok ?_, { hstates with functions := congrArg (· + 1) hstates.functions },
    ⟨[], Run.Declares.newFunction name params body state⟩,
    ⟨[], Run.Declares.newFunction name params' body' state'⟩⟩
  rw [hstates.functions]
  exact .function h

/-! ## Calls -/

/-- The parameters of a call are bound in a scope that nothing is bound in before. -/
theorem bindParams_agrees {inner : Frame} {params params' : List String}
    (hparams : List.Forall₂ (r.FrameNames inner) params params') {args args' : List Value}
    (hargs : List.Forall₂ r.Values args args') {state state' : State}
    (hstates : r.States inner state state') (hlocals : state.locals ≠ []) :
    r.Agrees inner (fun _ _ => True) state state' (Run.bindParams (params.zip args) state)
      (Run.bindParams (params'.zip args') state') := by
  induction hparams generalizing args args' state state' with
  | nil => exact .of_results hstates (.ok trivial)
  | @cons param param' rest rest' hparam _ ih =>
      cases hargs with
      | nil => exact .of_results hstates (.ok trivial)
      | cons hvalue hargs =>
          refine (declare_agrees hparam hvalue hstates (.inr hlocals)).bind
            fun _ _ _ _ _ _ hafter hkeeps => ih hargs hafter (hkeeps.locals_ne_nil hlocals)

theorem Runs.call {α β : Type} (frame inner : Frame) {rel : α → β → Prop}
    {params params' : List String} (hparams : List.Forall₂ (r.FrameNames inner) params params')
    (hheld : inner = .renamed → r.old ∈ params) {args args' : List Value}
    (hargs : List.Forall₂ r.Values args args') (hlength : args.length = params.length)
    {rest : Run α} {rest' : Run β} (hrest : r.Runs inner rel rest rest') :
    r.Runs frame rel
      (Run.inCall do
        Run.bindParams (params.zip args)
        rest)
      (Run.inCall do
        Run.bindParams (params'.zip args')
        rest') := by
  intro state state' hstates _
  have hopen : state.openCall.locals ≠ [] := List.cons_ne_nil _ _
  refine Agrees.closeCall ((bindParams_agrees hparams hargs hstates.openCall hopen).bind
    fun _ _ _ _ hbound _ hafter _ => hrest _ _ hafter fun hframe => ?_) hstates
  have hnames := Run.subset_of_bindParams_eq_ok hbound hopen
  rw [List.map_fst_zip (Nat.le_of_eq hlength.symm)] at hnames
  exact hnames (hheld hframe)

/-! ## Programs -/

variable (r) in
/-- Computations that differ by the renaming are those of a simulation. -/
def simulation : Simulation where
  value _ := r.Values
  value_mono _ h := h
  value_of_type_ne := .plain
  eq_of_type_ne := Values.eq_of_type_ne
  function_of_value := Values.function_of
  equal_eq := Values.equal_eq
  Frame := Frame
  name := r.FrameNames
  expr
    | .plain => Eq
    | .renamed => r.Exprs
  stmt
    | .plain => r.Replaced
    | .renamed => r.Stmts
  function := r.Functions
  fault := Fault.Renamed r.old r.new
  line := Eq
  lag := 0
  Runs frame made rel act act' := r.Runs frame (rel made) act act'
  similar_or_runs {frame e e'} h := by
    cases frame with
    | plain =>
        cases h
        exact .inl (Expr.Matches.refl (fun _ => rfl) e).similar
    | renamed => exact .inl h.similar
  similar_of_stmt {frame _ _} h := by
    cases frame with
    | plain => exact h.similar
    | renamed => exact h.similar
  line_of_stmt {frame _ _} h := by
    cases frame with
    | plain => exact h.line_eq
    | renamed => exact h.line_eq
  fault_of_alike := .alike
  fault_notFunction h := h.renamed_notFunction
  fault_argumentCount expected got h := h.renamed_argumentCount expected got
  pure h _ _ hstates _ := .of_results hstates (.ok (h _ (Nat.le_refl _)))
  fail h _ _ hstates _ := .of_results hstates (.error (.fault h))
  throw h hline _ _ hstates _ := .of_results hstates (.error (hline ▸ .fault h))
  unfinished _ _ hstates _ := .of_results hstates (.error .unfinished)
  tooDeep act act' hact hact' := by
    rw [hact, hact']
    exact fun _ _ hstates _ => .of_results hstates (.error .tooDeep)
  bind h hnext := h.bind fun _ _ hvalue => hnext _ _ _ (Nat.le_refl _) hvalue
  inBlock := .inBlock
  onLine hline h := hline ▸ h.onLine _
  lookup := .lookup
  declare := .declare
  assign := .assign
  print := .print
  newFunction := .newFunction
  call frame _ f _ args _ hfunction hargs hlength := by
    cases hfunction with
    | plain htype => exact absurd rfl htype
    | function hfunction =>
        cases hfunction with
        | inside hbody =>
            exact ⟨.plain, hbody, fun hrest =>
              .call frame .plain (List.forall₂_same.mpr fun _ _ => rfl) nofun hargs hlength
                (hrest 0)⟩
        | here =>
            have hbody := forall₂_stmts r.new_notMem_names r.old_notMem_functionNames
            exact ⟨.renamed, hbody, fun hrest =>
              .call frame .renamed (forall₂_names r.new_notMem_params) (fun _ => r.old_mem_params)
                hargs hlength (hrest 0)⟩

/-- Programs that differ by the renaming run alike. -/
theorem Runs.program (patience depth : Nat) {program program' : Program}
    (h : List.Forall₂ r.Replaced program.statements program'.statements) :
    r.Runs .plain (fun _ _ => True) (program.run patience depth) (program'.run patience depth) := by
  have hruns : r.simulation.Runs .plain 0 (fun _ _ _ => True) (program.run patience depth)
    (program'.run patience (0 + depth)) := r.simulation.program .plain patience depth h
  rw [Nat.zero_add] at hruns
  exact hruns

end ParameterRenaming

end Bol
