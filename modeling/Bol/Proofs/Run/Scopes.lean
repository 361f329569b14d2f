/-
# The names of scopes

Which names a scope holds changes in few places: a declaration adds one to the innermost scope,
and the scopes of blocks and calls are opened empty and go with them. So a statement adds at most
the name that it declares itself, and expressions, calls, conditionals and loops leave all scopes
that they find with the names they had, also when they end early.
-/

import Bol.Proofs.Run.Congruence
import Bol.Proofs.Run.Environments

namespace Bol

/-- The names that a statement declares in the scope where it stands. -/
def Stmt.declared : Stmt → List String
  | .declare name _ _ | .function name _ _ _ => [name]
  | _ => []

/-- The names that statements declare in the scope where they stand. -/
def Stmt.declaredIn (stmts : List Stmt) : List String := stmts.flatMap Stmt.declared

namespace State

/-- The names of all scopes, in the order in which the scopes were opened. -/
def names (state : State) : List (List String) := state.environments.map Scope.names

/-- The place among all scopes of the innermost one in sight. -/
def current (state : State) : Nat :=
  match state.locals with
  | [] => 0
  | _ :: _ => state.environments.length - 1

theorem names_eq_of_map_eq {state state' : State} (hcallers : state'.callers = state.callers)
    (hchain : state'.chain.map Scope.names = state.chain.map Scope.names) :
    state'.names = state.names := by
  obtain ⟨hlocals, hglobals⟩ := List.append_inj'
    (List.map_append.symm.trans (hchain.trans List.map_append)) rfl
  simp [names, environments, hcallers, hlocals, (List.cons_eq_cons.mp hglobals).1]

/-- What happens to the names of scopes if nothing but some of the `allowed` names is declared:
they come to the scope that was innermost in sight, and all other scopes have their names. -/
def DeclaresOnly (allowed : List String) (before after : State) : Prop :=
  ∃ added ⊆ allowed, after.names = before.names.modify before.current (added ++ ·)

/-- The same in terms of the scopes in sight, with the same callers waiting. -/
structure AddsNames (allowed : List String) (before after : State) : Prop where
  callers : after.callers = before.callers
  chain : ∃ added ⊆ allowed,
    after.chain.map Scope.names = (before.chain.map Scope.names).modifyHead (added ++ ·)

section

variable {allowed allowed' : List String} {before after later : State}

theorem AddsNames.refl (state : State) : AddsNames allowed state state :=
  ⟨rfl, [], List.nil_subset _, (congrFun List.modifyHead_id _).symm⟩

theorem AddsNames.trans (h : AddsNames allowed before after)
    (h' : AddsNames allowed after later) : AddsNames allowed before later := by
  obtain ⟨hcallers, added, hadded, hchain⟩ := h
  obtain ⟨hcallers', added', hadded', hchain'⟩ := h'
  refine ⟨hcallers'.trans hcallers, added' ++ added, List.append_subset.mpr ⟨hadded', hadded⟩, ?_⟩
  rw [hchain', hchain, List.modifyHead_modifyHead]
  congr 1
  funext names
  simp

theorem AddsNames.mono (h : AddsNames allowed before after) (hsubset : allowed ⊆ allowed') :
    AddsNames allowed' before after :=
  have ⟨added, hadded, hchain⟩ := h.chain
  ⟨h.callers, added, List.Subset.trans hadded hsubset, hchain⟩

theorem AddsNames.map_eq (h : AddsNames [] before after) :
    after.chain.map Scope.names = before.chain.map Scope.names := by
  obtain ⟨-, added, hadded, hchain⟩ := h
  obtain rfl := List.subset_nil.mp hadded
  exact hchain.trans (congrFun List.modifyHead_id _)

/-- Nothing is added if the scopes in sight have the names they had. -/
theorem AddsNames.of_map_eq (hcallers : after.callers = before.callers)
    (hchain : after.chain.map Scope.names = before.chain.map Scope.names) :
    AddsNames allowed before after :=
  ⟨hcallers, [], List.nil_subset _, hchain.trans (congrFun List.modifyHead_id _).symm⟩

/-- A block may declare anything: its own scope goes with it. -/
theorem AddsNames.closeBlock (h : AddsNames allowed before.openBlock after) :
    AddsNames [] before after.closeBlock := by
  obtain ⟨hcallers, added, -, hchain⟩ := h
  refine .of_map_eq hcallers ?_
  obtain ⟨globals, locals, callers, output, functions⟩ := after
  cases locals with
  | nil => simp [State.chain, openBlock] at hchain
  | cons scope outer => exact (List.cons_eq_cons.mp hchain).2

/-- A call may declare anything: it does so in scopes of its own. -/
theorem AddsNames.closeCall (h : AddsNames allowed before.openCall after) :
    AddsNames [] before after.closeCall := by
  obtain ⟨hcallers, added, -, hchain⟩ := h
  obtain ⟨globals, locals, callers, output, functions⟩ := after
  obtain rfl : callers = before.locals :: before.callers := hcallers
  have hglobals : globals.names = before.globals.names := by
    match locals with
    | [] => simp [State.chain, openCall] at hchain
    | [_] => exact (List.cons_eq_cons.mp (List.cons_eq_cons.mp hchain).2).1
    | _ :: _ :: _ => simp [State.chain, openCall] at hchain
  exact .of_map_eq rfl (by simp [State.chain, State.closeCall, hglobals])

theorem AddsNames.declaresOnly (h : AddsNames allowed before after) :
    DeclaresOnly allowed before after := by
  obtain ⟨hcallers, added, hadded, hchain⟩ := h
  refine ⟨added, hadded, ?_⟩
  cases hlocals : before.locals with
  | nil =>
      cases hlocals' : after.locals with
      | nil =>
          simpa [names, environments, current, hlocals, hlocals', hcallers, State.chain]
            using hchain
      | cons scope outer => simp [State.chain, hlocals, hlocals'] at hchain
  | cons scope outer =>
      cases hlocals' : after.locals with
      | nil => simp [State.chain, hlocals, hlocals'] at hchain
      | cons scope' outer' =>
          simp only [State.chain, hlocals, hlocals', List.cons_append] at hchain
          obtain ⟨hscope, hrest⟩ := List.cons_eq_cons.mp hchain
          have hclosed : after.closeBlock.names = before.closeBlock.names :=
            names_eq_of_map_eq hcallers
              (by simpa [State.chain, State.closeBlock, hlocals, hlocals'] using hrest)
          have hcurrent : before.current = before.closeBlock.names.length := by
            simp [current, hlocals, environments_of_locals hlocals, names]
          have hbefore : before.names = before.closeBlock.names ++ [scope.names] := by
            simp [names, environments_of_locals hlocals]
          have hafter : after.names = after.closeBlock.names ++ [scope'.names] := by
            simp [names, environments_of_locals hlocals']
          rw [hafter, hclosed, hscope, hbefore, hcurrent, List.modify_eq_take_drop]
          simp

theorem AddsNames.names_eq (h : AddsNames [] before after) : after.names = before.names :=
  names_eq_of_map_eq h.callers h.map_eq

end

end State

namespace Run

open State

/-- From any state, the computation declares nothing but some of the `allowed` names in the scope
that is innermost when it starts. -/
def Declares {α : Type} (allowed : List String) (act : Run α) : Prop :=
  ∀ state, AddsNames allowed state (act state).2

namespace Declares

variable {α β : Type} {allowed allowed' : List String} {act : Run α}

/-- Computations that leave the state as it is declare nothing. -/
theorem of_state_eq (h : ∀ state, (act state).2 = state) : Declares allowed act := by
  intro state
  rw [h state]
  exact .refl state

theorem pure (value : α) : Declares allowed (Pure.pure value : Run α) := of_state_eq fun _ => rfl

theorem throw (stop : Stop) : Declares allowed (throw stop : Run α) := of_state_eq fun _ => rfl

theorem fail (fault : Fault) : Declares allowed (fail fault : Run α) := of_state_eq fun _ => rfl

theorem bind {next : α → Run β} (h : Declares allowed act)
    (hnext : ∀ value, Declares allowed (next value)) : Declares allowed (act >>= next) := by
  intro state
  have hact := h state
  rw [bind_apply]
  rcases hresult : act state with ⟨stop | value, after⟩
  · rwa [hresult] at hact
  · rw [hresult] at hact
    exact hact.trans (hnext value after)

theorem mono (h : Declares allowed act) (hsubset : allowed ⊆ allowed') : Declares allowed' act :=
  fun state => (h state).mono hsubset

theorem of_nil (h : Declares [] act) : Declares allowed act := h.mono (List.nil_subset _)

theorem inBlock (h : Declares allowed act) : Declares allowed' (inBlock act) := by
  refine of_nil fun state => ?_
  rw [inBlock_eq]
  exact (h state.openBlock).closeBlock

theorem inCall (h : Declares allowed act) : Declares allowed' (inCall act) := by
  refine of_nil fun state => ?_
  rw [inCall_eq]
  exact (h state.openCall).closeCall

theorem onLine (line : Option Int) (h : Declares allowed act) :
    Declares allowed (onLine line act) := by
  intro state
  rw [onLine_apply]
  exact h state

theorem lookup (name : String) : Declares allowed (lookup name) := by
  refine of_state_eq fun state => ?_
  rw [lookup_apply]
  cases Chain.get? state.chain name <;> rfl

/-- A declaration adds the name that it declares, unless the scope holds it. -/
theorem declare (name : String) (value : Value) : Declares [name] (declare name value) := by
  rintro ⟨globals, locals, callers, output, functions⟩
  rw [declare_apply]
  have hadded : ∀ {scope scope' : Scope}, scope.declare? name value = some scope' →
      scope'.names = [name] ++ scope.names := by
    intro scope scope' h
    rw [(declare?_eq_some h).2]
    rfl
  cases locals with
  | nil =>
      dsimp only
      cases h : globals.declare? name value with
      | none => exact .refl _
      | some globals' => exact ⟨rfl, [name], List.Subset.refl _, by simp [chain, hadded h]⟩
  | cons scope outer =>
      dsimp only
      cases h : scope.declare? name value with
      | none => exact .refl _
      | some scope' => exact ⟨rfl, [name], List.Subset.refl _, by simp [chain, hadded h]⟩

theorem assign (name : String) (value : Value) : Declares allowed (assign name value) := by
  intro state
  rw [assign_apply]
  cases h : Chain.assign? name value state.locals with
  | some locals =>
      obtain ⟨inner, scope, outer, hlocals, -, rfl⟩ := assign?_eq_some h
      exact .of_map_eq rfl (by simp [chain, hlocals])
  | none =>
      dsimp only
      split
      · exact .of_map_eq rfl (by simp [chain])
      · exact .refl state

theorem print (line : String) : Declares allowed (print line) :=
  fun _ => .of_map_eq rfl rfl

theorem newFunction (name : String) (params : List String) (body : List Stmt) :
    Declares allowed (newFunction name params body) :=
  fun _ => .of_map_eq rfl rfl

theorem ofExcept (result : Except Fault α) : Declares allowed (ofExcept result) := by
  cases result with
  | ok value => exact pure value
  | error fault => exact fail fault

theorem condition (keyword : TokenKind) (value : Value) :
    Declares allowed (condition keyword value) := by
  cases value <;> first | exact pure _ | exact fail _

theorem logicalOperand (op : BinaryOp) (value : Value) :
    Declares allowed (logicalOperand op value) := by
  cases value <;> first | exact pure _ | exact fail _

theorem lookupFunction (callee : String) : Declares allowed (lookupFunction callee) :=
  (lookup callee).bind fun value => by cases value <;> first | exact pure _ | exact fail _

theorem arguments {eval : Expr → Run Value} (heval : ∀ expr, Declares allowed (eval expr))
    (exprs : List Expr) : Declares allowed (exprs.mapM eval) := by
  induction exprs with
  | nil => exact pure _
  | cons expr rest ih =>
      rw [List.mapM_cons]
      exact (heval expr).bind fun _ => ih.bind fun _ => pure _

theorem bindParams (pairs : List (String × Value)) :
    Declares (pairs.map Prod.fst) (bindParams pairs) := by
  induction pairs with
  | nil => exact pure ()
  | cons pair rest ih =>
      exact ((declare pair.1 pair.2).mono (by simp)).bind fun _ => ih.mono (by simp)

/-- Statements declare the names that stand directly among them. -/
theorem statements {exec : Stmt → Run Signal} (hexec : ∀ stmt, Declares stmt.declared (exec stmt))
    (stmts : List Stmt) : Declares (Stmt.declaredIn stmts) (statements exec stmts) := by
  induction stmts with
  | nil => exact pure _
  | cons first rest ih =>
      refine ((hexec first).mono (by simp [Stmt.declaredIn])).bind fun signal => ?_
      cases signal with
      | normal => exact ih.mono (by simp [Stmt.declaredIn])
      | broke | continued | returned _ => exact pure _

theorem block {exec : Stmt → Run Signal} (hexec : ∀ stmt, Declares stmt.declared (exec stmt))
    (body : List Stmt) : Declares allowed (Run.inBlock (Run.statements exec body)) :=
  (statements hexec body).inBlock

theorem enter {exec : Stmt → Run Signal} (hexec : ∀ stmt, Declares stmt.declared (exec stmt))
    (function : Function) (args : List Value) : Declares allowed (enter exec function args) := by
  have hparams := bindParams (function.params.zip args)
  have hbody := statements hexec function.body
  apply inCall
  refine (hparams.mono (List.subset_append_left _ _)).bind fun _ =>
    (hbody.mono (List.subset_append_right _ _)).bind fun signal => ?_
  cases signal with
  | normal | returned _ => exact pure _
  | broke | continued => exact fail _

theorem test {eval : Expr → Run Value} (heval : ∀ expr, Declares [] (eval expr))
    (keyword : TokenKind) (test : Expr) :
    Declares allowed (eval test >>= Run.condition keyword) :=
  (heval test).of_nil.bind fun _ => condition keyword _

theorem alternative {eval : Expr → Run Value} {body : List Stmt → Run Signal}
    (heval : ∀ expr, Declares [] (eval expr)) (hbody : ∀ block, Declares allowed (body block))
    (otherwise : Alternative) : Declares allowed (alternative eval body otherwise) := by
  match otherwise with
  | .nothing => exact pure _
  | .otherwise block => exact hbody block
  | .elseIf expr block next =>
      refine (heval expr).of_nil.bind fun value => (condition .elseIf value).bind fun holds => ?_
      cases holds with
      | true => exact hbody block
      | false => exact alternative heval hbody next

theorem loop {test : Run Bool} {body : Run Signal} (htest : Declares allowed test)
    (hbody : Declares allowed body) (rounds : Nat) : Declares allowed (loop test body rounds) := by
  induction rounds with
  | zero => exact throw _
  | succ rounds ih =>
      refine htest.bind fun holds => ?_
      cases holds with
      | false => exact pure _
      | true =>
          refine hbody.bind fun signal => ?_
          cases signal with
          | normal | continued => exact ih
          | broke | returned _ => exact pure _

end Declares

/-- Expressions declare nothing and statements what they declare themselves. -/
theorem eval_and_exec_declares (patience depth : Nat) :
    (∀ expr, Declares [] (eval patience depth expr)) ∧
      ∀ stmt, Declares stmt.declared (exec patience depth stmt) := by
  induction depth with
  | zero =>
      refine ⟨fun expr => ?_, fun stmt => ?_⟩
      · rw [eval_zero]
        exact .throw _
      · rw [exec_zero]
        exact .throw _
  | succ depth ih =>
      obtain ⟨heval, hexec⟩ := ih
      refine ⟨fun expr => ?_, fun stmt => ?_⟩
      · rw [eval.eq_def]
        cases expr with
        | number | string | boolean | null => exact .pure _
        | name name => exact .lookup name
        | binary op left right =>
            dsimp only
            split
            · refine (heval left).bind fun value => (Declares.logicalOperand op value).bind
                fun first => ?_
              split
              · exact .pure _
              · exact (heval right).bind fun value =>
                  (Declares.logicalOperand op value).bind fun _ => .pure _
            · exact (heval left).bind fun _ => (heval right).bind fun _ => .ofExcept _
        | unary op operand => exact (heval operand).bind fun _ => .ofExcept _
        | call callee args =>
            refine (Declares.lookupFunction callee).bind fun function =>
              (Declares.arguments heval args).bind fun values => ?_
            split
            · exact .enter hexec function values
            · exact .fail _
        | misplaced sort => exact .fail _
      · rw [exec.eq_def]
        cases stmt with
        | declare name value line =>
            exact ((heval value).of_nil.bind fun value =>
              (Declares.declare name value).bind fun _ => .pure _).onLine line
        | assign name value line =>
            exact ((heval value).bind fun value =>
              (Declares.assign name value).bind fun _ => .pure _).onLine line
        | print value line =>
            exact ((heval value).bind fun value =>
              (Declares.print _).bind fun _ => .pure _).onLine line
        | ifThen test body otherwise line =>
            refine ((heval test).bind fun value => (Declares.condition _ value).bind
              fun holds => ?_).onLine line
            split
            · exact .block hexec body
            · exact .alternative heval (Declares.block hexec) otherwise
        | whileDo test body line =>
            exact (Declares.loop (.test heval _ test) (.block hexec body) patience).onLine line
        | breakLoop | continueLoop => exact .pure _
        | function name params body line =>
            exact ((Declares.newFunction name params body).bind fun function =>
              (Declares.declare name _).bind fun _ => .pure _).onLine line
        | returnValue value line =>
            cases value with
            | none => exact .pure _
            | some value => exact ((heval value).bind fun _ => .pure _).onLine line
        | misplaced sort => exact .fail _

section

variable {exec : Stmt → Run Signal} (hexec : ∀ stmt, Declares stmt.declared (exec stmt))
include hexec

theorem Declares.declareFunctions (stmts : List Stmt) :
    Declares (Stmt.declaredIn stmts) (declareFunctions exec stmts) := by
  induction stmts with
  | nil => exact .pure ()
  | cons first rest ih =>
      have hrest := ih.mono (List.subset_append_right first.declared _)
      rw [Run.declareFunctions]
      split
      · exact ((hexec first).mono (List.subset_append_left _ _)).bind fun _ => hrest
      · exact (Declares.pure ()).bind fun _ => hrest

theorem Declares.topLevel (stmts : List Stmt) :
    Declares (Stmt.declaredIn stmts) (topLevel exec stmts) := by
  induction stmts with
  | nil => exact .pure ()
  | cons first rest ih =>
      have hrest := ih.mono (List.subset_append_right first.declared _)
      rw [Run.topLevel]
      split
      · exact hrest
      · refine ((hexec first).mono (List.subset_append_left _ _)).bind fun signal => ?_
        split
        · exact hrest
        · exact .throw _

end

/-- A program declares the names that stand directly in it. -/
theorem program_declares (patience depth : Nat) (program : Program) :
    Declares (Stmt.declaredIn program.statements) (program.run patience depth) :=
  have hexec := (eval_and_exec_declares patience depth).2
  (Declares.declareFunctions hexec program.statements).bind fun _ =>
    Declares.topLevel hexec program.statements

/-! ## Loops round by round -/

/-- Before a statement of a list, only names are new that statements before it declare. -/
theorem statementParts_names {patience depth : Nat} {body : List Stmt} {state : State}
    {part : Part} (h : statementParts patience depth body state part) :
    ∃ earlier stmt later, body = earlier ++ stmt :: later ∧ part.task = .exec stmt ∧
      AddsNames (Stmt.declaredIn earlier) state part.state := by
  induction body generalizing state with
  | nil => exact h.elim
  | cons first rest ih =>
      obtain rfl | ⟨signal, after, hfirst, hrest⟩ := h
      · exact ⟨[], first, rest, rfl, rfl, .refl state⟩
      · cases signal with
        | broke | continued | returned _ => exact hrest.elim
        | normal =>
            obtain ⟨earlier, stmt, later, rfl, htask, hnames⟩ := ih hrest
            have hdeclared := (eval_and_exec_declares patience depth).2 first state
            rw [hfirst] at hdeclared
            exact ⟨first :: earlier, stmt, later, rfl, htask,
              (hdeclared.mono (by simp [Stmt.declaredIn])).trans
                (hnames.mono (by simp [Stmt.declaredIn]))⟩

/-- What a part of a loop has in sight when it starts: the condition the names from before the
loop, a statement of the body besides only names that the body has declared before it in the same
round. -/
def SeesRound (test : Expr) (body : List Stmt) (before : State) (part : Part) : Prop :=
  (part.task = .eval test ∧
    part.state.chain.map Scope.names = before.chain.map Scope.names) ∨
  ∃ earlier stmt later, body = earlier ++ stmt :: later ∧ part.task = .exec stmt ∧
    ∃ added ⊆ Stmt.declaredIn earlier,
      part.state.chain.map Scope.names = added :: before.chain.map Scope.names

theorem loopParts_names {patience depth rounds : Nat} {test : Expr} {body : List Stmt}
    {before state : State} {part : Part} (hbefore : AddsNames [] before state)
    (h : loopParts patience depth test body rounds state part) :
    SeesRound test body before part := by
  obtain ⟨heval, hexec⟩ := eval_and_exec_declares patience depth
  induction rounds generalizing state with
  | zero => exact h.elim
  | succ rounds ih =>
      obtain rfl | ⟨value, tested, htest, h⟩ := h
      · exact .inl ⟨rfl, hbefore.map_eq⟩
      have htested := heval test state
      rw [htest] at htested
      obtain h | ⟨holds, tested', hcondition, h⟩ := h
      · exact h.elim
      have htested' : AddsNames [] tested _ := Declares.condition .whileWord value tested
      rw [hcondition] at htested'
      have hround := hbefore.trans (htested.trans htested')
      cases holds with
      | false => exact h.elim
      | true =>
          obtain h | ⟨signal, after, hbody, h⟩ := h
          · obtain ⟨earlier, stmt, later, hsplit, htask, -, added, hadded, hnames⟩ :=
              statementParts_names h
            refine .inr ⟨earlier, stmt, later, hsplit, htask, added, hadded, ?_⟩
            rw [hnames, ← hround.map_eq]
            simp [chain, openBlock]
          · have hafter : AddsNames [] tested' _ := Declares.block hexec body tested'
            rw [hbody] at hafter
            cases signal with
            | normal | continued => exact ih (hround.trans hafter) h
            | broke | returned _ => exact h.elim

end Run

end Bol
