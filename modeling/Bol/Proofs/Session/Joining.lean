/-
# Input in one piece or in two

A session that is given two texts, one after the other, does the same as a session that is given
both of them joined by a line end, if the second one declares no functions for the first one to
call. What differs are lines: those of the second text are counted from its own start when it is
given alone. They show in the lines of errors and in the bodies of functions.
-/

import Bol.Proofs.Source.Joining
import Bol.Proofs.Source.Likeness
import Bol.Session

namespace Bol

/-! ## Statements on other lines -/

/-- The same statement, or the same one with all its lines changed by `f`. -/
def Stmt.Moved (f : Int → Int) (stmt stmt' : Stmt) : Prop :=
  stmt' = stmt ∨ stmt' = stmt.mapLines f

namespace Stmt.Moved

variable {f : Int → Int}

theorem refl (stmt : Stmt) : stmt.Moved f stmt := .inl rfl

theorem listMapLines (body : List Stmt) :
    List.Forall₂ (Stmt.Moved f) body (Stmt.listMapLines f body) := by
  induction body with
  | nil => exact .nil
  | cons stmt _ ih => exact .cons (.inr rfl) ih

theorem alternative_mapLines :
    (alternative : Alternative) → alternative.Matches Eq (Stmt.Moved f) (alternative.mapLines f)
  | .nothing => .nothing
  | .otherwise body => .otherwise (listMapLines body)
  | .elseIf _ body next => .elseIf rfl (listMapLines body) (alternative_mapLines next)

theorem matches_of {stmt stmt' : Stmt} (h : stmt.Moved f stmt') :
    stmt.Matches Eq (Stmt.Moved f) stmt' := by
  obtain rfl | rfl := h
  · exact .refl (fun _ => rfl) refl _
  · cases stmt with
    | declare => exact .declare rfl
    | assign => exact .assign rfl
    | print => exact .print rfl
    | ifThen _ body otherwise =>
        exact .ifThen rfl (listMapLines body) (alternative_mapLines otherwise)
    | whileDo _ body => exact .whileDo rfl (listMapLines body)
    | breakLoop => exact .breakLoop
    | continueLoop => exact .continueLoop
    | function _ _ body => exact .function (listMapLines body)
    | returnValue => exact .returnValue (optionRel_refl (fun _ => rfl) _)
    | misplaced => exact .misplaced

end Stmt.Moved

theorem Stmt.isFunction_listMapLines {f : Int → Int} {stmts : List Stmt}
    (h : ∀ stmt ∈ stmts, stmt.isFunction = false) :
    ∀ stmt ∈ Stmt.listMapLines f stmts, stmt.isFunction = false := by
  induction stmts with
  | nil => exact List.forall_mem_nil _
  | cons stmt rest ih =>
      rw [List.forall_mem_cons] at h
      rw [Stmt.listMapLines, List.forall_mem_cons]
      have hsame := (Moved.matches_of (.inr rfl : stmt.Moved f (stmt.mapLines f))).isFunction_eq
      exact ⟨hsame ▸ h.1, ih h.2⟩

/-! ## Programs one after the other -/

namespace Run

variable {exec : Stmt → Run Signal}

theorem declareFunctions_of_plain {stmts : List Stmt}
    (h : ∀ stmt ∈ stmts, stmt.isFunction = false) :
    declareFunctions exec stmts = pure () := by
  induction stmts with
  | nil => rfl
  | cons stmt rest ih =>
      rw [List.forall_mem_cons] at h
      rw [declareFunctions, h.1, ih h.2]
      rfl

theorem declareFunctions_append (first second : List Stmt) :
    declareFunctions exec (first ++ second) = (do
      declareFunctions exec first
      declareFunctions exec second) := by
  induction first with
  | nil => rfl
  | cons stmt rest ih =>
      rw [List.cons_append, declareFunctions, declareFunctions, ih]
      split
      · rw [bind_assoc]
      · rfl

theorem topLevel_append (first second : List Stmt) :
    topLevel exec (first ++ second) = (do
      topLevel exec first
      topLevel exec second) := by
  induction first with
  | nil => rfl
  | cons stmt rest ih =>
      rw [List.cons_append, topLevel, topLevel, ih]
      split
      · rfl
      · rw [bind_assoc]
        refine bind_congr fun signal => ?_
        cases signal.strayFault? <;> rfl

end Run

namespace Program

variable {patience depth : Nat}

/-- A program may be followed by statements that declare no functions. -/
theorem run_append (first : List Stmt) {second : List Stmt}
    (h : ∀ stmt ∈ second, stmt.isFunction = false) :
    Program.run patience depth ⟨first ++ second⟩ = (do
      Program.run patience depth ⟨first⟩
      Program.run patience depth ⟨second⟩) := by
  rw [Program.run, Program.run, Program.run, Run.declareFunctions_append,
    Run.declareFunctions_of_plain h, bind_pure_unit, pure_bind, Run.topLevel_append, bind_assoc]

end Program

/-! ## Sessions -/

/-- A computation that is followed by another one, if it succeeds. -/
theorem State.perform_bind {α β : Type} (state : State) (act : Run α) (next : α → Run β) :
    state.perform (act >>= next) =
      match state.perform act with
      | (.ok value, after) => after.perform (next value)
      | (.error failure, after) => (.error failure, after) := by
  unfold State.perform
  rw [Run.bind_apply]
  rcases act state with ⟨stop | value, after⟩ <;> rfl

/-- A program followed by statements that declare no functions. -/
theorem State.run_append (state : State) (first : List Stmt) {second : List Stmt}
    (h : ∀ stmt ∈ second, stmt.isFunction = false) :
    state.run ⟨first ++ second⟩ =
      match state.run ⟨first⟩ with
      | (.ok _, after) => after.run ⟨second⟩
      | (.error failure, after) => (.error failure, after) := by
  unfold State.run
  rw [Program.run_append first h, State.perform_bind]
  rcases state.perform (Program.run loopPatience depthLimit ⟨first⟩) with ⟨_ | _, _⟩ <;> rfl

namespace Session

theorem add_of_fragment (session : Session) {text : String} {P : Program}
    (h : Source.fragment text = .ok P) :
    session.add text =
      ((session.state.run P).1,
        { session with
          state := (session.state.run P).2
          reporter := session.reporter.register session.path text }) := by
  rw [Session.add, h]
  rfl

/-- The session makes of two texts what it makes of them joined by a line end. -/
structure AddsInPieces (session : Session) (a b : String) : Prop where
  /-- If the first text fails, the join fails with the same error in the same state. -/
  failed : ∀ failure after, session.add a = (.error failure, after) →
    (session.add (a ++ "\n" ++ b)).1 = .error failure ∧
      (session.add (a ++ "\n" ++ b)).2.state = after.state
  /-- Otherwise the second text succeeds if the join does, or fails with the same error but for its
  line; the same lines are printed, and the same names are bound to the same values, function bodies
  from the second text standing on later lines. -/
  added : ∀ after, session.add a = (.ok (), after) →
    (after.add b).1.mapError Failure.withoutLine =
        (session.add (a ++ "\n" ++ b)).1.mapError Failure.withoutLine ∧
      (after.add b).2.state.Alike (Stmt.Moved (Source.below a))
        (session.add (a ++ "\n" ++ b)).2.state

/-- Two texts that spell statements spell them when joined by a line end, and a session may take
them in one piece or in two, if the second one declares no functions. -/
theorem adds_in_pieces {a b : String} {P Q : Program} (ha : Source.fragment a = .ok P)
    (hb : Source.fragment b = .ok Q) (hplain : ∀ stmt ∈ Q.statements, stmt.isFunction = false) :
    Source.fragment (a ++ "\n" ++ b) =
        .ok ⟨P.statements ++ Stmt.listMapLines (Source.below a) Q.statements⟩ ∧
      ∀ session : Session, session.AddsInPieces a b := by
  refine ⟨Source.fragment_joined ha hb, fun session => ?_⟩
  -- The join runs the first program and then, from where it ends, the second on other lines.
  have hjoined := session.add_of_fragment (Source.fragment_joined ha hb)
  have hplain' : ∀ stmt ∈ Stmt.listMapLines (Source.below a) Q.statements,
      stmt.isFunction = false := Stmt.isFunction_listMapLines hplain
  rw [session.state.run_append P.statements hplain'] at hjoined
  have hfirst := session.add_of_fragment ha
  refine ⟨fun failure after hfailed => ?_, fun after hadded => ?_⟩
  · rw [hfailed, Prod.mk.injEq] at hfirst
    obtain ⟨hfailure, rfl⟩ := hfirst
    rcases hrun : session.state.run P with ⟨result, state⟩
    rw [hrun] at hfailure hjoined
    subst hfailure
    rw [hjoined]
    exact ⟨rfl, rfl⟩
  · rw [hadded, Prod.mk.injEq] at hfirst
    obtain ⟨hsuccess, rfl⟩ := hfirst
    rcases hrun : session.state.run P with ⟨result, state⟩
    rw [hrun] at hsuccess hjoined
    subst hsuccess
    rw [hjoined, add_of_fragment _ hb]
    exact (Run.Alike.program (fun _ _ => Stmt.Moved.matches_of) loopPatience depthLimit
      (Stmt.Moved.listMapLines Q.statements)).perform (.refl Stmt.Moved.refl state)

/-- A text that declares a function and one that calls it. -/
theorem adds_in_pieces_greeting :
    Source.fragment ("karya greet() \x7b he bol \"hi\" \x7d" ++ "\n" ++ "he bol greet()") =
        .ok ⟨[.function "greet" [] [.print (.string "hi") (some 1)] (some 1),
          .print (.call "greet" []) (some 2)]⟩ ∧
      AddsInPieces ⟨inputPath, "", .new false, .initial⟩ "karya greet() \x7b he bol \"hi\" \x7d"
        "he bol greet()" ∧
      (((⟨inputPath, "", .new false, .initial⟩ : Session).add
        "karya greet() \x7b he bol \"hi\" \x7d").2.add "he bol greet()").2.state.output =
          #["hi", "shunya"] := by
  have hscan : Token.scan "karya greet() \x7b he bol \"hi\" \x7d" =
      .ok [⟨.functionWord, "karya", 1⟩, ⟨.identifier, "greet", 1⟩, ⟨.leftParen, "(", 1⟩,
        ⟨.rightParen, ")", 1⟩, ⟨.leftBrace, "\x7b", 1⟩, ⟨.print, "he bol", 1⟩, ⟨.string, "hi", 1⟩,
        ⟨.rightBrace, "\x7d", 1⟩, ⟨.endOfInput, "", 1⟩] := by
    decide +kernel
  have hscan' : Token.scan "he bol greet()" =
      .ok [⟨.print, "he bol", 1⟩, ⟨.identifier, "greet", 1⟩, ⟨.leftParen, "(", 1⟩,
        ⟨.rightParen, ")", 1⟩, ⟨.endOfInput, "", 1⟩] := by
    decide +kernel
  have hdeclares : Source.fragment "karya greet() \x7b he bol \"hi\" \x7d" =
      .ok ⟨[.function "greet" [] [.print (.string "hi") (some 1)] (some 1)]⟩ := by
    rw [Source.fragment, Source.read, hscan]
    rfl
  have hcalls : Source.fragment "he bol greet()" = .ok ⟨[.print (.call "greet" []) (some 1)]⟩ := by
    rw [Source.fragment, Source.read, hscan']
    rfl
  have hbelow : Source.below "karya greet() \x7b he bol \"hi\" \x7d" 1 = 2 := by decide +kernel
  obtain ⟨hjoined, hsession⟩ := adds_in_pieces hdeclares hcalls (by simp [Stmt.isFunction])
  refine ⟨?_, hsession _, by decide +kernel⟩
  rw [hjoined, Stmt.listMapLines, Stmt.mapLines, Option.map_some, hbelow]
  rfl

end Session

end Bol
