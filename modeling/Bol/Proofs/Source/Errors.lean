/-
# Errors point into their source

Every statement of a program that is read from a source has the line of its first token. A fault
gets the line of the innermost statement around it, so no fault leaves a program without a line; and
what runs in the course of a program that starts with nothing declared is a statement of the
program. So an error of a source, whatever it comes from, has a line of the source.
-/

import Bol.Proofs.Number.Reading
import Bol.Proofs.Session.ErrorLines
import Bol.Proofs.Source.Render
import Bol.Proofs.Source.Separation

namespace Bol

/-! ## Lines of faults -/

namespace Run

variable {patience depth : Nat} {state : State} {fault : Fault} {line : Option Int}

/-- A statement with a line puts it to every fault that has none. -/
theorem line_ne_none_of_exec {stmt : Stmt} (hstmt : stmt.line ≠ none)
    (h : (exec patience depth stmt state).1 = .error (.fault ⟨fault, line⟩)) : line ≠ none := by
  rw [exec_eq_onLine, onLine_apply] at h
  obtain ⟨own, -, rfl⟩ := exists_of_tagged_eq_fault h
  rw [Ne, Option.or_eq_none_iff, not_and_or]
  exact .inr hstmt

section

variable {stmts : List Stmt} (hstmts : ∀ stmt ∈ stmts, stmt.line ≠ none)
include hstmts

theorem line_ne_none_of_declareFunctions
    (h : (declareFunctions (exec patience depth) stmts state).1 = .error (.fault ⟨fault, line⟩)) :
    line ≠ none := by
  induction stmts generalizing state with
  | nil => cases h
  | cons first rest ih =>
      obtain ⟨hfirst, hrest⟩ := List.forall_mem_cons.mp hstmts
      rw [declareFunctions] at h
      split at h
      · obtain hstop | ⟨_, _, -, h⟩ := bind_eq_error_iff.mp h
        · exact line_ne_none_of_exec hfirst hstop
        · exact ih hrest h
      · exact ih hrest h

theorem line_ne_none_of_topLevel
    (h : (topLevel (exec patience depth) stmts state).1 = .error (.fault ⟨fault, line⟩)) :
    line ≠ none := by
  induction stmts generalizing state with
  | nil => cases h
  | cons first rest ih =>
      obtain ⟨hfirst, hrest⟩ := List.forall_mem_cons.mp hstmts
      rw [topLevel] at h
      split at h
      · exact ih hrest h
      · obtain hstop | ⟨signal, _, -, h⟩ := bind_eq_error_iff.mp h
        · exact line_ne_none_of_exec hfirst hstop
        · -- A signal that nothing takes is blamed on the statement itself.
          cases hstray : signal.strayFault? with
          | none =>
              rw [hstray] at h
              exact ih hrest h
          | some stray =>
              rw [hstray] at h
              cases h
              exact hfirst

end

/-- A program whose statements have lines fails with lines only. -/
theorem line_ne_none_of_program {program : Program}
    (hstmts : ∀ stmt ∈ program.statements, stmt.line ≠ none)
    (h : (program.run patience depth state).1 = .error (.fault ⟨fault, line⟩)) : line ≠ none := by
  rw [Program.run] at h
  obtain h | ⟨_, _, -, h⟩ := bind_eq_error_iff.mp h
  · exact line_ne_none_of_declareFunctions hstmts h
  · exact line_ne_none_of_topLevel hstmts h

/-- Where no functions are stored, all that a program runs are its own statements. -/
theorem Raises.occursIn {program : Program} {stmt : Stmt}
    (h : Raises patience (programParts patience depth program) .initial stmt fault) :
    stmt.OccursIn program.statements := by
  let own : Discipline Bool :=
    .origins (Session.inherited_occursIn program.statements)
      (Session.inherited_occursIn program.statements)
      fun _ _ _ _ hfunction _ hinner => hfunction.of_block List.mem_cons_self (.here hinner)
  have hinitial : State.initial.Holds own.value := List.forall_mem_singleton.mpr Scope.holds_empty
  have hstmts : ∀ stmt ∈ program.statements, own.stmt false stmt := fun _ hstmt => .here hstmt
  obtain ⟨mode, hmode⟩ := h.admitted hstmts hinitial
  cases mode <;> exact hmode

end Run

/-! ## Lines of statements -/

namespace Program

open Grammar

/-- A statement has the line of the first token that it stands in. -/
theorem StandsIn.exists_first {P : Program} {tokens before used after : List Token} {stmt : Stmt}
    {later : List Stmt} (h : P.StandsIn tokens before used after stmt later) :
    ∃ first rest, used = first :: rest ∧ stmt.line = some first.line := by
  obtain ⟨_, _, _, _, _, _, -, hstands, -, -⟩ := h
  obtain hsimple | hcompound := hstands.spells
  · cases hsimple <;> exact ⟨_, _, rfl, rfl⟩
  · cases hcompound <;> exact ⟨_, _, rfl, rfl⟩

/-- Every statement of a program that is read, at whatever depth, stands in the tokens. -/
theorem exists_standsIn_of_parse {P : Program} {tokens : List Token} {stmt : Stmt}
    (h : parse tokens = .ok P ∨ parseFragment tokens = .ok P) (hstmt : stmt.OccursIn P.statements) :
    ∃ before used after later, P.StandsIn tokens before used after stmt later := by
  obtain hnone | ⟨front, inner, back, hlist⟩ := exists_encloses_of_parse h
  · rw [hnone] at hstmt
    cases hstmt with
    | here hstmt => cases hstmt
    | inside houter => cases houter
  · exact hlist.exists_standsIn hstmt

end Program

/-- The line of a place is one of the lines of the text. -/
theorem Piece.lineAfter_bounds {before after text : List Char} (h : before ++ after = text) :
    1 ≤ lineAfter before ∧ lineAfter before ≤ (Text.lines text).length := by
  rw [← h, Text.length_lines, List.count_append, lineAfter]
  omega

namespace Source

variable {source : String} {diagnostic : Diagnostic}

/-- The number tokens of a source all stand for numbers. -/
theorem not_holdsNoNumber_of_scan {tokens : List Token} (hscan : Token.scan source = .ok tokens)
    (text : String) : ¬ HoldsNoNumber tokens text := by
  rintro ⟨t, ht, hkind, rfl, hnone⟩
  have hnumber := (Word.isLexed_of_scan hscan t ht).isNumber hkind
  obtain ⟨magnitude, -, hread⟩ := Number.exists_decimal_of_isNumber hnumber
  exact Option.some_ne_none _ (hread.symm.trans hnone)

/-- A source that holds no program is refused with an error of the language, or for its depth. -/
theorem program_ne_foreign (sort text : String) : program source ≠ .error (.foreign sort text) := by
  intro h
  cases hscan : Token.scan source with
  | error error =>
      rw [program, read, hscan] at h
      cases h
  | ok tokens =>
      rw [program, read, hscan] at h
      dsimp only at h
      rcases hparse : Program.parse tokens with (error | _ | text) | P <;> rw [hparse] at h <;>
        cases h
      obtain ⟨body, stop, rfl, hstop, -⟩ := Token.exists_body_of_scan hscan
      exact not_holdsNoNumber_of_scan hscan text
        (Program.holdsNoNumber_of_parseWithin hstop hparse)

/-- So is one whose program fails. -/
theorem run_ne_foreign (sort text : String) : (run source).1 ≠ .error (.foreign sort text) := by
  intro h
  rw [run] at h
  rcases hread : program source with failure | P <;> rw [hread, State.runRead] at h
  · cases h
    exact program_ne_foreign sort text hread
  · rw [State.run, State.perform] at h
    split at h
    · cases h
    · rename_i stop _ _
      cases stop <;> cases h

open Session (Call)

/-- The statement that a fault of a run comes from stands in the source. -/
theorem exists_raises_of_run {P : Program} {fault : Fault} {line : Option Int}
    (hread : program source = .ok P)
    (h : (P.run loopPatience depthLimit .initial).1 = .error (.fault ⟨fault, line⟩)) :
    ∃ stmt before after, stmt.line = line ∧ stmt.OccursIn P.statements ∧
      stmt.StandsAt source before after ∧
      Run.Raises loopPatience (Run.programParts loopPatience depthLimit P) .initial stmt fault := by
  have hreads : Reads source P := .inl hread
  have hlines : ∀ stmt ∈ P.statements, stmt.line ≠ none := by
    intro stmt hstmt hnone
    obtain ⟨_, _, hplace⟩ := hreads.exists_standsAt (.here hstmt)
    cases hnone.symm.trans hplace.line_eq
  obtain ⟨own, rfl⟩ := Option.ne_none_iff_exists'.mp (Run.line_ne_none_of_program hlines h)
  obtain ⟨stmt, hraises, hline⟩ := Run.exists_raises h
  have hoccurs := hraises.occursIn
  obtain ⟨before, after, hplace⟩ := hreads.exists_standsAt hoccurs
  exact ⟨stmt, before, after, hline, hoccurs, hplace, hraises⟩

/-- Every error of a run has a place in the source, where what it comes from stands: a character, a
token, or a statement of the program. -/
theorem exists_blames_of_run (h : (run source).1 = .error (.error diagnostic)) :
    ∃ before after, Call.Blames source .run .initial diagnostic source before after ∧
      (diagnostic.kind = .runtime → ∃ P, ∃ stmt : Stmt, program source = .ok P ∧
        stmt.OccursIn P.statements ∧ stmt.StandsAt source before after) := by
  rw [run] at h
  cases hscan : Token.scan source with
  | error error =>
      rw [program, read, hscan] at h
      cases h
      have hscan : Token.scan (Call.run.text source) = .error error := hscan
      obtain ⟨before, after, hblames⟩ := Call.exists_blames_of_scan hscan .initial
      exact ⟨before, after, hblames, fun hkind => by cases hkind⟩
  | ok tokens =>
      cases hparse : Program.parse tokens with
      | error stop =>
          rw [program, read, hscan] at h
          dsimp only at h
          rw [hparse] at h
          cases stop with
          | tooDeep | notNumber text => cases h
          | error error =>
              cases h
              have hscan : Token.scan (Call.run.text source) = .ok tokens := hscan
              have hparse : Call.run.parse tokens = .error (.error error) := hparse
              obtain ⟨before, after, hblames⟩ := Call.exists_blames_of_parse hscan hparse .initial
              exact ⟨before, after, hblames, fun hkind => by cases hkind⟩
      | ok P =>
          have hread : program source = .ok P := read_eq_ok_iff.mpr ⟨tokens, hscan, hparse⟩
          rw [hread] at h
          obtain ⟨⟨fault, line⟩, hrun, rfl⟩ := Session.exists_fault_of_run h
          obtain ⟨stmt, before, after, rfl, hoccurs, hplace, hraises⟩ :=
            exists_raises_of_run hread hrun
          exact ⟨before, after, .statement hread hraises hplace rfl,
            fun _ => ⟨P, stmt, hread, hoccurs, hplace⟩⟩

/-- Every error of a run points into its source. What it comes from stands at a place of the source,
and the error has the line of this place, which is one of the source's and which a reporter that
knows the source finds; if the error comes up while the program runs, a statement of the program
stands there. Every statement of a program that is read stands in the tokens, and wherever one
stands it has the line of the first of its tokens, which is that of the place where the token
stands. -/
theorem errors_in_source (source : String) :
    (∀ diagnostic, (run source).1 = .error (.error diagnostic) →
      ∃ before after line, Call.Blames source .run .initial diagnostic source before after ∧
        diagnostic.line = some line ∧ line = Piece.lineAfter before ∧
        1 ≤ line ∧ line ≤ (Text.lines source.toList).length ∧
        (∀ (reporter : Reporter) path, (reporter.register path source).sourceLine? (some line) =
          some (String.ofList (Text.lineAround before after))) ∧
        (diagnostic.kind = .runtime → ∃ P, ∃ stmt : Stmt, program source = .ok P ∧
          stmt.OccursIn P.statements ∧ stmt.StandsAt source before after ∧
            stmt.line = some line)) ∧
    ∀ tokens P, Token.scan source = .ok tokens →
      (Program.parse tokens = .ok P ∨ Program.parseFragment tokens = .ok P) →
      (∀ stmt : Stmt, stmt.OccursIn P.statements →
        ∃ before used after later, P.StandsIn tokens before used after stmt later) ∧
      ∀ before used after stmt later, P.StandsIn tokens before used after stmt later →
        tokens = before ++ (used ++ after) ∧
        ∃ first rest, used = first :: rest ∧ stmt.line = some first.line ∧
          ∃ front back, first.StandsAt source.toList front back ∧
            first.line = Piece.lineAfter front := by
  constructor
  · intro diagnostic h
    obtain ⟨before, after, hblames, hstmt⟩ := exists_blames_of_run h
    obtain ⟨hfirst, hlast⟩ := Piece.lineAfter_bounds hblames.text_eq
    refine ⟨before, after, _, hblames, hblames.line_eq, rfl, hfirst, hlast, fun reporter path => ?_,
      fun hkind => ?_⟩
    · exact (reporter.shows_register path source).sourceLine?_eq hblames.text_eq
    · obtain ⟨P, stmt, hread, hoccurs, hplace⟩ := hstmt hkind
      exact ⟨P, stmt, hread, hoccurs, hplace, hplace.line_eq⟩
  · intro tokens P hscan hparse
    refine ⟨fun stmt hstmt => Program.exists_standsIn_of_parse hparse hstmt,
      fun before used after stmt later hstands => ⟨hstands.tokens_eq, ?_⟩⟩
    obtain ⟨first, rest, rfl, hline⟩ := hstands.exists_first
    have hmem : first ∈ tokens := by
      rw [hstands.tokens_eq]
      simp
    obtain ⟨front, back, hplace⟩ := Token.exists_standsAt hscan hmem
    exact ⟨first, rest, rfl, hline, front, back, hplace, hplace.line_eq⟩

/-- A function that is called on line 5 and that fails on line 3. -/
def failsInCall : String :=
  "bola saheb\nkarya f() \x7b\n he bol ghost\n\x7d\nhe bol f()\nyeto saheb"

theorem errors_in_source_failsInCall :
    (run failsInCall).1 =
        .error (.error ⟨.runtime, "'ghost' is not declared", some 3, some "ghost", true⟩) ∧
      (∃ P, ∃ stmt : Stmt, program failsInCall = .ok P ∧ stmt.OccursIn P.statements ∧
        stmt.line = some 3) ∧
      (Reporter.new true |>.register "f.bol" failsInCall).sourceLine? (some 3) =
        some " he bol ghost" ∧
      ∃ tokens P, Token.scan failsInCall = .ok tokens ∧ Program.parse tokens = .ok P ∧
        ∃ stmt before first rest after later,
          P.StandsIn tokens before (first :: rest) after stmt later ∧
          first.line = 3 := by
  have hfails : (run failsInCall).1 =
      .error (.error ⟨.runtime, "'ghost' is not declared", some 3, some "ghost", true⟩) := by
    decide +kernel
  obtain ⟨herrors, hstatements⟩ := errors_in_source failsInCall
  obtain ⟨_, _, line, -, hline, -, -, -, -, hruntime⟩ := herrors _ hfails
  obtain rfl : 3 = line := Option.some.inj hline
  obtain ⟨P, stmt, hread, hoccurs, -, hstmt⟩ := hruntime rfl
  obtain ⟨tokens, hscan, hparse⟩ := read_eq_ok_iff.mp hread
  obtain ⟨hall, hends⟩ := hstatements tokens P hscan (.inl hparse)
  obtain ⟨before, used, after, later, hstands⟩ := hall stmt hoccurs
  obtain ⟨-, first, rest, rfl, hfirst, -⟩ := hends _ _ _ _ _ hstands
  refine ⟨hfails, ⟨P, stmt, hread, hoccurs, hstmt⟩, by decide +kernel, tokens, P, hscan, hparse,
    stmt, before, first, rest, after, later, hstands, ?_⟩
  exact Option.some.inj (hfirst.symm.trans hstmt)

end Source

end Bol
