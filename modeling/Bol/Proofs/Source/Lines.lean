/-
# Layout and lines never influence behaviour

How a text is laid out does not matter: two texts with the same tokens, kind by kind and value by
value, hold the same program, whose statements may stand on different lines, or they are refused
with the same error. And the lines of a program do not matter to its run. All that a line can show
in is the line of an error.
-/

import Bol.Proofs.Program.Lines
import Bol.Proofs.Run.Lines
import Bol.Proofs.Source.Likeness
import Bol.Proofs.Source.Words

namespace Bol

@[simp]
theorem Token.word_mapLine (f : Int → Int) (token : Token) : (token.mapLine f).word = token.word :=
  rfl

/-- Tokens that are the same one by one are the same if all of them are moved to one line. -/
theorem Token.map_mapLine_eq {found found' : List Token}
    (h : found.map Token.word = found'.map Token.word) (line : Int) :
    found.map (Token.mapLine fun _ => line) = found'.map (Token.mapLine fun _ => line) := by
  have hword : ∀ found : List Token, found.map (Token.mapLine fun _ => line) =
      (found.map Token.word).map fun word => ⟨word.kind, word.value, line⟩ := by
    intro found
    rw [List.map_map]
    rfl
  rw [hword, hword, h]

theorem ParseError.withoutLine_eq {g : Int → Int} {error error' : ParseError}
    (h : error.mapLine g = error'.mapLine g) :
    (Failure.ofParse (.error error)).withoutLine =
      (Failure.ofParse (.error error')).withoutLine := by
  obtain ⟨hmessage, htext⟩ := error.mapLine_diagnostic g
  obtain ⟨hmessage', htext'⟩ := error'.mapLine_diagnostic g
  simp only [Failure.ofParse, Failure.withoutLine, ParseError.diagnostic, ← hmessage, ← htext, h,
    ← hmessage', ← htext']

theorem Program.withoutLines_eq {g : Int → Int} {P P' : Program}
    (h : P.mapLines g = P'.mapLines g) : P.withoutLines = P'.withoutLines := by
  have hstatements := congrArg (fun program => Stmt.listWithoutLines program.statements) h
  simp only [mapLines, Stmt.listWithoutLines_listMapLines] at hstatements
  rw [withoutLines, hstatements, withoutLines]

namespace State

/-- The same outcome: success in both cases, or the same failure in both, lines aside, and states
that differ at most in lines inside the bodies of functions. -/
structure SameOutcome (outcome outcome' : Except Failure Unit × State) : Prop where
  result : outcome.1.mapError Failure.withoutLine = outcome'.1.mapError Failure.withoutLine
  state : outcome.2.Alike Stmt.SameButLines outcome'.2

variable {state state' : State}

/-- Programs that differ in lines alone run alike. -/
theorem run_sameOutcome {P P' : Program} (h : P.withoutLines = P'.withoutLines)
    (hstates : state.Alike Stmt.SameButLines state') :
    SameOutcome (state.run P) (state'.run P') := by
  have hstatements : List.Forall₂ Stmt.SameButLines P.statements P'.statements :=
    Stmt.SameButLines.forall₂_iff.mpr (congrArg Program.statements h)
  have halike := Run.Alike.program (fun _ _ => Stmt.SameButLines.matches_of) loopPatience depthLimit
    hstatements
  obtain ⟨hresult, hstate⟩ := halike.perform hstates
  exact ⟨hresult, hstate⟩

/-- What is read where lines do not count has the same outcome. -/
theorem runRead_sameOutcome {g : Int → Int} {read read' : Except ParseStop Program}
    (h : Program.moveRead g read = Program.moveRead g read') (state : State) :
    SameOutcome (state.runRead (read.mapError Failure.ofParse))
      (state.runRead (read'.mapError Failure.ofParse)) := by
  have hsame : state.Alike Stmt.SameButLines state := .refl Stmt.SameButLines.refl state
  rcases read with (error | _ | text) | P <;> rcases read' with (error' | _ | text') | P' <;>
    simp only [Program.moveRead, Except.ok.injEq, Except.error.injEq, ParseStop.error.injEq,
      ParseStop.notNumber.injEq, reduceCtorEq] at h
  · exact ⟨congrArg Except.error (ParseError.withoutLine_eq h), hsame⟩
  · exact ⟨rfl, hsame⟩
  · subst h
    exact ⟨rfl, hsame⟩
  · exact run_sameOutcome (Program.withoutLines_eq h) hsame

end State

namespace Source

theorem program_of_scan {source : String} {found : List Token} (h : Token.scan source = .ok found) :
    program source = (Program.parse found).mapError Failure.ofParse := by
  simp only [program, read, h]
  cases Program.parse found <;> rfl

/-- Lines never matter. Two texts with the same tokens, whatever lines these stand on, run to the
same outcome: they print the same lines, and they succeed both or fail both with an error of the
same kind, with the same message and the same text. So do two programs that are equal but for the
lines of their statements, from any state, and they leave the same globals, lines inside function
bodies aside. -/
theorem lines_never_matter :
    (∀ source source' found found', Token.scan source = .ok found →
      Token.scan source' = .ok found' → found.map Token.word = found'.map Token.word →
        State.SameOutcome (run source) (run source')) ∧
    (∀ (P P' : Program) (state : State), P.withoutLines = P'.withoutLines →
      State.SameOutcome (state.run P) (state.run P')) := by
  constructor
  · intro source source' found found' hscan hscan' hwords
    have hmoved := congrArg Program.parse (Token.map_mapLine_eq hwords 0)
    rw [Program.parse_map_mapLine rfl, Program.parse_map_mapLine rfl] at hmoved
    rw [run, run, program_of_scan hscan, program_of_scan hscan']
    exact State.runRead_sameOutcome hmoved State.initial
  · intro P P' state h
    exact State.run_sameOutcome h (.refl Stmt.SameButLines.refl state)

/-- A name that is missing on line 2, and in the same program laid out so that it is missing on line
5; and a statement out of place whose line is known or not. -/
theorem lines_never_matter_missing :
    State.SameOutcome (run "bola saheb\nhe bol x\nyeto saheb")
        (run "-- say\n\nbola  saheb\n\nhe bol x \nyeto saheb") ∧
      (run "-- say\n\nbola  saheb\n\nhe bol x \nyeto saheb").1 =
        .error (.error ⟨.runtime, "'x' is not declared", some 5, some "x", true⟩) ∧
      State.SameOutcome (State.initial.run ⟨[.breakLoop (some 2)]⟩)
        (State.initial.run ⟨[.breakLoop none]⟩) := by
  have hscan : Token.scan "bola saheb\nhe bol x\nyeto saheb" =
      .ok [⟨.programStart, "bola saheb", 1⟩, ⟨.newline, "\\n", 1⟩, ⟨.print, "he bol", 2⟩,
        ⟨.identifier, "x", 2⟩, ⟨.newline, "\\n", 2⟩, ⟨.programEnd, "yeto saheb", 3⟩,
        ⟨.endOfInput, "", 3⟩] := by
    decide +kernel
  have hscan' : Token.scan "-- say\n\nbola  saheb\n\nhe bol x \nyeto saheb" =
      .ok [⟨.programStart, "bola saheb", 3⟩, ⟨.newline, "\\n", 3⟩, ⟨.print, "he bol", 5⟩,
        ⟨.identifier, "x", 5⟩, ⟨.newline, "\\n", 5⟩, ⟨.programEnd, "yeto saheb", 6⟩,
        ⟨.endOfInput, "", 6⟩] := by
    decide +kernel
  refine ⟨lines_never_matter.1 _ _ _ _ hscan hscan' rfl, by decide +kernel, ?_⟩
  exact lines_never_matter.2 _ _ _ rfl

end Source

end Bol
