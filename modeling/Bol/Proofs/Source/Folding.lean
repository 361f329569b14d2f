/-
# Folding preserves meaning

That a reader takes the signs of number literals into the literals makes no difference that a
program could show: what it reads is the fold of what it would read without doing so, and a program
and its fold print the same lines, end alike and leave the same globals, but for the bodies of
functions, which are folded like the rest. Only a bound on the nesting can tell them apart, and it
does so only if it is reached.
-/

import Bol.Proofs.Run.Folding
import Bol.Proofs.Source.Likeness

namespace Bol

theorem Failure.mapError_ofRun_eq_tooDeep {result : Except Stop Unit} :
    result.mapError Failure.ofRun = .error .tooDeep ↔ result = .error .tooDeep := by
  rcases result with (_ | _ | _) | _ <;> simp [Except.mapError, Failure.ofRun]

namespace Program

/-- Folding preserves meaning. From any state, a program that is not nested too deeply ends as its
fold does, with the same error if it fails, prints the same lines, and leaves the same globals, the
statements in the bodies of functions being folded or not; and it is not nested too deeply where
there is somewhat more depth than its fold needs. What is read is the fold of what is read with all
signs left where they are, or the same error, if no `nahi` is spelled as a minus sign. -/
theorem fold_preserves_meaning :
    (∀ (P : Program) (patience depth : Nat) (state : State),
      (state.perform (P.run patience depth)).1 ≠ .error .tooDeep →
        (state.perform (P.run patience depth)).1 = (state.perform (P.fold.run patience depth)).1 ∧
        (state.perform (P.run patience depth)).2.output =
          (state.perform (P.fold.run patience depth)).2.output ∧
        (state.perform (P.run patience depth)).2.globals.Alike Stmt.FoldsTo
          (state.perform (P.fold.run patience depth)).2.globals) ∧
    (∀ P : Program, ∃ lag, ∀ (patience depth : Nat) (state : State),
      (state.perform (P.fold.run patience depth)).1 ≠ .error .tooDeep →
        (state.perform (P.run patience (lag + depth))).1 ≠ .error .tooDeep) ∧
    ∀ (depth : Nat) (ts : List Token), (∀ t ∈ ts, t.KeepsSpelling) →
      parseWithin depth ts = (parseUnfoldedWithin depth ts).map fold ∧
        parseFragmentWithin depth ts = (parseFragmentUnfoldedWithin depth ts).map fold := by
  simp only [State.perform_apply, ne_eq, Failure.mapError_ofRun_eq_tooDeep]
  refine ⟨fun P patience depth state hdeep => ?_,
    fun P => ⟨sizeOf P, fun patience depth state => ?_⟩, fun depth ts hts => ?_⟩
  · obtain ⟨hresult, hafter⟩ := P.run_fold hdeep
    exact ⟨hresult.mapError_eq fun _ _ hline => hline trivial, hafter.output, hafter.globals⟩
  · exact P.run_ne_tooDeep_of_fold
  · exact ⟨parseWithin_eq_map_fold depth hts, parseFragmentWithin_eq_map_fold depth hts⟩

/-- A program that negates a literal twice, and declares a function that negates one. -/
def signed : Program :=
  ⟨[.declare "x" (.unary .negate (.unary .negate (.number 2))) (some 1),
    .function "f" [] [.returnValue (some (.unary .negate (.number 1))) (some 2)] (some 2)]⟩

/-- The tokens of a statement that prints a literal with a sign before and in parentheses. -/
def signedTokens : List Token :=
  [⟨.print, "he bol", 1⟩, ⟨.minus, "-", 1⟩, ⟨.leftParen, "(", 1⟩, ⟨.minus, "-", 1⟩,
    ⟨.number, "2", 1⟩, ⟨.rightParen, ")", 1⟩, ⟨.endOfInput, "", 1⟩]

theorem fold_preserves_meaning_signed :
    (State.initial.perform (signed.run 0 9)).1 = .ok () ∧
      (State.initial.perform (signed.fold.run 0 9)).1 = .ok () ∧
      (State.initial.perform (signed.run 0 9)).2.globals.Alike Stmt.FoldsTo
        (State.initial.perform (signed.fold.run 0 9)).2.globals ∧
      parseFragment signedTokens =
        .ok (fold ⟨[.print
          (.unary .negate (.unary .negate (.number (Number.ofDecimal false ⟨2, 0⟩))))
          (some 1)]⟩) := by
  have hrun : (State.initial.perform (signed.run 0 9)).1 = .ok () := rfl
  obtain ⟨hsame, -, hglobals⟩ :=
    fold_preserves_meaning.1 signed 0 9 .initial (by rw [hrun]; nofun)
  have hread := (fold_preserves_meaning.2.2 depthLimit signedTokens (by decide)).2
  exact ⟨hrun, hsame.symm.trans hrun, hglobals, hread⟩

/-- The tokens of a statement that prints a literal with a `nahi` before it that is spelled as a
sign. -/
def spelledSignTokens : List Token :=
  [⟨.print, "he bol", 1⟩, ⟨.notWord, "-", 1⟩, ⟨.number, "5", 1⟩, ⟨.endOfInput, "", 1⟩]

/-- A sign that was made as a `nahi` is left before the literal. -/
theorem fold_of_spelledSign :
    parseFragment spelledSignTokens =
        .ok ⟨[.print (.unary .negate (.number (Number.ofDecimal false ⟨5, 0⟩))) (some 1)]⟩ ∧
      parseFragment spelledSignTokens ≠
        (parseFragmentUnfoldedWithin depthLimit spelledSignTokens).map fold := by
  have hread : parseFragment spelledSignTokens =
      .ok ⟨[.print (.unary .negate (.number (Number.ofDecimal false ⟨5, 0⟩))) (some 1)]⟩ := rfl
  have hunfolded : (parseFragmentUnfoldedWithin depthLimit spelledSignTokens).map fold =
      .ok ⟨[.print (.number (-Number.ofDecimal false ⟨5, 0⟩)) (some 1)]⟩ := rfl
  refine ⟨hread, fun hsame => ?_⟩
  rw [hread, hunfolded] at hsame
  cases hsame

end Program

end Bol
