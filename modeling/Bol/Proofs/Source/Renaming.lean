/-
# Programs with a renamed parameter

It does not matter what a parameter is called. If a function has one of its parameters renamed, then
a program that declares it prints the same lines, succeeds or fails at the same line, and leaves the
same globals, but for the parameters and the bodies of functions. What shows is the name in the
message of an error about it.
-/

import Bol.Proofs.Run.Renaming
import Bol.Proofs.Source.Likeness

namespace Bol

/-- What is reported of two runs: both succeed, or both fail alike, or with faults at the same line
of which the second one names the parameter by its new name. -/
inductive ParameterRenaming.Reports (r : ParameterRenaming) :
    Except Failure Unit → Except Failure Unit → Prop
  | ok : Reports r (.ok ()) (.ok ())
  | same (failure : Failure) : Reports r (.error failure) (.error failure)
  | named {cause cause' : Fault} {line : Option Int} (h : cause.Renamed r.old r.new cause') :
      Reports r (.error (.error ⟨.runtime, cause.message, line, cause.text?, true⟩))
        (.error (.error ⟨.runtime, cause'.message, line, cause'.text?, true⟩))

theorem ParameterRenaming.Results.reports {r : ParameterRenaming} {rel : Unit → Unit → Prop}
    {result result' : Except Stop Unit} (h : r.Results rel result result') :
    r.Reports (result.mapError Failure.ofRun) (result'.mapError Failure.ofRun) := by
  cases h with
  | ok => exact .ok
  | error hstop =>
      cases hstop with
      | fault hcause => exact .named hcause
      | tooDeep => exact .same .tooDeep
      | unfinished => exact .same .unfinished

namespace State

theorem sameButRenaming (r : ParameterRenaming) (state : State) : r.States .plain state state where
  globals := List.forall₂_same.mpr fun binding _ => ⟨rfl, .refl binding.2⟩
  locals := List.forall₂_same.mpr fun _ _ => List.forall₂_same.mpr fun binding _ =>
    ⟨rfl, .refl binding.2⟩
  output := rfl
  functions := rfl

/-- A parameter may be renamed in a function declaration, wherever the declaration stands in a
program and whatever else uses the two names: from any state, the program prints the same lines, it
succeeds or it fails at the same line, and it leaves the same names bound to the same values,
functions being declared alike but for the renaming. -/
theorem run_renamed (r : ParameterRenaming) {program program' : Program}
    (h : List.Forall₂ r.Replaced program.statements program'.statements) (state : State) :
    r.Reports (state.run program).1 (state.run program').1 ∧
      (state.run program).2.output = (state.run program').2.output ∧
      (state.run program).2.globals.Related Eq r.Values (state.run program').2.globals := by
  have hagrees := ParameterRenaming.Runs.program loopPatience depthLimit h state state
    (state.sameButRenaming r) fun hframe => by cases hframe
  rw [State.run, State.run, perform_apply, perform_apply]
  exact ⟨hagrees.results.reports, hagrees.states.output, hagrees.states.globals⟩

/-- A function that declares its parameter anew in a block, calls itself there, declares a function
with a parameter of the same name, and at last calls its parameter, which is none. -/
def callsParameter : ParameterRenaming where
  name := "f"
  params := ["x"]
  body :=
    [.ifThen (.name "x")
      [.declare "x" (.boolean false) (some 3), .print (.name "x") (some 4),
        .returnValue (some (.call "f" [.name "x"])) (some 5)] .nothing (some 2),
      .function "g" ["x"] [.returnValue (some (.name "x")) (some 7)] (some 7),
      .print (.call "g" [.name "x"]) (some 8), .returnValue (some (.call "x" [])) (some 9)]
  line := some 1
  old := "x"
  new := "y"
  old_mem_params := by decide
  old_notMem_functionNames := by decide
  new_notMem_params := by decide
  new_notMem_names := by decide

/-- The parameter is called `x` in the first program and `y` in the second one. -/
theorem run_renamed_callsParameter :
    let main : Stmt := .print (.call "f" [.boolean true]) (some 11)
    let program : Program := ⟨[callsParameter.before, main]⟩
    let program' : Program := ⟨[callsParameter.after, main]⟩
    callsParameter.Reports (State.initial.run program).1 (State.initial.run program').1 ∧
      (State.initial.run program).2.output = #["khota", "khota"] ∧
      (State.initial.run program').2.output = #["khota", "khota"] ∧
      (State.initial.run program).1 =
        .error (.error ⟨.runtime, "'x' is not a function", some 9, some "x", true⟩) ∧
      (State.initial.run program').1 =
        .error (.error ⟨.runtime, "'y' is not a function", some 9, some "y", true⟩) := by
  intro main program program'
  have hprograms : List.Forall₂ callsParameter.Replaced program.statements program'.statements :=
    .cons .here (.cons (.same main) .nil)
  obtain ⟨hreports, houtput, -⟩ := run_renamed callsParameter hprograms State.initial
  have hprinted : (State.initial.run program).2.output = #["khota", "khota"] := by decide +kernel
  exact ⟨hreports, hprinted, houtput.symm.trans hprinted, by decide +kernel, by decide +kernel⟩

end State

end Bol
