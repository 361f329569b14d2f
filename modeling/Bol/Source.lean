/-
# Running source text

From a text to what it prints: the text is read into tokens, the tokens into a program, and the
program runs on a state. The first of these that fails ends the work; a run that fails keeps the
lines it has printed and the names it has declared.
-/

import Bol.Diagnostic
import Bol.Eval

namespace Bol

/-- How many rounds of a single loop are watched before a run counts as unfinished: two to the
power of 62. -/
def loopPatience : Nat := 0x4000000000000000

namespace Source

/-- The tokens of a text, read by `parse`. -/
def read (parse : List Token → Except ParseStop Program) (source : String) :
    Except Failure Program :=
  match Token.scan source with
  | .error error => .error (.error error.diagnostic)
  | .ok tokens =>
    match parse tokens with
    | .error stop => .error (.ofParse stop)
    | .ok program => .ok program

/-- A text holds a program if its tokens do. -/
theorem read_eq_ok_iff {parse : List Token → Except ParseStop Program} {source : String}
    {found : Program} :
    read parse source = .ok found ↔
      ∃ tokens, Token.scan source = .ok tokens ∧ parse tokens = .ok found := by
  unfold read
  cases hscan : Token.scan source with
  | error error => simp
  | ok tokens => cases hparse : parse tokens <;> simp [hparse]

/-- The program that a text with program markers holds. -/
def program (source : String) : Except Failure Program := read Program.parse source

/-- The statements that a text without program markers holds. -/
def fragment (source : String) : Except Failure Program := read Program.parseFragment source

end Source

/-- Runs a computation within the bounds that hold for every run of source text. -/
def State.perform {α : Type} (state : State) (act : Run α) : Except Failure α × State :=
  match act state with
  | (.ok value, after) => (.ok value, after)
  | (.error stop, after) => (.error (.ofRun stop), after)

/-- Runs a program on a state. -/
def State.run (state : State) (program : Program) : Except Failure Unit × State :=
  state.perform (program.run loopPatience depthLimit)

/-- Runs the program that was read from a text, if it could be read. -/
def State.runRead (state : State) : Except Failure Program → Except Failure Unit × State
  | .error failure => (.error failure, state)
  | .ok program => state.run program

/-- Runs a text with program markers from the start. -/
def Source.run (source : String) : Except Failure Unit × State :=
  State.initial.runRead (Source.program source)

/-- The same state with no lines printed yet. -/
def State.clearOutput (state : State) : State := { state with output := #[] }

end Bol
