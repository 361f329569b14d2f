/-
# The interactive shell

The shell is fed line by line. A line that is exactly a command is obeyed; any other is program
text, which is collected until its braces are closed and then run in the shell's session. Blank
lines count only within such a text.
-/

import Bol.Session

namespace Bol

/-- A session and the lines that wait for a closing brace. -/
structure Shell where
  session : Session
  pending : List String

/-- What a line made the shell do: the lines that the program printed, what the shell itself
printed, what was reported, and whether the shell was asked to end. -/
structure Shell.Reply where
  printed : List String
  shown : String
  reported : String
  stop : Bool
  deriving DecidableEq, Repr

namespace Shell

/-- What the program is, in one line. -/
def banner : String := "Bol interpreter :: Python backend"

/-- What a shell says before its first prompt. -/
def intro : String := s!"{banner}\nType '?' or 'help' for more information.\n"

def help : String :=
  "Welcome to the Bol interpreter!\n\n" ++
  "Type statements without 'bola saheb'/'yeto saheb': they run immediately and\n" ++
  "everything you declare stays available for the rest of the session.\n\n" ++
  "Try it out by typing 'he ghe x = 10', then 'he bol x * 2'. Blocks can span\n" ++
  "several lines: the prompt changes to '. ' until every '\x7b' is closed.\n"

/-- What is shown when a line is expected; within a text it is another one. -/
def prompt (shell : Shell) : String := if shell.pending.isEmpty then "> " else ". "

/-- The lines that are commands. -/
inductive Command
  | help | exit | endOfInput
  deriving DecidableEq, Repr

def Command.ofLine? : String → Option Command
  | "help" | "?" => some .help
  | "exit" => some .exit
  | "EOF" => some .endOfInput
  | _ => none

/-- Obeys a command. -/
def obey : Command → Reply
  | .help => ⟨[], Shell.help, "", false⟩
  | .exit => ⟨[], "", "", true⟩
  | .endOfInput => ⟨[], "\n", "", true⟩

/-- What the shell does about a line. -/
inductive Action
  | obey (command : Command)
  | execute (text : String)
  /-- Nothing, for now. -/
  | wait
  deriving DecidableEq, Repr

/-- The text that was collected, with a line feed between lines. -/
def joined (lines : List String) : String := "\n".intercalate lines

/-- Decides about a line, which holds no line feed, given the lines that wait: the lines that wait
afterwards, and what is to be done. -/
def react (pending : List String) (line : String) : List String × Action :=
  let word := String.ofList (Text.trim line.toList)
  match Command.ofLine? word with
  | some command => (pending, .obey command)
  | none =>
    if word = "" then (if pending.isEmpty then [] else pending ++ [""], .wait)
    else
      let lines := pending ++ [line]
      if Session.needsMore (joined lines) then (lines, .wait) else ([], .execute (joined lines))

/-- Runs a text in a session and reports the error it fails with. -/
def execute (session : Session) (text : String) : Session × Reply :=
  let fresh := { session with state := session.state.clearOutput }
  let (result, session) := fresh.add text
  let reported :=
    match result with
    | .ok () => ""
    | .error failure => (session.reporter.handle failure.interruption).2
  (session, ⟨session.state.output.toList, "", reported, false⟩)

/-- Does what was decided. -/
def perform (session : Session) : Action → Session × Reply
  | .obey command => (session, obey command)
  | .execute text => execute session text
  | .wait => (session, ⟨[], "", "", false⟩)

/-- Takes a line, which holds no line feed. -/
def feed (shell : Shell) (line : String) : Shell × Reply :=
  let (pending, action) := react shell.pending line
  let (session, reply) := perform shell.session action
  (⟨session, pending⟩, reply)

end Shell

end Bol
