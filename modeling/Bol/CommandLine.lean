/-
# The command line

What the program does for its arguments: it runs a file, or it keeps a shell, or it explains
itself. The functions here take the files and the input as values and give all output at once.
-/

import Bol.CommandLine.Arguments
import Bol.Shell

namespace Bol.CommandLine

def version : String := "1.0.0"

def usage : String := "bol [-h] [--version] \x7brun,shell\x7d ..."

def runUsage : String := "bol run [-h] file"

def shellUsage : String := "bol shell [-h]"

def helpLine : String := "  -h, --help   show this help message and exit\n"

def help : String :=
  s!"usage: {usage}\n\n{Shell.banner}\n\n" ++
  "positional arguments:\n  \x7brun,shell\x7d\n" ++
  "    run        execute a Bol program\n" ++
  "    shell      start the interactive shell\n\n" ++
  s!"options:\n{helpLine}" ++
  "  --version    show program's version number and exit\n"

def runHelp : String :=
  s!"usage: {runUsage}\n\n" ++
  s!"positional arguments:\n  file        program to run (must end in '{Session.extension}')\n\n" ++
  "options:\n  -h, --help  show this help message and exit\n"

def shellHelp : String :=
  s!"usage: {shellUsage}\n\noptions:\n  -h, --help  show this help message and exit\n"

/-- What is shown after the help when nothing was asked for. -/
def hint : String := "\n" ++ Text.bold "example:" ++ " bol run programs/factorial.bol\n"

/-- The flag that asks for a help text. -/
def helpFlag (text : String) : Flag := ⟨["-h", "--help"], ⟨0, text, ""⟩⟩

/-- The program as a whole, whose slot is for a command. -/
def bol : Command :=
  ⟨"bol", usage, [helpFlag help, ⟨["--version"], ⟨0, s!"bol {version}\n", ""⟩⟩], .command⟩

def runCommand : Command := ⟨"bol run", runUsage, [helpFlag runHelp], .single⟩

def shellCommand : Command := ⟨"bol shell", shellUsage, [helpFlag shellHelp], .nothing⟩

/-- What the program is asked to do. -/
inductive Request
  | explain
  | run (path : String)
  | shell
  deriving DecidableEq, Repr

/-- The command with the given name, applied to arguments; and the arguments it leaves over. -/
def command (args : List String) : Except Exit (Request × List String) :=
  match args with
  | [] => .ok (.explain, [])
  | "run" :: args => do
    match ← runCommand.read args with
    | (none, _) => .error (runCommand.refuse "the following arguments are required: file")
    | (some filled, left) =>
      -- the first `--` only ends the flags; what is left of the slot is the path
      return (.run ((filled.erase "--").headD ""), left)
  | "shell" :: args => do
    let (_, left) ← shellCommand.read args
    return (.shell, left)
  | name :: _ =>
    .error (bol.refuse
      s!"argument command: invalid choice: {Text.quoted name} (choose from 'run', 'shell')")

/-- What the arguments of the program ask for. -/
def request (args : List String) : Except Exit Request := do
  let (filled, left) ← bol.read args
  let (request, more) ← command (filled.getD [])
  let unused := left ++ more
  if unused = [] then return request
  else .error (bol.refuse ("unrecognized arguments: " ++ " ".intercalate unused))

/-- Printed lines as they are written. -/
def written (lines : Array String) : String :=
  lines.foldl (fun text line => text ++ line ++ "\n") ""

/-- The end of guarded work: what was printed, and the report if it was interrupted. -/
def finish (reporter : Reporter) (printed : String) : Option Interruption → Exit
  | none => ⟨0, printed, ""⟩
  | some interruption =>
    match reporter.handle interruption with
    | (.proceeds, report) => ⟨0, printed, report⟩
    | (.exits status, report) => ⟨status.toNat, printed, report⟩
    | (.propagates _, report) => ⟨1, printed, report⟩

/-- Why a path cannot be that of a program, given whether it leads to a file. -/
def checkPath (current path : String) (found : Bool) : Option Diagnostic :=
  if !Session.extension.toList.isSuffixOf path.toList then
    let name := Path.lastName path
    let extension := Session.extension
    some (.unplaced .general
      s!"wrong file extension: '{name}' (Bol programs end in '{extension}')")
  else if !found then
    some (.unplaced .general s!"file not found: '{Path.absolute current path}'")
  else none

/-- Runs the file that a path leads to from the directory `current`, given its content if there
is such a file. -/
def runFile (current path : String) (content : Option ByteArray) : Exit :=
  let reporter := Reporter.new true
  match checkPath current path content.isSome with
  | some problem => finish reporter "" (some (.error problem))
  | none =>
    match Session.openWith reporter (Path.absolute current path) false content with
    | .error problem => finish reporter "" (some problem.interruption)
    | .ok session =>
      let (result, session) := session.run
      finish session.reporter (written session.state.output)
        (match result with
          | .ok () => none
          | .error failure => some failure.interruption)

/-- The shell that the program keeps: interactive, without a file. -/
def newShell : Shell :=
  ⟨⟨Session.inputPath, "", Session.reporterFor (Reporter.new true) true, .initial⟩, []⟩

/-- Feeds a shell with lines and then the end of the input, after what was written so far. -/
def converse (shell : Shell) (stdout stderr : String) : List String → Exit
  | [] => ⟨0, stdout ++ shell.prompt ++ (Shell.obey .endOfInput).shown, stderr⟩
  | line :: rest =>
    let prompt := shell.prompt
    let (shell, reply) := shell.feed line
    let stdout := stdout ++ prompt ++ written reply.printed.toArray ++ reply.shown
    let stderr := stderr ++ reply.reported
    if reply.stop then ⟨0, stdout, stderr⟩ else converse shell stdout stderr rest

/-- The lines of the input; the last one may lack its end. -/
def inputLines (input : String) : List String :=
  let lines := (Text.lines input.toList).map String.ofList
  if lines.getLast? = some "" then lines.dropLast else lines

/-- Runs the program with the given arguments in the directory `current`, below which there are
the given files. -/
def run (args : List String) (current : String) (files : Files) (input : String) : Exit :=
  match request args with
  | .error exit => exit
  | .ok .explain => ⟨0, help ++ hint, ""⟩
  | .ok (.run path) => runFile current path (files.read? path)
  | .ok .shell => converse newShell Shell.intro "" (inputLines input)

end Bol.CommandLine
