/-
# The program

The command line as a program: it reads the file or the input, and writes what the command line
makes of it. The shell answers each line as it comes.
-/

import Bol.CommandLine

namespace Bol

open CommandLine

/-- Writes what is left to write and gives the status. -/
def writeExit (exit : Exit) : IO UInt32 := do
  let stdout ← IO.getStdout
  stdout.putStr exit.stdout
  stdout.flush
  (← IO.getStderr).putStr exit.stderr
  return exit.status.toUInt32

/-- The content of the file at a path, if there is such a file. -/
def readFile? (path : String) : IO (Option ByteArray) :=
  try some <$> IO.FS.readBinFile path
  catch _ => return none

/-- A line of the input without its end; none at the end of the input. -/
def readLine? : IO (Option String) := do
  let line ← (← IO.getStdin).getLine
  if line.isEmpty then return none
  else return some (String.ofList (if line.toList.getLast? = some '\n' then line.toList.dropLast
    else line.toList))

/-- Feeds a shell with the input until it ends or the shell is asked to. -/
partial def keepShell (shell : Shell) : IO UInt32 := do
  let stdout ← IO.getStdout
  stdout.putStr shell.prompt
  stdout.flush
  match ← readLine? with
  | none => writeExit ⟨0, (Shell.obey .endOfInput).shown, ""⟩
  | some line =>
    let (shell, reply) := shell.feed line
    stdout.putStr (written reply.printed.toArray ++ reply.shown)
    stdout.flush
    (← IO.getStderr).putStr reply.reported
    if reply.stop then return 0 else keepShell shell

end Bol

open Bol Bol.CommandLine in
/-- Runs the command line on the arguments of the process. -/
def main (args : List String) : IO UInt32 := do
  match request args with
  | .error exit => writeExit exit
  | .ok .explain => writeExit ⟨0, help ++ hint, ""⟩
  | .ok (.run path) =>
    let current ← IO.currentDir
    writeExit (runFile current.toString path (← readFile? path))
  | .ok .shell =>
    (← IO.getStdout).putStr Shell.intro
    keepShell newShell
