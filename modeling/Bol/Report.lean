/-
# Reports

How errors are shown to a user: where the error is, what kind it is, its message, and the line of
the source with the offending text marked. A `Reporter` knows the sources that were announced to
it and the path of the one that is running.

Colouring is the work of a library, for which `Text.bold` and `Text.boldRed` stand. They assume that
colours are on and that the terminal knows the ANSI escape sequences: a sequence is always written,
wherever the report goes.
-/

import Bol.Diagnostic
import Bol.Text.Lines

namespace Bol

namespace Text

/-- The sequence that ends all colouring. -/
def resetColour : String := "\x1b[0m"

def bold (text : String) : String := "\x1b[1m" ++ text ++ resetColour

def boldRed (text : String) : String := "\x1b[1m\x1b[31m" ++ text ++ resetColour

end Text

namespace Report

/-- The first place where `text` occurs in `line`, which starts at place `start`. -/
def find? (text : List Char) (start : Nat) : List Char → Option Nat
  | [] => if text.isEmpty then some start else none
  | c :: rest =>
    if text.isPrefixOf (c :: rest) then some start else find? text (start + 1) rest

/-- The place of the text to mark; empty text is not marked. -/
def marked? (line : List Char) : Option String → Option Nat
  | none => none
  | some text => if text.isEmpty then none else find? text.toList 0 line

/-- The line with the first occurrence of `text` highlighted and underlined. If it does not
occur, the line alone. -/
def diagnose (line : String) (text : Option String) : String :=
  let shown := Text.trimEnd line.toList
  match marked? shown text with
  | none => "  " ++ String.ofList shown
  | some start =>
    let width := (text.getD "").length
    "  " ++ String.ofList (shown.take start)
      ++ Text.boldRed (String.ofList ((shown.drop start).take width))
      ++ String.ofList (shown.drop (start + width)) ++ "\n"
      ++ "  " ++ String.ofList (List.replicate start ' ')
      ++ Text.boldRed (String.ofList ('^' :: List.replicate (width - 1) '~'))

end Report

/-- What is known when an error has to be reported. -/
structure Reporter where
  /-- Whether a reported error ends the program. -/
  fatal : Bool
  /-- The announced sources by their paths, the last announced first, as lists of lines. -/
  sources : List (String × List String)
  /-- The path of the source that is running. -/
  path : Option String

namespace Reporter

/-- A reporter that knows no source yet. -/
def new (fatal : Bool) : Reporter := ⟨fatal, [], none⟩

/-- Announces the source that runs next. -/
def register (reporter : Reporter) (path source : String) : Reporter :=
  { reporter with
    sources := (path, (Text.lines source.toList).map String.ofList) :: reporter.sources
    path := some path }

/-- A line of the running source, counted from one. -/
def sourceLine? (reporter : Reporter) (line : Option Int) : Option String := do
  let lines ← reporter.sources.lookup (← reporter.path)
  let line ← line
  if 1 ≤ line then lines[(line - 1).toNat]? else none

/-- Where an error is: the path, and the line if it is known. -/
def location (reporter : Reporter) (line : Option Int) : String :=
  match reporter.path.getD "", line with
  | "", _ => ""
  | path, none => Text.bold s!"{path}: "
  | path, some line => Text.bold s!"{path}:{line}: "

/-- The source line with the offending text marked, if it is to be shown and is not blank. -/
def diagnosis (reporter : Reporter) (error : Diagnostic) : String :=
  match reporter.sourceLine? error.line with
  | some line =>
    if error.showsLine && !(Text.trim line.toList).isEmpty then
      "\n" ++ Report.diagnose line error.text
    else ""
  | none => ""

/-- The report of an error. An internal one is the fault of no user, so no source is shown. -/
def format (reporter : Reporter) (error : Diagnostic) (internal : Bool) : String :=
  reporter.location error.line
    ++ (if internal then Text.boldRed "[internal] " else "")
    ++ Text.boldRed "error: " ++ Text.bold s!"{error.kind.name}: " ++ error.message
    ++ (if internal then "" else reporter.diagnosis error)

end Reporter

/-- How guarded work ends early. -/
inductive Interruption
  | error (diagnostic : Diagnostic)
  /-- The user interrupted the work. -/
  | keyboard
  | tooDeep
  /-- The work asked to end the program. -/
  | exit (status : Int)
  /-- An error that is none of the language's: its sort and its text. -/
  | foreign (sort text : String)

/-- What becomes of guarded work: everything goes on, the program ends, or an error of the given
sort goes on to whoever guards the guard. -/
inductive Guarded
  | proceeds
  | exits (status : Int)
  | propagates (sort : String)
  deriving DecidableEq, Repr

namespace Reporter

/-- What becomes of work whose error was reported, if the error alone does not end it. -/
def afterReport (reporter : Reporter) (otherwise : Guarded) : Guarded :=
  if reporter.fatal then .exits 1 else otherwise

def keyboardInterrupt : Diagnostic := .unplaced .general "keyboard interrupt"

def tooDeep : Diagnostic := .unplaced .runtime "maximum recursion depth exceeded"

/-- An error that is none of the language's. -/
def unknown (sort text : String) : Diagnostic :=
  ⟨.general, s!"unknown error: '{sort}: {text}'", none, none, true⟩

/-- Deals with an interruption: what becomes of the work, and the report. -/
def handle (reporter : Reporter) : Interruption → Guarded × String
  | .error error => (reporter.afterReport .proceeds, reporter.format error false ++ "\n")
  | .keyboard => (reporter.afterReport .proceeds, reporter.format keyboardInterrupt false ++ "\n")
  | .tooDeep => (reporter.afterReport .proceeds, reporter.format tooDeep false ++ "\n")
  | .exit status => (.exits status, "")
  | .foreign sort text =>
    (reporter.afterReport (.propagates sort), reporter.format (unknown sort text) true ++ "\n")

end Reporter

/-- How a failed run interrupts the work. -/
def Failure.interruption : Failure → Interruption
  | .error diagnostic => .error diagnostic
  | .tooDeep => .tooDeep
  | .unfinished => .foreign "Unfinished" "a loop went on for too long"
  | .foreign sort text => .foreign sort text

end Bol
