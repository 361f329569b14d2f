/-
# Diagnostics

What is told about an error, whatever part of the work it comes from: its kind, a message, and
where known the line and the text to blame.
-/

import Bol.Fault
import Bol.Program.Parse
import Bol.Token.Scan

namespace Bol

/-- The parts of the work that errors come from; `general` errors come from none of them. -/
inductive ErrorKind
  | general | lex | parse | runtime
  deriving DecidableEq, Repr

def ErrorKind.name : ErrorKind → String
  | general => "Error"
  | lex => "LexError"
  | parse => "ParseError"
  | runtime => "RuntimeError"

structure Diagnostic where
  kind : ErrorKind
  message : String
  line : Option Int
  /-- The offending text, to be marked in its line. -/
  text : Option String
  /-- Whether a report may show the line. -/
  showsLine : Bool
  deriving DecidableEq, Repr

namespace Diagnostic

/-- An error that has no place in any source. -/
def unplaced (kind : ErrorKind) (message : String) : Diagnostic :=
  ⟨kind, message, none, none, false⟩

/-- The message with the line in front of it. -/
def describe (diagnostic : Diagnostic) : String :=
  match diagnostic.line with
  | some line => s!"[line {line}] {diagnostic.message}"
  | none => diagnostic.message

end Diagnostic

def LexError.diagnostic (error : LexError) : Diagnostic :=
  ⟨.lex, error.message, some error.line, some error.text, true⟩

def ParseError.diagnostic (error : ParseError) : Diagnostic :=
  ⟨.parse, error.message, some error.token.line, error.text?, true⟩

def RuntimeError.diagnostic (error : RuntimeError) : Diagnostic :=
  ⟨.runtime, error.fault.message, error.line, error.fault.text?, true⟩

/-- Why a source does not run to its end. -/
inductive Failure
  | error (diagnostic : Diagnostic)
  /-- The source or its run was nested more deeply than it may be. -/
  | tooDeep
  /-- A loop went on for longer than it was watched. -/
  | unfinished
  /-- An error that is none of the language's: its sort and its text. -/
  | foreign (sort text : String)
  deriving DecidableEq, Repr

def Failure.ofParse : ParseStop → Failure
  | .error cause => .error cause.diagnostic
  | .tooDeep => .tooDeep
  | .notNumber text =>
    .foreign "ValueError" s!"could not convert string to float: {Text.quoted text}"

def Failure.ofRun : Stop → Failure
  | .fault cause => .error cause.diagnostic
  | .tooDeep => .tooDeep
  | .unfinished => .unfinished

end Bol
