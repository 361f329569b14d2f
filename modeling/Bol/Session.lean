/-
# Sessions

A session runs sources one after the other on the same state, so that what one declares the next
can use. It belongs to a file, or it is interactive; an interactive session goes on after errors,
and it need not have a file.
-/

import Bol.Files
import Bol.Report
import Bol.Source
import Bol.Text.Utf8

namespace Bol

/-- A session: the path that errors mention, the text of its file, and what it has come to. -/
structure Session where
  path : String
  source : String
  reporter : Reporter
  state : State

/-- Why a session cannot be opened. -/
inductive OpenError
  /-- The path of sessions without a file, for a session that needs one. -/
  | reserved
  | unreadable (path : String)
  | notText (error : Text.Utf8Error)
  deriving DecidableEq, Repr

namespace Session

/-- The path of interactive sessions without a file. -/
def inputPath : String := "<in>"

/-- The ending of the names of program files. -/
def extension : String := ".bol"

end Session

/-- How a session that cannot be opened interrupts the work. -/
def OpenError.interruption : OpenError → Interruption
  | .reserved => .error (.unplaced .general s!"'{Session.inputPath}' is a reserved filename")
  | .unreadable path => .error (.unplaced .general s!"'{path}' could not be opened")
  | .notText error => .foreign "UnicodeDecodeError" error.message

namespace Session

/-- The reporter of a session: errors do not end an interactive one. -/
def reporterFor (reporter : Reporter) (interactive : Bool) : Reporter :=
  if interactive then { reporter with fatal := false } else reporter

/-- The text of a file: UTF-8, with line feeds for all line ends. -/
def decode (content : ByteArray) : Except Text.Utf8Error String :=
  (Text.decodeUtf8 content).map fun text => .ofList (Text.unifyLineEnds [] text.toList)

/-- Opens a session, given the content of the file that its path leads to, if there is one. -/
def openWith (reporter : Reporter) (path : String) (interactive : Bool)
    (content : Option ByteArray) : Except OpenError Session :=
  let reporter := reporterFor reporter interactive
  if path = inputPath then
    if interactive then .ok ⟨path, "", reporter, .initial⟩ else .error .reserved
  else
    match content with
    | none => .error (.unreadable path)
    | some content =>
      match decode content with
      | .error error => .error (.notText error)
      | .ok source => .ok ⟨path, source, reporter.register path source, .initial⟩

/-- Runs the session's file. -/
def run (session : Session) : Except Failure Unit × Session :=
  let (result, state) := session.state.runRead (Source.program session.source)
  (result, { session with state })

/-- Runs statements without program markers. -/
def add (session : Session) (text : String) : Except Failure Unit × Session :=
  let (result, state) := session.state.runRead (Source.fragment text)
  (result, { session with state, reporter := session.reporter.register session.path text })

/-- Whether a text has more opening than closing braces, so that more of it is to be expected. -/
def needsMore (text : String) : Bool :=
  text.toList.count '\x7d' < text.toList.count '\x7b'

end Session

end Bol
