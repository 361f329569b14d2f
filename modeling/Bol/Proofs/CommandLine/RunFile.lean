/-
# Running a file

What `bol run` writes and how it ends, in terms of what happens to the text of the file. Bytes that
are UTF-8 are read as text with unified line ends, and the text runs as it would by itself: its
lines are written, and if it fails one report follows. Bytes that are no UTF-8 fail in a way that
is not foreseen, and the report says so.
-/

import Bol.Proofs.CommandLine.FileArgument
import Bol.Proofs.Source.Errors
import Bol.Proofs.Token.LineEnds

namespace Bol

namespace Text

theorem decodeUtf8_toUTF8 (text : String) : decodeUtf8 text.toUTF8 = .ok text := by
  have hdecoded : String.fromUTF8? text.toUTF8 = some text := by
    rw [String.fromUTF8?, String.toUTF8_eq_toByteArray, dif_pos text.isValidUTF8]
    rfl
  rw [decodeUtf8, hdecoded]

/-- Bytes are read as text only if they encode it. -/
theorem eq_toUTF8_of_decodeUtf8 {bytes : ByteArray} {text : String}
    (h : decodeUtf8 bytes = .ok text) : bytes = text.toUTF8 := by
  unfold decodeUtf8 at h
  split at h
  · rename_i found hfound
    cases h
    rw [String.fromUTF8?] at hfound
    split at hfound
    · cases hfound
      rfl
    · cases hfound
  · cases h

end Text

namespace Path

/-- A path from the root starts with a slash. -/
theorem head?_absolute (current path : String) :
    (absolute current path).toList.head? = some '/' := by
  unfold absolute
  dsimp only
  split <;> simp [String.toList_append]

theorem absolute_ne_empty (current path : String) : absolute current path ≠ "" := by
  intro hnone
  have hhead := head?_absolute current path
  rw [hnone] at hhead
  cases hhead

theorem absolute_ne_inputPath (current path : String) :
    absolute current path ≠ Session.inputPath := by
  intro hinput
  have hhead := head?_absolute current path
  rw [hinput] at hhead
  cases hhead

end Path

namespace CommandLine

/-- The report of an error in the text of the file at `path`: where it is, of which kind it is, its
message, and its line if that is known and can be shown. -/
def errorReport (path text : String) (error : Diagnostic) : String :=
  Text.bold (match error.line with | some line => s!"{path}:{line}: " | none => s!"{path}: ") ++
    Text.boldRed "error: " ++ Text.bold s!"{error.kind.name}: " ++ error.message ++
    ((Reporter.new true).register path text).diagnosis error ++ "\n"

/-- How the program ends that runs the text of the file at `path`, by how the text runs: it has
written the lines that were printed, and its status and one report tell of a failure. -/
inductive Ends (path text : String) (printed : Array String) : Except Failure Unit → Exit → Prop
  | ok : Ends path text printed (.ok ()) ⟨0, written printed, ""⟩
  | error (error : Diagnostic) :
      Ends path text printed (.error (.error error))
        ⟨1, written printed, errorReport path text error⟩
  | tooDeep :
      Ends path text printed (.error .tooDeep)
        ⟨1, written printed, errorReport path text Reporter.tooDeep⟩

theorem errorReport_eq {path : String} (hpath : path ≠ "") (text : String) (error : Diagnostic) :
    ((Reporter.new true).register path text).format error false ++ "\n" =
      errorReport path text error := by
  have hlocation : ((Reporter.new true).register path text).location error.line = Text.bold
      (match error.line with | some line => s!"{path}:{line}: " | none => s!"{path}: ") := by
    have hgiven : ((Reporter.new true).register path text).path.getD "" = path := rfl
    unfold Reporter.location
    rw [hgiven]
    split
    · exact absurd rfl hpath
    · rename_i hline
      rw [hline]
    · rename_i hline
      rw [hline]
  rw [Reporter.format, hlocation, errorReport]
  simp

variable {current path : String} (hpath : Session.extension.toList <:+ path.toList)
include hpath

/-- A file with the right name is opened. -/
theorem runFile_eq (content : ByteArray) :
    runFile current path (some content) =
      match Session.decode content with
      | .error error =>
        finish (.new true) "" (some (OpenError.notText error).interruption)
      | .ok text =>
        finish ((Reporter.new true).register (Path.absolute current path) text)
          (written (Source.run text).2.output)
          (match (Source.run text).1 with
            | .ok () => none
            | .error failure => some failure.interruption) := by
  have hcheck : checkPath current path true = none := by
    rw [checkPath, List.isSuffixOf_iff_suffix.mpr hpath]
    rfl
  unfold runFile
  dsimp only [Option.isSome]
  rw [hcheck]
  dsimp only
  unfold Session.openWith
  rw [if_neg (Path.absolute_ne_inputPath current path)]
  dsimp only
  cases Session.decode content with
  | error error => rfl
  | ok text => rfl

/-- A file with text in it ends the program as the text runs. -/
theorem ends_of_decode {content : ByteArray} {text : String}
    (hdecode : Session.decode content = .ok text)
    (hfinished : (Source.run text).1 ≠ .error .unfinished) :
    Ends (Path.absolute current path) text (Source.run text).2.output (Source.run text).1
      (runFile current path (some content)) := by
  rw [runFile_eq hpath, hdecode]
  dsimp only
  have hreport := errorReport_eq (Path.absolute_ne_empty current path) text
  rcases hresult : (Source.run text).1 with failure | ⟨⟩
  · cases failure with
    | error error =>
        change Ends _ _ _ _ ⟨1, _, ((Reporter.new true).register _ text).format error false ++ "\n"⟩
        rw [hreport]
        exact .error error
    | tooDeep =>
        change Ends _ _ _ _
          ⟨1, _, ((Reporter.new true).register _ text).format Reporter.tooDeep false ++ "\n"⟩
        rw [hreport]
        exact .tooDeep
    | unfinished => exact absurd hresult hfinished
    | foreign sort text => exact absurd hresult (Source.run_ne_foreign sort text)
  · exact .ok

omit hpath

/-- What the program does for the name of a file with this content, wherever the file is: it runs
the file, unless it refuses the name because it takes it for a flag. -/
structure RunsByName (current path : String) (content : ByteArray) : Prop where
  requested : IsFileArgument path → request ["run", path] = .ok (.run path)
  runs : IsFileArgument path → ∀ files input, files.read? path = some content →
    run ["run", path] current files input = runFile current path (some content)
  refused : ¬ IsFileArgument path → ∀ files input,
    (run ["run", path] current files input).IsRefusal

theorem runsByName (current : String) (hpath : Session.extension.toList <:+ path.toList)
    (content : ByteArray) : RunsByName current path content where
  requested := (request_run hpath).1
  runs hargument files input hfile := by
    rw [run, (request_run hpath).1 hargument]
    dsimp only
    rw [hfile]
  refused hargument files input := by
    obtain ⟨exit, hrequest, hrefusal⟩ := (request_run hpath).2 hargument
    rw [run, hrequest]
    exact hrefusal

/-- The text that a file is read as. -/
def fileText (text : String) : String := .ofList (Text.unifyLineEnds [] text.toList)

theorem decode_toUTF8 (text : String) : Session.decode text.toUTF8 = .ok (fileText text) := by
  rw [Session.decode, Text.decodeUtf8_toUTF8]
  rfl

theorem run_fileText {text : String} (hreturns : Text.ReturnsPaired text.toList) :
    Source.run (fileText text) = Source.run text := by
  have hread : Source.program (fileText text) = Source.program text := by
    rw [Source.program, Source.program, Source.read, Source.read, fileText,
      Token.scan_unifyLineEnds hreturns]
  rw [Source.run, Source.run, hread]

/-- A program that prints a line and fails on the next one. -/
def ghostly : String := "bola saheb\r\nhe bol barobr\r\nhe bol ghost\r\nyeto saheb"

/-- A file whose name is read as a flag. -/
def flagNamed : Files := ⟨[(["-x.bol"], .file "bola saheb\nyeto saheb".toUTF8)]⟩

/-- The report of an error that is none of the language's. -/
def internalReport (sort text : String) : String :=
  Text.boldRed "[internal] " ++ Text.boldRed "error: " ++ Text.bold "Error: " ++
    s!"unknown error: '{sort}: {text}'" ++ "\n"

theorem internalReport_eq (sort text : String) :
    (Reporter.new true).format (Reporter.unknown sort text) true ++ "\n" =
      internalReport sort text := by
  have hlocation : (Reporter.new true).location (Reporter.unknown sort text).line = "" := rfl
  rw [Reporter.format, hlocation, if_pos rfl, if_pos rfl, String.empty_append, String.append_empty]
  rfl

/-- A byte that no text has in it. -/
def noText : ByteArray := ⟨#[0xff]⟩

theorem noText_ne_toUTF8 (text : String) : noText ≠ text.toUTF8 := by
  have hdecode : Text.decodeUtf8 noText = .error ⟨.invalidStart, 0, 1, 0xff⟩ := by decide +kernel
  intro htext
  rw [htext, Text.decodeUtf8_toUTF8] at hdecode
  cases hdecode

end CommandLine

end Bol
