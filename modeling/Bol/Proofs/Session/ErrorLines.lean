/-
# The line that is shown with an error

A session shows an error with a line of the text that it was given last. Whatever the error comes
from, a character, a token or a statement, stands on a line with that number in one of the texts
that the session has read, and if that is the text given last, the right line is shown. It need not
be: a function that one text declares may be called by a later one, and then the error comes from a
statement of the earlier text.
-/

import Bol.Proofs.Program.Blame
import Bol.Proofs.Source.Places
import Bol.Proofs.Text.Lines
import Bol.Session

namespace Bol

/-! ## Shown lines -/

/-- The reporter shows errors in lines of `text`. -/
def Reporter.Shows (reporter : Reporter) (text : String) : Prop :=
  ∃ path, reporter.path = some path ∧
    reporter.sources.lookup path = some ((Text.lines text.toList).map String.ofList)

namespace Reporter

theorem shows_register (reporter : Reporter) (path text : String) :
    (reporter.register path text).Shows text := ⟨path, rfl, List.lookup_cons_self⟩

/-- The line with the number of a place is the line around it. -/
theorem Shows.sourceLine?_eq {reporter : Reporter} {text : String} (h : reporter.Shows text)
    {before after : List Char} (htext : before ++ after = text.toList) :
    reporter.sourceLine? (some (Piece.lineAfter before)) =
      some (String.ofList (Text.lineAround before after)) := by
  obtain ⟨path, hpath, hsource⟩ := h
  have hfirst : 1 ≤ Piece.lineAfter before := by
    unfold Piece.lineAfter
    omega
  have hindex : (Piece.lineAfter before - 1).toNat = before.count '\n' := by
    unfold Piece.lineAfter
    omega
  have hline := Text.lines_getElem?_count before after
  simp only [sourceLine?, hpath, hsource, Option.bind_eq_bind, Option.bind_some, if_pos hfirst,
    hindex, List.getElem?_map, ← htext, hline, Option.map_some]

end Reporter

namespace Session

/-! ## Calls -/

/-- What a session is asked to do: to run a text, or to run its file. -/
inductive Call
  | add (text : String)
  | run

/-- The text that a call reads in a session whose file has the given text. -/
def Call.text (source : String) : Call → String
  | add text => text
  | run => source

/-- How a call reads the tokens of its text. -/
def Call.parse : Call → List Token → Except ParseStop Program
  | add _ => Program.parseFragment
  | run => Program.parse

/-- The text given last, after a call. -/
def Call.given (given : Option String) : Call → Option String
  | add text => some text
  | run => given

/-- Does what is asked for. -/
def perform (session : Session) : Call → Except Failure Unit × Session
  | .add text => session.add text
  | .run => session.run

/-- The session after some calls, whether they fail or not. -/
def after (session : Session) (calls : List Call) : Session :=
  calls.foldl (fun session call => (session.perform call).2) session

/-- The text that an opened session has been given: that of its file, if it has one. -/
def given (session : Session) : Option String :=
  if session.path = inputPath then none else some session.source

/-- The text that a session has been given last, after some calls. -/
def givenAfter (session : Session) (calls : List Call) : Option String :=
  calls.foldl Call.given session.given

variable {session : Session}

theorem perform_eq (session : Session) (call : Call) :
    (session.perform call).1 =
        (session.state.runRead (Source.read call.parse (call.text session.source))).1 ∧
      (session.perform call).2.state =
        (session.state.runRead (Source.read call.parse (call.text session.source))).2 ∧
      (session.perform call).2.source = session.source := by
  cases call <;> exact ⟨rfl, rfl, rfl⟩

theorem after_concat (session : Session) (calls : List Call) (call : Call) :
    session.after (calls ++ [call]) = ((session.after calls).perform call).2 := by
  simp [after]

theorem source_after (session : Session) (calls : List Call) :
    (session.after calls).source = session.source := by
  induction calls using List.reverseRecOn with
  | nil => rfl
  | append_singleton calls call ih => rw [after_concat, (perform_eq _ call).2.2, ih]

/-! ## The text given last -/

/-- A session starts with nothing declared, and with the text of its file given, if it has one. -/
theorem opened {reporter : Reporter} {path : String} {interactive : Bool}
    {content : Option ByteArray} (h : openWith reporter path interactive content = .ok session) :
    session.state = .initial ∧ ∀ text, session.given = some text → session.reporter.Shows text := by
  unfold openWith at h
  split at h
  · rename_i hpath
    split at h
    · cases h
      refine ⟨rfl, fun text htext => ?_⟩
      rw [given, if_pos hpath] at htext
      cases htext
    · cases h
  · rename_i hpath
    cases content with
    | none => cases h
    | some content =>
        dsimp only at h
        cases hdecode : decode content with
        | error error => rw [hdecode] at h; cases h
        | ok source =>
            rw [hdecode] at h
            cases h
            refine ⟨rfl, fun text htext => ?_⟩
            rw [given, if_neg hpath, Option.some.injEq] at htext
            exact htext ▸ Reporter.shows_register _ path source

/-- Errors are shown in lines of the text given last. -/
theorem shows_after {reporter : Reporter} {path : String} {interactive : Bool}
    {content : Option ByteArray} (h : openWith reporter path interactive content = .ok session)
    {calls : List Call} {text : String} (htext : session.givenAfter calls = some text) :
    (session.after calls).reporter.Shows text := by
  induction calls using List.reverseRecOn with
  | nil => exact (opened h).2 text htext
  | append_singleton calls call ih =>
      rw [givenAfter, List.foldl_append] at htext
      rw [after_concat]
      cases call with
      | add added =>
          obtain rfl := Option.some.inj htext
          exact Reporter.shows_register _ _ _
      | run => exact ih htext

/-! ## The texts that functions come from -/

/-- A statement that stands in the body of a function in one of the texts. -/
def InFunctionOf (texts : List String) (stmt : Stmt) : Prop :=
  ∃ text ∈ texts, ∃ P name params body line, Source.Reads text P ∧
    (Stmt.function name params body line).OccursIn P.statements ∧ stmt.OccursIn body

theorem InFunctionOf.mono {texts more : List String} {stmt : Stmt} (h : InFunctionOf texts stmt)
    (hsubset : texts ⊆ more) : InFunctionOf more stmt := by
  obtain ⟨text, htext, hfunction⟩ := h
  exact ⟨text, hsubset htext, hfunction⟩

theorem inherited_inFunctionOf (texts : List String) : Stmt.Inherited (InFunctionOf texts) := by
  rintro outer ⟨text, htext, P, name, params, body, line, hreads, hfunction, houter⟩ block hblock
    inner hinner
  exact ⟨text, htext, P, name, params, body, line, hreads, hfunction,
    houter.of_block hblock (.here hinner)⟩

theorem inherited_occursIn (stmts : List Stmt) : Stmt.Inherited (Stmt.OccursIn · stmts) :=
  fun _ houter _ hblock _ hinner => houter.of_block hblock (.here hinner)

/-- The discipline of a program that is read from one of the texts, functions coming from any of
them. -/
def origins {texts : List String} {text : String} {P : Program} (htext : text ∈ texts)
    (hreads : Source.Reads text P) : Discipline Bool :=
  .origins (inherited_occursIn P.statements) (inherited_inFunctionOf texts)
    fun name params body line hfunction _ hinner =>
      ⟨text, htext, P, name, params, body, line, hreads, hfunction, .here hinner⟩

theorem holds_run {texts : List String} {text : String} {P : Program} {state : State}
    (hstate : state.Holds (Value.BodyHolds (InFunctionOf texts))) (htext : text ∈ texts)
    (hreads : Source.Reads text P) :
    (state.run P).2.Holds (Value.BodyHolds (InFunctionOf texts)) := by
  have hstmts : ∀ stmt ∈ P.statements, (origins htext hreads).stmt false stmt :=
    fun _ hstmt => .here hstmt
  have hadmitted := (Run.isAdmitted_keeps (origins htext hreads) loopPatience).program depthLimit
    hstmts hstate fun _ _ _ _ _ _ _ hnone => absurd hnone Run.not_inCourse_none
  have hafter : (state.run P).2 = (P.run loopPatience depthLimit state).2 := by
    unfold State.run State.perform
    rcases P.run loopPatience depthLimit state with ⟨_ | _, _⟩ <;> rfl
  rw [hafter]
  exact hadmitted.holds

theorem Call.reads {call : Call} {source : String} {P : Program}
    (h : Source.read call.parse (call.text source) = .ok P) :
    Source.Reads (call.text source) P := by
  cases call with
  | add => exact .inr h
  | run => exact .inl h

/-- The functions that a session holds come from the texts that it has read. -/
theorem holds_after {reporter : Reporter} {path : String} {interactive : Bool}
    {content : Option ByteArray} (h : openWith reporter path interactive content = .ok session)
    (calls : List Call) :
    (session.after calls).state.Holds
      (Value.BodyHolds (InFunctionOf (calls.map (Call.text session.source)))) := by
  induction calls using List.reverseRecOn with
  | nil =>
      rw [after, List.foldl_nil, (opened h).1]
      exact List.forall_mem_singleton.mpr Scope.holds_empty
  | append_singleton calls call ih =>
      have hsubset : calls.map (Call.text session.source) ⊆
          (calls ++ [call]).map (Call.text session.source) := by simp
      have hmore := ih.mono fun _ => Value.BodyHolds.mono fun _ hstmt => hstmt.mono hsubset
      rw [after_concat, (perform_eq _ call).2.1, source_after]
      cases hread : Source.read call.parse (call.text session.source) with
      | error failure => exact hmore
      | ok P => exact holds_run hmore (by simp) (Call.reads hread)

/-! ## What an error comes from -/

/-- What the error of a call that starts in some state comes from, and where it stands in a text:
a character of the call's text where no lexeme starts, a token of the call's text that cannot stand
there, or a statement that was running, from whatever text. -/
inductive Call.Blames (source : String) (call : Call) (state : State) (diagnostic : Diagnostic)
    (text : String) (before after : List Char) : Prop
  | character {error : LexError} (htext : text = call.text source)
      (hscan : Token.scan text = .error error) (hplace : error.StandsAt text.toList before after)
      (hdiagnostic : diagnostic = error.diagnostic)
  | token {tokens : List Token} {error : ParseError} (htext : text = call.text source)
      (hscan : Token.scan text = .ok tokens) (hparse : call.parse tokens = .error (.error error))
      (hplace : error.token.StandsAt text.toList before after)
      (hdiagnostic : diagnostic = error.diagnostic)
  | statement {P : Program} {stmt : Stmt} {fault : Fault}
      (hread : Source.read call.parse (call.text source) = .ok P)
      (hraises : Run.Raises loopPatience (Run.programParts loopPatience depthLimit P) state stmt
        fault)
      (hplace : stmt.StandsAt text before after)
      (hdiagnostic : diagnostic = (RuntimeError.mk fault stmt.line).diagnostic)

/-- A text that declares a function somewhere. -/
def DeclaresFunction (text : String) : Prop :=
  ∃ P, ∃ stmt : Stmt, Source.Reads text P ∧ stmt.OccursIn P.statements ∧ stmt.isFunction = true

theorem Call.Blames.text_eq {source text : String} {call : Call} {state : State}
    {diagnostic : Diagnostic} {before after : List Char}
    (h : call.Blames source state diagnostic text before after) :
    before ++ after = text.toList := by
  cases h with
  | character _ _ hplace =>
      obtain ⟨_, hcut, rfl, -⟩ := hplace
      exact hcut.texts_append
  | token _ _ _ hplace => exact hplace.text_eq
  | statement _ _ hplace => exact hplace.text_eq

/-- The line of an error is that of the place where what it comes from stands. -/
theorem Call.Blames.line_eq {source text : String} {call : Call} {state : State}
    {diagnostic : Diagnostic} {before after : List Char}
    (h : call.Blames source state diagnostic text before after) :
    diagnostic.line = some (Piece.lineAfter before) := by
  cases h with
  | character _ _ hplace hdiagnostic =>
      obtain ⟨_, -, -, -, hline⟩ := hplace
      rw [hdiagnostic, LexError.diagnostic, hline]
  | token _ _ _ hplace hdiagnostic => rw [hdiagnostic, ParseError.diagnostic, hplace.line_eq]
  | statement _ _ hplace hdiagnostic => rw [hdiagnostic, RuntimeError.diagnostic, hplace.line_eq]

theorem Call.exists_blames_of_scan {source : String} {call : Call} {error : LexError}
    (hscan : Token.scan (call.text source) = .error error) (state : State) :
    ∃ before after,
      call.Blames source state error.diagnostic (call.text source) before after := by
  obtain ⟨before, after, hplace⟩ := LexError.exists_standsAt hscan
  exact ⟨before, after, .character rfl hscan hplace rfl⟩

theorem Call.exists_blames_of_parse {source : String} {call : Call} {tokens : List Token}
    {error : ParseError} (hscan : Token.scan (call.text source) = .ok tokens)
    (hparse : call.parse tokens = .error (.error error)) (state : State) :
    ∃ before after,
      call.Blames source state error.diagnostic (call.text source) before after := by
  obtain ⟨body, stop, rfl, hstop, -⟩ := Token.exists_body_of_scan hscan
  have hmem : error.token ∈ body ++ [stop] := by
    cases call with
    | add => exact Program.token_mem_of_parseFragment hstop hparse
    | run => exact Program.token_mem_of_parse hstop hparse
  obtain ⟨before, after, hplace⟩ := Token.exists_standsAt hscan hmem
  exact ⟨before, after, .token rfl hscan hparse hplace rfl⟩

/-- The statement that an error of a run comes from stands in the text of the call, or in an
earlier text that declares a function. -/
theorem Call.exists_blames_of_run {source : String} {call : Call} {texts : List String}
    {P : Program} {state : State} {fault : Fault} {line : Int}
    (hread : Source.read call.parse (call.text source) = .ok P)
    (hstate : state.Holds (Value.BodyHolds (InFunctionOf texts)))
    (hfails : (P.run loopPatience depthLimit state).1 = .error (.fault ⟨fault, some line⟩)) :
    ∃ text before after,
      (text = call.text source ∨ text ∈ texts ∧ DeclaresFunction text) ∧
        call.Blames source state (RuntimeError.mk fault (some line)).diagnostic text before
          after := by
  obtain ⟨stmt, hraises, hline⟩ := Run.exists_raises hfails
  have hreads := Call.reads hread
  have hall : state.Holds (Value.BodyHolds (InFunctionOf (call.text source :: texts))) :=
    hstate.mono fun _ => Value.BodyHolds.mono fun _ hstmt => hstmt.mono (List.subset_cons_self _ _)
  have hstmts : ∀ stmt ∈ P.statements,
      (origins (List.mem_cons_self (l := texts)) hreads).stmt false stmt :=
    fun _ hstmt => .here hstmt
  obtain ⟨mode, hmode⟩ := hraises.admitted hstmts hall
  obtain ⟨text, htext, Q, hQ, hoccurs⟩ : ∃ text,
      (text = call.text source ∨ text ∈ texts ∧ DeclaresFunction text) ∧
        ∃ Q, Source.Reads text Q ∧ stmt.OccursIn Q.statements := by
    -- The mode tells whether the statement stands in the program or in a function.
    cases mode with
    | false => exact ⟨_, .inl rfl, P, hreads, hmode⟩
    | true =>
        obtain ⟨text, htext, Q, name, params, body, start, hQ, hfunction, hinner⟩ := hmode
        refine ⟨text, ?_, Q, hQ, hfunction.of_block List.mem_cons_self hinner⟩
        exact (List.mem_cons.mp htext).imp_right fun htext => ⟨htext, Q, _, hQ, hfunction, rfl⟩
  obtain ⟨before, after, hplace⟩ := hQ.exists_standsAt hoccurs
  exact ⟨text, before, after, htext, .statement hread hraises hplace (by rw [hline])⟩

theorem exists_fault_of_run {state : State} {P : Program} {diagnostic : Diagnostic}
    (h : (state.run P).1 = .error (.error diagnostic)) :
    ∃ error : RuntimeError, (P.run loopPatience depthLimit state).1 = .error (.fault error) ∧
      diagnostic = error.diagnostic := by
  unfold State.run State.perform at h
  rcases hrun : P.run loopPatience depthLimit state with ⟨(error | _ | _) | _, after⟩ <;>
    rw [hrun] at h <;> cases h
  exact ⟨error, rfl, rfl⟩

/-- An error with a line that a call fails with comes from its own text or from a text, read
before, that declares a function. -/
theorem exists_blames {reporter : Reporter} {path : String} {interactive : Bool}
    {content : Option ByteArray} (hopen : openWith reporter path interactive content = .ok session)
    {calls : List Call} {call : Call} {diagnostic : Diagnostic} {line : Int}
    (hfails : ((session.after calls).perform call).1 = .error (.error diagnostic))
    (hline : diagnostic.line = some line) :
    ∃ text before after,
      (text = call.text session.source ∨
        text ∈ calls.map (Call.text session.source) ∧ DeclaresFunction text) ∧
      call.Blames session.source (session.after calls).state diagnostic text before after := by
  rw [(perform_eq _ call).1, source_after] at hfails
  cases hscan : Token.scan (call.text session.source) with
  | error error =>
      rw [Source.read, hscan] at hfails
      cases hfails
      obtain ⟨before, after, hblames⟩ :=
        Call.exists_blames_of_scan hscan (session.after calls).state
      exact ⟨_, before, after, .inl rfl, hblames⟩
  | ok tokens =>
      rw [Source.read, hscan] at hfails
      dsimp only at hfails
      cases hparse : call.parse tokens with
      | error stop =>
          rw [hparse] at hfails
          cases stop with
          | tooDeep | notNumber text => cases hfails
          | error error =>
              cases hfails
              obtain ⟨before, after, hblames⟩ :=
                Call.exists_blames_of_parse hscan hparse (session.after calls).state
              exact ⟨_, before, after, .inl rfl, hblames⟩
      | ok P =>
          rw [hparse] at hfails
          have hread : Source.read call.parse (call.text session.source) = .ok P :=
            Source.read_eq_ok_iff.mpr ⟨tokens, hscan, hparse⟩
          obtain ⟨⟨fault, own⟩, hrun, rfl⟩ := exists_fault_of_run hfails
          obtain rfl : own = some line := hline
          exact Call.exists_blames_of_run hread (holds_after hopen calls) hrun

/-- The line shown with an error. Whenever a call fails with an error of some line, that is the
line of a place where what the error comes from stands: in the text of the call itself, or in an
earlier text that declares a function. If it stands in the text given last, the line shown is the
line around it. -/
theorem error_line_shown {reporter : Reporter} {path : String} {interactive : Bool}
    {content : Option ByteArray} (hopen : openWith reporter path interactive content = .ok session)
    (calls : List Call) (call : Call) {diagnostic : Diagnostic} {line : Int}
    (hfails : ((session.after calls).perform call).1 = .error (.error diagnostic))
    (hline : diagnostic.line = some line) :
    (∃ text before after,
      (text = call.text session.source ∨
        text ∈ calls.map (Call.text session.source) ∧ DeclaresFunction text) ∧
      call.Blames session.source (session.after calls).state diagnostic text before after) ∧
    ∀ text before after,
      call.Blames session.source (session.after calls).state diagnostic text before after →
        before ++ after = text.toList ∧ line = Piece.lineAfter before ∧
          (session.givenAfter (calls ++ [call]) = some text →
            ((session.after calls).perform call).2.reporter.sourceLine? (some line) =
              some (String.ofList (Text.lineAround before after))) := by
  refine ⟨exists_blames hopen hfails hline, fun text before after hblames => ?_⟩
  have hsame : line = Piece.lineAfter before :=
    Option.some.inj (hline.symm.trans hblames.line_eq)
  refine ⟨hblames.text_eq, hsame, fun hgiven => ?_⟩
  rw [← after_concat, hsame]
  exact (shows_after hopen hgiven).sourceLine?_eq hblames.text_eq

/-- An interactive session without a file. -/
def withoutFile : Session := ⟨inputPath, "", .new false, .initial⟩

/-- An undeclared name on the second line of the only text. -/
theorem error_line_shown_ghost :
    (withoutFile.add "\nhe bol ghost").1 =
        .error (.error ⟨.runtime, "'ghost' is not declared", some 2, some "ghost", true⟩) ∧
      ∃ before after, before ++ after = "\nhe bol ghost".toList ∧ 2 = Piece.lineAfter before ∧
        (withoutFile.add "\nhe bol ghost").2.reporter.sourceLine? (some 2) =
          some (String.ofList (Text.lineAround before after)) := by
  have hopen : openWith (.new false) inputPath true none = .ok withoutFile := rfl
  have hfails : (withoutFile.add "\nhe bol ghost").1 =
      .error (.error ⟨.runtime, "'ghost' is not declared", some 2, some "ghost", true⟩) := by
    decide +kernel
  obtain ⟨⟨text, before, after, htext | ⟨hnone, -⟩, hblames⟩, hall⟩ :=
    error_line_shown hopen [] (.add "\nhe bol ghost") hfails rfl
  · obtain rfl : text = "\nhe bol ghost" := htext
    obtain ⟨hsplit, hline, hshown⟩ := hall _ before after hblames
    exact ⟨hfails, before, after, hsplit, hline, hshown rfl⟩
  · cases hnone

/-- The line shown need not be the one that an error comes from: a function that an earlier text
declares fails on its second line, and the text given last has no such line. -/
theorem error_line_of_earlier_text :
    ∃ diagnostic,
      ((withoutFile.add "karya f() \x7b\n he bol ghost\n\x7d").2.add "he ghe r = f()").1 =
          .error (.error diagnostic) ∧
        diagnostic.line = some 2 ∧
        ∃ text before after,
          Call.Blames "" (.add "he ghe r = f()")
              (withoutFile.add "karya f() \x7b\n he bol ghost\n\x7d").2.state diagnostic text before
              after ∧
            ((withoutFile.add "karya f() \x7b\n he bol ghost\n\x7d").2.add
                "he ghe r = f()").2.reporter.sourceLine? (some 2) ≠
              some (String.ofList (Text.lineAround before after)) := by
  have hopen : openWith (.new false) inputPath true none = .ok withoutFile := rfl
  have hfails : ((withoutFile.after [.add "karya f() \x7b\n he bol ghost\n\x7d"]).perform
      (.add "he ghe r = f()")).1 =
      .error (.error ⟨.runtime, "'ghost' is not declared", some 2, some "ghost", true⟩) := by
    decide +kernel
  have hshown : ((withoutFile.after [.add "karya f() \x7b\n he bol ghost\n\x7d"]).perform
      (.add "he ghe r = f()")).2.reporter.sourceLine? (some 2) = none := by
    decide +kernel
  obtain ⟨text, before, after, -, hblames⟩ := exists_blames hopen hfails rfl
  refine ⟨_, hfails, rfl, text, before, after, hblames, fun hsame => ?_⟩
  cases hshown.symm.trans hsame

end Session

end Bol
