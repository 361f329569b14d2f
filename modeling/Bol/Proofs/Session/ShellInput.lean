/-
# The shell keeps its input

Whatever lines a shell is fed, and whether what it runs fails or not, it neither loses nor repeats
nor reorders them: cut into lines again, the texts that it has given to its session and then the
lines that wait are the lines that it was fed, but for commands and blank lines. A line waits only
as long as more braces are open than closed in the lines that wait, and the prompt shows whether one
does.
-/

import Bol.Proofs.Session.Shell
import Bol.Proofs.Text.Lines

namespace Bol.Shell

/-! ## What a shell runs and what it keeps -/

/-- The text that an action gives to the session. -/
def Action.text? : Action → Option String
  | .execute text => some text
  | .obey _ | .wait => none

/-- The texts that a shell gives to its session, in order, when it is fed lines while others wait.
-/
def texts (pending : List String) : List String → List String
  | [] => []
  | line :: rest =>
    (react pending line).2.text?.toList ++ texts (react pending line).1 rest

/-- What there is to keep of a line: nothing of a command or of a blank line while none waits, and
no more than an empty line of a blank line while some wait. -/
def recorded (pending : List String) (line : String) : List String :=
  if isCommand line then []
  else if Text.trim line.toList = [] then (if pending.isEmpty then [] else [""])
  else [line]

/-- What there is to keep of lines that a shell is fed while others wait. -/
def kept (pending : List String) : List String → List String
  | [] => []
  | line :: rest => recorded pending line ++ kept (react pending line).1 rest

/-- The prompt of a shell that changes it only when it collects a line, or runs one. -/
def switched (pending : List String) (line prompt : String) : String :=
  if isCommand line ∨ Text.trim line.toList = [] then prompt
  else if Session.needsMore (joined (pending ++ [line])) then ". " else "> "

/-- The prompt of such a shell after it was fed lines while others waited. -/
def lastPrompt (pending : List String) (prompt : String) : List String → String
  | [] => prompt
  | line :: rest => lastPrompt (react pending line).1 (switched pending line prompt) rest

/-- The lines of a text. -/
def cut (text : String) : List String := (Text.lines text.toList).map String.ofList

/-! ## Cutting what was joined -/

theorem cut_of_notMem {line : String} (h : '\n' ∉ line.toList) : cut line = [line] := by
  obtain ⟨rest, hlines⟩ := Text.lines_eq_cons line.toList
  have hlength := Text.length_lines line.toList
  rw [hlines, List.count_eq_zero.mpr h, List.length_cons, Nat.add_right_cancel_iff,
    List.length_eq_zero_iff] at hlength
  have hwhole : line.toList.takeWhile (· ≠ '\n') = line.toList :=
    List.takeWhile_eq_self_iff.mpr fun c hc => decide_eq_true fun heq => h (heq ▸ hc)
  rw [cut, hlines, hlength, hwhole, List.map_singleton, String.ofList_toList]

/-- Lines that were joined are got back by cutting. -/
theorem cut_joined {lines : List String} (hne : lines ≠ [])
    (h : ∀ line ∈ lines, '\n' ∉ line.toList) : cut (joined lines) = lines := by
  induction lines with
  | nil => exact absurd rfl hne
  | cons line rest ih =>
      obtain ⟨hline, hrest⟩ := List.forall_mem_cons.mp h
      by_cases hlast : rest = []
      · subst hlast
        rw [joined, String.intercalate_singleton]
        exact cut_of_notMem hline
      · have hsplit : (joined (line :: rest)).toList =
            line.toList ++ '\n' :: (joined rest).toList := by
          rw [Source.joined_cons line hlast, String.toList_append, String.toList_append,
            List.append_assoc]
          rfl
        have hmore := ih hlast hrest
        unfold cut at hmore ⊢
        rw [hsplit, Text.lines_append_lineEnd, List.map_append, hmore]
        exact congrArg (· ++ rest) (cut_of_notMem hline)

/-! ## One line -/

variable {pending : List String} {line : String}

/-- Nothing is lost, repeated or moved when a shell takes a line. -/
theorem flatMap_cut_append_react (hpending : ∀ line ∈ pending, '\n' ∉ line.toList)
    (hline : '\n' ∉ line.toList) :
    (react pending line).2.text?.toList.flatMap cut ++ (react pending line).1 =
      pending ++ recorded pending line := by
  have hdecides := decides pending line
  unfold recorded
  generalize react pending line = outcome at hdecides ⊢
  cases hdecides with
  | obeys hcommand => rw [if_pos hcommand]; simp [Action.text?]
  | skips hcommand hblank hpending => simp [Action.text?, hcommand, hblank, hpending]
  | keepsBlank hcommand hblank hpending => simp [Action.text?, hcommand, hblank, hpending]
  | collects hcommand hblank => simp [Action.text?, hcommand, hblank]
  | runs hcommand hblank =>
      have hall : ∀ waiting ∈ pending ++ [line], '\n' ∉ waiting.toList :=
        List.forall_mem_append.mpr ⟨hpending, List.forall_mem_singleton.mpr hline⟩
      simp [Action.text?, hcommand, hblank, cut_joined (List.append_ne_nil_of_right_ne_nil _
        (List.cons_ne_nil line [])) hall]

/-- No line that waits holds a line end. -/
theorem notMem_of_mem_react (hpending : ∀ line ∈ pending, '\n' ∉ line.toList)
    (hline : '\n' ∉ line.toList) : ∀ waiting ∈ (react pending line).1, '\n' ∉ waiting.toList := by
  have hdecides := decides pending line
  generalize react pending line = outcome at hdecides ⊢
  cases hdecides with
  | obeys => exact hpending
  | skips | runs => exact List.forall_mem_nil _
  | keepsBlank =>
      exact List.forall_mem_append.mpr ⟨hpending, List.forall_mem_singleton.mpr (by simp)⟩
  | collects => exact List.forall_mem_append.mpr ⟨hpending, List.forall_mem_singleton.mpr hline⟩

/-- If lines wait, more braces are open than closed in them. -/
def WaitsForBrace (pending : List String) : Prop := pending ≠ [] → 0 < Source.levels pending

theorem WaitsForBrace.react (h : WaitsForBrace pending) (line : String) :
    WaitsForBrace (react pending line).1 := by
  have hdecides := decides pending line
  generalize Shell.react pending line = outcome at hdecides ⊢
  cases hdecides with
  | obeys => exact h
  | skips | runs => exact absurd rfl
  | keepsBlank _ _ hpending => exact fun _ => levels_concat_empty pending ▸ h hpending
  | collects _ _ hlevel => exact fun _ => hlevel

theorem prompt_of_ne_nil (session : Session) (h : pending ≠ []) :
    prompt ⟨session, pending⟩ = ". " :=
  if_neg fun hempty => h (List.isEmpty_iff.mp hempty)

theorem prompt_eq_iff (session : Session) (pending : List String) :
    prompt ⟨session, pending⟩ = ". " ↔ pending ≠ [] := by
  refine ⟨fun hprompt hpending => ?_, prompt_of_ne_nil session⟩
  cases hpending
  exact absurd (show "> " = ". " from hprompt) (by decide)

/-- A prompt that is changed only when a line is collected or run shows whether lines wait. -/
theorem switched_prompt (session : Session) (pending : List String) (line : String) :
    switched pending line (prompt ⟨session, pending⟩) =
      prompt ⟨session, (react pending line).1⟩ := by
  have hdecides := decides pending line
  unfold switched
  generalize react pending line = outcome at hdecides ⊢
  cases hdecides with
  | obeys hcommand => exact if_pos (.inl hcommand)
  | skips _ hblank hpending => rw [if_pos (.inr hblank), hpending]
  | keepsBlank _ hblank hpending =>
      rw [if_pos (.inr hblank), prompt_of_ne_nil session hpending,
        prompt_of_ne_nil session (List.append_ne_nil_of_left_ne_nil hpending _)]
  | collects hcommand hblank hlevel =>
      have hset : ¬(isCommand line = true ∨ Text.trim line.toList = []) := by
        simp [hcommand, hblank]
      rw [if_neg hset, if_pos ((needsMore_joined _).mpr hlevel),
        prompt_of_ne_nil session (List.append_ne_nil_of_right_ne_nil _ (List.cons_ne_nil _ _))]
  | runs hcommand hblank hlevel =>
      have hset : ¬(isCommand line = true ∨ Text.trim line.toList = []) := by
        simp [hcommand, hblank]
      rw [if_neg hset, if_neg (mt (needsMore_joined _).mp (Int.not_lt.mpr hlevel))]
      rfl

/-! ## All lines -/

theorem feedAll_cons (session : Session) (pending : List String) (line : String)
    (rest : List String) :
    (feedAll ⟨session, pending⟩ (line :: rest)).1 =
      (feedAll ⟨(perform session (react pending line).2).1, (react pending line).1⟩ rest).1 := by
  rw [feedAll, feed]

theorem flatMap_cut_append_feedAll (session : Session) {lines : List String}
    (hpending : ∀ line ∈ pending, '\n' ∉ line.toList)
    (hlines : ∀ line ∈ lines, '\n' ∉ line.toList) :
    (texts pending lines).flatMap cut ++ (feedAll ⟨session, pending⟩ lines).1.pending =
      pending ++ kept pending lines := by
  induction lines generalizing session pending with
  | nil => exact (List.append_nil pending).symm
  | cons line rest ih =>
      obtain ⟨hline, hrest⟩ := List.forall_mem_cons.mp hlines
      have hmore := ih (perform session (react pending line).2).1
        (notMem_of_mem_react hpending hline) hrest
      rw [feedAll_cons, texts, List.flatMap_append, List.append_assoc, hmore, ← List.append_assoc,
        flatMap_cut_append_react hpending hline, kept, List.append_assoc]

theorem WaitsForBrace.feedAll (h : WaitsForBrace pending) (session : Session)
    (lines : List String) :
    WaitsForBrace (feedAll ⟨session, pending⟩ lines).1.pending := by
  induction lines generalizing session pending with
  | nil => exact h
  | cons line rest ih =>
      rw [feedAll_cons]
      exact ih (h.react line) _

theorem foldl_execute_text? (session : Session) (action : Action) :
    action.text?.toList.foldl (fun session text => (execute session text).1) session =
      (perform session action).1 := by
  cases action <;> rfl

/-- The session of a shell is where the texts that it was given have led it. -/
theorem session_feedAll (session : Session) (pending lines : List String) :
    (feedAll ⟨session, pending⟩ lines).1.session =
      (texts pending lines).foldl (fun session text => (execute session text).1) session := by
  induction lines generalizing session pending with
  | nil => rfl
  | cons line rest ih => rw [feedAll_cons, texts, List.foldl_append, foldl_execute_text?, ih]

theorem lastPrompt_prompt (session : Session) (pending lines : List String) :
    lastPrompt pending (prompt ⟨session, pending⟩) lines =
      (feedAll ⟨session, pending⟩ lines).1.prompt := by
  induction lines generalizing session pending with
  | nil => rfl
  | cons line rest ih =>
      rw [lastPrompt, switched_prompt, feedAll_cons, ← ih]
      rfl

/-- No text that a session runs makes errors end it. -/
theorem fatal_foldl_execute (texts : List String) (session : Session) :
    (texts.foldl (fun session text => (execute session text).1) session).reporter.fatal =
      session.reporter.fatal := by
  induction texts generalizing session with
  | nil => rfl
  | cons text rest ih => exact ih _

/-- Sessions that are opened as interactive ones go on after errors. -/
theorem fatal_of_openWith {reporter : Reporter} {path : String} {content : Option ByteArray}
    {session : Session} (h : Session.openWith reporter path true content = .ok session) :
    session.reporter.fatal = false := by
  unfold Session.openWith at h
  split at h
  · cases h
    rfl
  · cases content with
    | none => cases h
    | some content =>
        dsimp only at h
        cases hdecode : Session.decode content with
        | error error => rw [hdecode] at h; cases h
        | ok source =>
            rw [hdecode] at h
            cases h
            rfl

/-- What becomes of the input when a shell is fed with lines: what it keeps of them is what it has
given to its session, cut into lines again, and what waits; errors do not end it; and its prompt,
although it is changed only when a line is collected or run, shows whether lines wait, which they do
as long as more braces are open than closed in them. -/
structure KeepsInput (session : Session) (lines : List String) (shell : Shell) : Prop where
  kept : (texts [] lines).flatMap cut ++ shell.pending = kept [] lines
  session : shell.session =
    (texts [] lines).foldl (fun session text =>
      ({ session with state := session.state.clearOutput }.add text).2) session
  fatal : shell.session.reporter.fatal = false
  prompt : lastPrompt [] "> " lines = shell.prompt
  prompt_iff : shell.prompt = ". " ↔ shell.pending ≠ []
  pending_iff : shell.pending ≠ [] ↔
    (joined shell.pending).toList.count '\x7d' < (joined shell.pending).toList.count '\x7b'

/-- An interactive shell neither loses nor repeats nor reorders its input, whatever lines it was
fed. -/
theorem feedAll_keeps_input {reporter : Reporter} {path : String} {content : Option ByteArray}
    {session : Session} (hopen : Session.openWith reporter path true content = .ok session)
    {lines : List String} (hlines : ∀ line ∈ lines, '\n' ∉ line.toList) :
    KeepsInput session lines (feedAll ⟨session, []⟩ lines).1 where
  kept := flatMap_cut_append_feedAll session (List.forall_mem_nil _) hlines
  session := session_feedAll session [] lines
  fatal := by
    rw [session_feedAll, fatal_foldl_execute]
    exact fatal_of_openWith hopen
  prompt := lastPrompt_prompt session [] lines
  prompt_iff := prompt_eq_iff _ _
  pending_iff := by
    have hwaits : WaitsForBrace (feedAll ⟨session, []⟩ lines).1.pending :=
      WaitsForBrace.feedAll (absurd rfl) session lines
    have hmore := needsMore_joined (feedAll ⟨session, []⟩ lines).1.pending
    rw [Session.needsMore, decide_eq_true_eq] at hmore
    refine ⟨fun hne => hmore.mpr (hwaits hne), fun hcount hempty => ?_⟩
    rw [hempty] at hcount
    exact absurd hcount (by decide)

/-- Lines among which there are a command and a blank line within a block, two errors, a program
that begins like a command, and a block that is not closed. -/
def interrupted : List String :=
  ["", "jr barobr \x7b", " help ", "  ", "he bol ghost", "\x7d", "exit = 1", "?", "karya f() \x7b"]

theorem feedAll_keeps_input_interrupted :
    KeepsInput CommandLine.newShell.session interrupted
        (feedAll CommandLine.newShell interrupted).1 ∧
      kept [] interrupted =
        ["jr barobr \x7b", "", "he bol ghost", "\x7d", "exit = 1", "karya f() \x7b"] ∧
      texts [] interrupted = ["jr barobr \x7b\n\nhe bol ghost\n\x7d", "exit = 1"] := by
  have hopen : Session.openWith (Reporter.new true) Session.inputPath true none =
      .ok CommandLine.newShell.session := rfl
  have hlines : ∀ line ∈ interrupted, '\n' ∉ line.toList := by decide +kernel
  exact ⟨feedAll_keeps_input hopen hlines, by decide +kernel, by decide +kernel⟩

end Bol.Shell
