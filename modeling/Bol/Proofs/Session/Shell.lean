/-
# A text line by line in the shell

A shell that is fed the lines of a text runs the text in parts: whenever as many braces are closed
as were opened, it runs the lines that it has collected. It can tell by braces alone where a
statement is complete, unless the next line continues it. So it does what a session does with the
text as a whole if no line starts with an opening brace, `nahitr jr` or `nahitr` where no brace is
open, and otherwise it reports an error.
-/

import Bol.CommandLine
import Bol.Proofs.Run.Isolation
import Bol.Proofs.Session.Joining
import Bol.Proofs.Source.Splitting

namespace Bol

open Source

/-! ## Lines printed before -/

/-- What a program does has nothing to do with the lines that were printed before. -/
theorem State.run_clearOutput (state : State) (P : Program) :
    state.run P =
      ((state.clearOutput.run P).1,
        { (state.clearOutput.run P).2 with
          output := state.output ++ (state.clearOutput.run P).2.output }) := by
  have hignores : Run.IgnoresCallers (P.run loopPatience depthLimit) :=
    (Run.ignoresCallers_congruence.program (.inl rfl) (.inl rfl) P).2
  have hbefore : state = state.clearOutput.framed state.callers state.output := by
    simp [framed, clearOutput]
  have hclear : state.clearOutput = state.clearOutput.framed state.callers #[] := by
    simp [framed, clearOutput]
  -- A run leaves the callers as they are, which shows where no lines come before.
  have hcallers : (P.run loopPatience depthLimit state.clearOutput).2.callers = state.callers := by
    rw [hclear, hignores]
    rfl
  have hrun := hignores state.clearOutput state.callers state.output
  rw [← hbefore] at hrun
  unfold State.run
  rw [State.perform_apply, State.perform_apply, hrun, framed, ← hcallers]

namespace Shell

/-! ## What the shell does about a line -/

theorem needsMore_joined (lines : List String) :
    Session.needsMore (joined lines) = true ↔ 0 < levels lines := by
  rw [← level_joined_lines, Session.needsMore, Source.level, decide_eq_true_eq]
  omega

/-- Whether a line is one that the shell obeys. -/
def isCommand (line : String) : Bool :=
  (Command.ofLine? (String.ofList (Text.trim line.toList))).isSome

/-- What a shell decides about a line: it obeys a command, passes over a blank line or keeps an
empty one in its place, or collects the line with those that wait or runs it with them. -/
inductive Decides (pending : List String) (line : String) : List String × Action → Prop
  | obeys {command : Command} (hcommand : isCommand line = true) :
      Decides pending line (pending, .obey command)
  | skips (hcommand : isCommand line = false) (hblank : Text.trim line.toList = [])
      (hpending : pending = []) : Decides pending line ([], .wait)
  | keepsBlank (hcommand : isCommand line = false) (hblank : Text.trim line.toList = [])
      (hpending : pending ≠ []) : Decides pending line (pending ++ [""], .wait)
  | collects (hcommand : isCommand line = false) (hblank : Text.trim line.toList ≠ [])
      (hlevel : 0 < levels (pending ++ [line])) :
      Decides pending line (pending ++ [line], .wait)
  | runs (hcommand : isCommand line = false) (hblank : Text.trim line.toList ≠ [])
      (hlevel : levels (pending ++ [line]) ≤ 0) :
      Decides pending line ([], .execute (joined (pending ++ [line])))

theorem decides (pending : List String) (line : String) :
    Decides pending line (react pending line) := by
  have hword : String.ofList (Text.trim line.toList) = "" ↔ Text.trim line.toList = [] :=
    ⟨fun h => by simpa using congrArg String.toList h, fun h => by rw [h]⟩
  unfold react
  dsimp only
  cases hcommand : Command.ofLine? (String.ofList (Text.trim line.toList)) with
  | some command => exact .obeys (by rw [isCommand, hcommand]; rfl)
  | none =>
      have hnone : isCommand line = false := by rw [isCommand, hcommand]; rfl
      dsimp only
      split
      · rename_i hempty
        have hblank := hword.mp hempty
        cases pending with
        | nil => exact .skips hnone hblank rfl
        | cons first waiting => exact .keepsBlank hnone hblank (List.cons_ne_nil _ _)
      · rename_i hfilled
        have hblank : Text.trim line.toList ≠ [] := fun h => hfilled (hword.mpr h)
        split
        · rename_i hmore
          exact .collects hnone hblank ((needsMore_joined _).mp hmore)
        · rename_i hdone
          exact .runs hnone hblank
            (Int.not_lt.mp fun hlevel => hdone ((needsMore_joined _).mpr hlevel))

/-- Feeds a shell with lines, one after the other: the shell afterwards, and its replies. -/
def feedAll (shell : Shell) : List String → Shell × List Reply
  | [] => (shell, [])
  | line :: rest =>
    let (next, reply) := shell.feed line
    let (last, replies) := next.feedAll rest
    (last, reply :: replies)

/-- The reply of a shell that does nothing. -/
def Reply.none : Reply := ⟨[], "", "", false⟩

/-- What comes of feeding lines, with a reply before that. -/
def replied (reply : Reply) (outcome : Shell × List Reply) : Shell × List Reply :=
  (outcome.1, reply :: outcome.2)

/-- What comes of feeding a line that is no command, and then others: a blank line is passed over or
kept as an empty one, and any other is collected with those that wait or run with them. -/
inductive Feeds (session : Session) (pending : List String) (line : String) (rest : List String) :
    Shell × List Reply → Prop
  | skips (hblank : Text.trim line.toList = []) (hpending : pending = []) :
      Feeds session pending line rest (replied .none (feedAll ⟨session, []⟩ rest))
  | keepsBlank (hblank : Text.trim line.toList = []) (hpending : pending ≠ []) :
      Feeds session pending line rest (replied .none (feedAll ⟨session, pending ++ [""]⟩ rest))
  | collects (hlevel : 0 < levels (pending ++ [line])) :
      Feeds session pending line rest (replied .none (feedAll ⟨session, pending ++ [line]⟩ rest))
  | runs (hlevel : levels (pending ++ [line]) ≤ 0) :
      Feeds session pending line rest
        (replied (execute session (joined (pending ++ [line]))).2
          (feedAll ⟨(execute session (joined (pending ++ [line]))).1, []⟩ rest))

theorem feeds (session : Session) (pending : List String) {line : String}
    (h : isCommand line = false) (rest : List String) :
    Feeds session pending line rest (feedAll ⟨session, pending⟩ (line :: rest)) := by
  have hdecides := decides pending line
  unfold feedAll feed
  generalize react pending line = outcome at hdecides ⊢
  cases hdecides with
  | obeys hcommand => exact absurd hcommand (by simp [h])
  | skips _ hblank hpending => exact .skips hblank hpending
  | keepsBlank _ hblank hpending => exact .keepsBlank hblank hpending
  | collects _ _ hlevel => exact .collects hlevel
  | runs _ _ hlevel => exact .runs hlevel

/-! ## What the shell waits for -/

theorem levels_concat (pending : List String) (line : String) :
    levels (pending ++ [line]) = levels pending + level line := by
  rw [levels_append]
  simp [levels]

theorem levels_concat_empty (pending : List String) : levels (pending ++ [""]) = levels pending :=
  (levels_concat pending "").trans (Int.add_zero _)

theorem append_cons_eq (pending rest : List String) (line : String) :
    pending ++ line :: rest = pending ++ [line] ++ rest := by
  simp

/-- Lines that wait in the shell, and lines that are still to come: some brace is open in those that
wait, if there are any. -/
structure Waiting (pending rest : List String) : Prop where
  legible : Legible (pending ++ rest)
  level_pos : pending ≠ [] → 0 < levels pending

namespace Waiting

variable {pending rest : List String} {line : String}

theorem none (h : Legible rest) : Waiting [] rest := ⟨h, absurd rfl⟩

theorem skip (h : Waiting [] (line :: rest)) : Waiting [] rest :=
  none (List.forall_mem_cons.mp h.legible).2

theorem keepBlank (h : Waiting pending (line :: rest)) (hpending : pending ≠ []) :
    Waiting (pending ++ [""]) rest :=
  ⟨append_cons_eq pending rest "" ▸ Legible.blank h.legible,
    fun _ => levels_concat_empty pending ▸ h.level_pos hpending⟩

theorem collect (h : Waiting pending (line :: rest)) (hlevel : 0 < levels (pending ++ [line])) :
    Waiting (pending ++ [line]) rest :=
  ⟨append_cons_eq pending rest line ▸ h.legible, fun _ => hlevel⟩

theorem run (h : Waiting pending (line :: rest)) : Waiting [] rest :=
  none (List.forall_mem_cons.mp (List.forall_mem_append.mp h.legible).2).2

/-- Where no brace is open no line waits. -/
theorem eq_nil (h : Waiting pending rest) (hlevel : levels pending = 0) : pending = [] := by
  by_contra hne
  exact absurd (h.level_pos hne) (by omega)

/-- A blank line does not change how many braces are open. -/
theorem levels_concat_blank (h : Waiting pending (line :: rest))
    (hblank : Text.trim line.toList = []) : levels (pending ++ [line]) = levels pending := by
  obtain ⟨body, hbody⟩ := h.legible line (by simp)
  rw [levels_concat, ← hbody.level_eq, hbody.eq_nil_of_blank hblank]
  exact Int.add_zero _

end Waiting

/-- The lines that wait and those to come spell a program, lines aside. -/
structure Expects (pending rest : List String) (Q : Program) : Prop
    extends Waiting pending rest where
  reads : ∃ P, fragment (joined (pending ++ rest)) = .ok P ∧ P.withoutLines = Q.withoutLines

namespace Expects

variable {pending rest : List String} {line : String} {Q : Program}

/-- A blank line outside of all braces is as good as none. -/
theorem skip (h : Expects [] (line :: rest) Q) (hblank : Text.trim line.toList = []) :
    Expects [] rest Q := by
  obtain ⟨P, hread, hsame⟩ := h.reads
  obtain ⟨R, hread', hsame'⟩ := (Legible.sameWords_tail h.legible hblank).fragment hread
  exact ⟨h.toWaiting.skip, R, hread', hsame'.trans hsame⟩

/-- Inside of braces it is as good as an empty one. -/
theorem keepBlank (h : Expects pending (line :: rest) Q) (hblank : Text.trim line.toList = [])
    (hpending : pending ≠ []) : Expects (pending ++ [""]) rest Q := by
  obtain ⟨P, hread, hsame⟩ := h.reads
  obtain ⟨R, hread', hsame'⟩ := (Legible.sameWords_blank h.legible hblank).fragment hread
  exact ⟨h.toWaiting.keepBlank hpending, R, append_cons_eq pending rest "" ▸ hread',
    hsame'.trans hsame⟩

/-- A line that is collected is still one of the lines. -/
theorem collect (h : Expects pending (line :: rest) Q) (hlevel : 0 < levels (pending ++ [line])) :
    Expects (pending ++ [line]) rest Q :=
  ⟨h.toWaiting.collect hlevel, append_cons_eq pending rest line ▸ h.reads⟩

/-- When the shell runs lines, all braces are closed. -/
theorem levels_eq_zero (h : Expects pending (line :: rest) Q)
    (hlevel : levels (pending ++ [line]) ≤ 0) : levels (pending ++ [line]) = 0 := by
  obtain ⟨P, hread, -⟩ := h.reads
  have hlegible := h.legible
  rw [append_cons_eq] at hlegible hread
  exact Int.le_antisymm hlevel (Legible.levels_nonneg hlegible hread)

/-- What the lines hold that the shell runs, and what it expects then. -/
theorem run (h : Expects pending (line :: rest) Q) (hlevel : levels (pending ++ [line]) ≤ 0)
    (hanew : continues (joined rest) = false) :
    ∃ P first second, fragment (joined (pending ++ [line])) = .ok P ∧
      P.withoutLines = Program.withoutLines ⟨first⟩ ∧ Q.statements = first ++ second ∧
      Expects [] rest ⟨second⟩ := by
  obtain ⟨P, hread, hsame⟩ := h.reads
  have hlegible := h.legible
  rw [append_cons_eq] at hlegible hread
  obtain ⟨first, second, hfirst, hsecond, hsplit⟩ :=
    Legible.fragment_split hlegible hread (h.levels_eq_zero hlevel) hanew
  -- The statements of the program come apart as those of the lines do.
  have hstatements : Q.withoutLines.statements =
      first.withoutLines.statements ++ second.withoutLines.statements := by
    rw [← hsame, hsplit]
  simp only [Program.withoutLines, Stmt.listWithoutLines_eq_map] at hstatements
  obtain ⟨front, back, hQ, hfront, hback⟩ := List.map_eq_append_iff.mp hstatements
  have hsame' {P : Program} {body : List Stmt}
      (hbody : body.map Stmt.withoutLines = P.statements.map Stmt.withoutLines) :
      P.withoutLines = Program.withoutLines ⟨body⟩ := by
    simp only [Program.withoutLines, Stmt.listWithoutLines_eq_map, hbody]
  exact ⟨first, front, back, hfirst, hsame' hfront, hQ, h.toWaiting.run, second, hsecond,
    hsame' hback⟩

/-- In all lines together as many braces close as open. -/
theorem levels_append_eq_zero (h : Expects pending rest Q) : levels (pending ++ rest) = 0 := by
  obtain ⟨P, hread, -⟩ := h.reads
  obtain ⟨body, hbody⟩ := Legible.exists_spells h.legible
  rw [← level_joined_lines]
  exact hbody.level_eq_zero hread

/-- At the end of the lines none waits, and no statement is left. -/
theorem done (h : Expects pending [] Q) : pending = [] ∧ Q.statements = [] := by
  have hpending := h.eq_nil (List.append_nil pending ▸ h.levels_append_eq_zero)
  subst hpending
  obtain ⟨P, hread, hsame⟩ := h.reads
  rw [List.append_nil, fragment_joined_nil] at hread
  cases hread
  have hnone : Stmt.listWithoutLines Q.statements = [] := (congrArg Program.statements hsame).symm
  rw [Stmt.listWithoutLines_eq_map, List.map_eq_nil_iff] at hnone
  exact ⟨rfl, hnone⟩

/-- Where no brace is open, the next line is the first of all lines that are left, and does not
continue a statement. So none of the lines does if none after it does. -/
theorem noneContinues_iff (h : Expects pending (line :: rest) Q) :
    NoneContinues (levels pending) (line :: rest) ↔
      NoneContinues (levels (pending ++ [line])) rest := by
  rw [NoneContinues, levels_concat, and_iff_right_iff_imp]
  intro _ hzero
  obtain rfl := h.eq_nil hzero
  obtain ⟨P, hread, -⟩ := h.reads
  obtain ⟨body, hbody⟩ := Legible.exists_spells h.legible
  obtain ⟨us, hus⟩ := h.legible line List.mem_cons_self
  have hfirst : Spells (joined [line]) us := hus
  have hlegible : Legible ([line] ++ rest) := h.legible
  have hstart : continues (joined ([line] ++ rest)) = false := hbody.continues_of_fragment hread
  rw [Legible.continues_append hlegible hfirst] at hstart
  split at hstart
  · rename_i hempty
    rw [hus.continues_eq, hempty]
    rfl
  · exact hstart

end Expects

/-- The lines that wait and those to come start with a token that continues a statement, and their
braces are closed. -/
structure Stray (pending rest : List String) : Prop extends Waiting pending rest where
  starts : continues (joined (pending ++ rest)) = true
  levels_eq : levels (pending ++ rest) = 0

namespace Stray

variable {pending rest : List String} {line : String}

theorem skip (h : Stray [] (line :: rest)) (hblank : Text.trim line.toList = []) :
    Stray [] rest where
  toWaiting := h.toWaiting.skip
  starts := (Legible.sameWords_tail h.legible hblank).continues_eq ▸ h.starts
  levels_eq := by
    have hall := h.levels_eq
    rw [append_cons_eq, levels_append, h.levels_concat_blank hblank] at hall
    simpa using hall

theorem keepBlank (h : Stray pending (line :: rest)) (hblank : Text.trim line.toList = [])
    (hpending : pending ≠ []) : Stray (pending ++ [""]) rest where
  toWaiting := h.toWaiting.keepBlank hpending
  starts := by
    rw [← append_cons_eq, ← (Legible.sameWords_blank h.legible hblank).continues_eq]
    exact h.starts
  levels_eq := by
    have hall := h.levels_eq
    rw [append_cons_eq, levels_append, h.levels_concat_blank hblank] at hall
    rw [levels_append, levels_concat_empty]
    simpa using hall

theorem collect (h : Stray pending (line :: rest)) (hlevel : 0 < levels (pending ++ [line])) :
    Stray (pending ++ [line]) rest :=
  ⟨h.toWaiting.collect hlevel, append_cons_eq pending rest line ▸ h.starts,
    append_cons_eq pending rest line ▸ h.levels_eq⟩

/-- The lines that the shell runs hold no statements, or they are nothing and what is left is no
better. -/
theorem run (h : Stray pending (line :: rest)) :
    (∀ P, fragment (joined (pending ++ [line])) ≠ .ok P) ∨ Stray [] rest := by
  have hlegible := h.legible
  have hstarts := h.starts
  have hlevels := h.levels_eq
  rw [append_cons_eq] at hlegible hstarts hlevels
  obtain ⟨us, hus⟩ := Legible.exists_spells (List.forall_mem_append.mp hlegible).1
  rw [Legible.continues_append hlegible hus] at hstarts
  split at hstarts
  · rename_i hempty
    have hzero : levels (pending ++ [line]) = 0 := by
      rw [← level_joined_lines, ← hus.level_eq, hempty]
      rfl
    rw [levels_append, hzero, Int.zero_add] at hlevels
    exact .inr ⟨h.toWaiting.run, hstarts, hlevels⟩
  · refine .inl fun P hread => ?_
    rw [hus.continues_of_fragment hread] at hstarts
    cases hstarts

theorem not_done (h : Stray pending []) : False := by
  obtain rfl := h.eq_nil (List.append_nil pending ▸ h.levels_eq)
  have hstarts := h.starts
  rw [List.append_nil, continues_joined_nil] at hstarts
  cases hstarts

end Stray

/-! ## Feeding a shell -/

/-- A reply to statements that run without an error: it holds nothing but the lines that they print.
-/
def Reply.IsPlain (reply : Reply) : Prop :=
  reply.shown = "" ∧ reply.reported = "" ∧ reply.stop = false

/-- A shell was fed what takes a run from one state to another: it has printed what the run prints
and nothing else, it has come to the same state, lines inside function bodies aside, and no line
waits. -/
structure Follows (outcome : Shell × List Reply) (before after : State) : Prop where
  plain : ∀ reply ∈ outcome.2, reply.IsPlain
  printed : after.output = before.output ++ (outcome.2.flatMap Reply.printed).toArray
  state : outcome.1.session.state.clearOutput.Alike Stmt.SameButLines after.clearOutput
  pending : outcome.1.pending = []

/-- Running a text in a shell. -/
theorem execute_of_fragment (session : Session) {text : String} {P : Program} {after : State}
    (h : fragment text = .ok P) (hrun : session.state.clearOutput.run P = (.ok (), after)) :
    (execute session text).1.state = after ∧
      (execute session text).2 = ⟨after.output.toList, "", "", false⟩ := by
  have hadd := Session.add_of_fragment { session with state := session.state.clearOutput } h
  dsimp only at hadd
  rw [hrun] at hadd
  unfold execute
  dsimp only
  rw [hadd]
  exact ⟨rfl, rfl⟩

/-- The first statements of a run, which are those that the lines hold that the shell runs. -/
theorem execute_follows {session : Session} {text : String} {P : Program} {first : List Stmt}
    {before middle : State} (h : fragment text = .ok P)
    (hsame : P.withoutLines = Program.withoutLines ⟨first⟩)
    (hstate : session.state.clearOutput.Alike Stmt.SameButLines before.clearOutput)
    (hrun : before.run ⟨first⟩ = (.ok (), middle)) :
    (execute session text).2.IsPlain ∧
      middle.output = before.output ++ (execute session text).2.printed.toArray ∧
      (execute session text).1.state.clearOutput.Alike Stmt.SameButLines middle.clearOutput := by
  rw [State.run_clearOutput] at hrun
  obtain ⟨hok, rfl⟩ := Prod.mk.inj hrun
  obtain ⟨hresult, halike⟩ := State.run_sameOutcome hsame hstate
  rw [hok] at hresult
  rcases hfound : session.state.clearOutput.run P with ⟨_ | _, after⟩
  · rw [hfound] at hresult
    cases hresult
  · rw [hfound] at halike
    obtain ⟨hafter, hreply⟩ := execute_of_fragment session h hfound
    rw [hafter, hreply]
    have houtput : after.output = (before.clearOutput.run ⟨first⟩).2.output := halike.output
    refine ⟨⟨rfl, rfl, rfl⟩, ?_, ?_⟩
    · simp [houtput]
    · exact { halike with output := rfl }

theorem Follows.replied {outcome : Shell × List Reply} {before middle after : State} {reply : Reply}
    (h : Follows outcome middle after) (hplain : reply.IsPlain)
    (hprinted : middle.output = before.output ++ reply.printed.toArray) :
    Follows (Shell.replied reply outcome) before after where
  plain := List.forall_mem_cons.mpr ⟨hplain, h.plain⟩
  printed := by rw [h.printed, hprinted]; simp [Shell.replied]
  state := h.state
  pending := h.pending

theorem Follows.replied_none {outcome : Shell × List Reply} {before after : State}
    (h : Follows outcome before after) : Follows (Shell.replied .none outcome) before after :=
  h.replied ⟨rfl, rfl, rfl⟩ Array.append_empty.symm

/-- Fed with the lines of statements that run without an error, the shell follows the run, if no
line continues a statement from outside of all braces. -/
theorem feedAll_follows {session : Session} {pending rest : List String} {Q : Program}
    {before after : State} (hcommands : ∀ line ∈ rest, isCommand line = false)
    (hexpects : Expects pending rest Q) (hnone : NoneContinues (levels pending) rest)
    (hplain : ∀ stmt ∈ Q.statements, stmt.isFunction = false)
    (hstate : session.state.clearOutput.Alike Stmt.SameButLines before.clearOutput)
    (hrun : before.run Q = (.ok (), after)) :
    Follows (feedAll ⟨session, pending⟩ rest) before after := by
  induction rest generalizing session pending Q before with
  | nil =>
      obtain ⟨hpending, hnil⟩ := hexpects.done
      obtain ⟨statements⟩ := Q
      subst hnil
      cases hrun
      exact ⟨List.forall_mem_nil _, by simp [feedAll], hstate, hpending⟩
  | cons line rest ih =>
      obtain ⟨hline, hrest⟩ := List.forall_mem_cons.mp hcommands
      rw [hexpects.noneContinues_iff] at hnone
      have hfeeds := feeds session pending hline rest
      generalize feedAll ⟨session, pending⟩ (line :: rest) = outcome at hfeeds ⊢
      cases hfeeds with
      | skips hblank hpending =>
          subst hpending
          rw [hexpects.levels_concat_blank hblank] at hnone
          exact (ih hrest (hexpects.skip hblank) hnone hplain hstate hrun).replied_none
      | keepsBlank hblank hpending =>
          rw [hexpects.levels_concat_blank hblank, ← levels_concat_empty] at hnone
          exact (ih hrest (hexpects.keepBlank hblank hpending) hnone hplain hstate
            hrun).replied_none
      | collects hlevel =>
          exact (ih hrest (hexpects.collect hlevel) hnone hplain hstate hrun).replied_none
      | runs hlevel =>
          rw [hexpects.levels_eq_zero hlevel] at hnone
          have hanew := Legible.continues_eq_false hexpects.toWaiting.run.legible hnone
          obtain ⟨P, first, second, hread, hsame, hsplit, hnext⟩ := hexpects.run hlevel hanew
          obtain ⟨statements⟩ := Q
          subst hsplit
          obtain ⟨-, hplain'⟩ := List.forall_mem_append.mp hplain
          rw [State.run_append before first hplain'] at hrun
          rcases hfirst : before.run ⟨first⟩ with ⟨_ | _, middle⟩ <;> rw [hfirst] at hrun
          · cases hrun
          · obtain ⟨hquiet, hprinted, hmiddle⟩ := execute_follows hread hsame hstate hfirst
            exact (ih hrest hnext hnone hplain' hmiddle hrun).replied hquiet hprinted

/-! ## Lines that continue a statement from outside of all braces -/

/-- The shell has reported an error. -/
def Complains (outcome : Shell × List Reply) : Prop := ∃ reply ∈ outcome.2, reply.reported ≠ ""

theorem Complains.replied {outcome : Shell × List Reply} (h : Complains outcome) (reply : Reply) :
    Complains (Shell.replied reply outcome) := by
  obtain ⟨last, hmem, hlast⟩ := h
  exact ⟨last, List.mem_cons_of_mem _ hmem, hlast⟩

/-- No report of a failure is empty. -/
theorem handle_ne_empty (reporter : Reporter) (failure : Failure) :
    (reporter.handle failure.interruption).2 ≠ "" := by
  cases failure <;> simp [Failure.interruption, Reporter.handle]

/-- A text that holds no statements is reported. -/
theorem execute_complains (session : Session) {text : String} (h : ∀ P, fragment text ≠ .ok P) :
    (execute session text).2.reported ≠ "" := by
  cases hread : fragment text with
  | ok P => exact absurd hread (h P)
  | error failure =>
      unfold execute Session.add
      rw [hread]
      exact handle_ne_empty _ failure

theorem Stray.complains {session : Session} {pending rest : List String} (h : Stray pending rest)
    (hcommands : ∀ line ∈ rest, isCommand line = false) :
    Complains (feedAll ⟨session, pending⟩ rest) := by
  induction rest generalizing session pending with
  | nil => exact h.not_done.elim
  | cons line rest ih =>
      obtain ⟨hline, hrest⟩ := List.forall_mem_cons.mp hcommands
      have hfeeds := feeds session pending hline rest
      generalize feedAll ⟨session, pending⟩ (line :: rest) = outcome at hfeeds ⊢
      cases hfeeds with
      | skips hblank hpending =>
          subst hpending
          exact (ih (h.skip hblank) hrest).replied _
      | keepsBlank hblank hpending =>
          exact (ih (h.keepBlank hblank hpending) hrest).replied _
      | collects hlevel =>
          exact (ih (h.collect hlevel) hrest).replied _
      | runs =>
          obtain hbroken | hstray := h.run
          · exact ⟨_, List.mem_cons_self, execute_complains session hbroken⟩
          · exact (ih hstray hrest).replied _

/-- Fed with a line that continues a statement from outside of all braces, the shell reports an
error. -/
theorem feedAll_complains {session : Session} {pending rest : List String} {Q : Program}
    (hcommands : ∀ line ∈ rest, isCommand line = false) (hexpects : Expects pending rest Q)
    (hsome : ¬ NoneContinues (levels pending) rest) :
    Complains (feedAll ⟨session, pending⟩ rest) := by
  induction rest generalizing session pending Q with
  | nil => exact absurd trivial hsome
  | cons line rest ih =>
      obtain ⟨hline, hrest⟩ := List.forall_mem_cons.mp hcommands
      rw [hexpects.noneContinues_iff] at hsome
      have hfeeds := feeds session pending hline rest
      generalize feedAll ⟨session, pending⟩ (line :: rest) = outcome at hfeeds ⊢
      cases hfeeds with
      | skips hblank hpending =>
          subst hpending
          rw [hexpects.levels_concat_blank hblank] at hsome
          exact (ih hrest (hexpects.skip hblank) hsome).replied _
      | keepsBlank hblank hpending =>
          rw [hexpects.levels_concat_blank hblank, ← levels_concat_empty] at hsome
          exact (ih hrest (hexpects.keepBlank hblank hpending) hsome).replied _
      | collects hlevel =>
          exact (ih hrest (hexpects.collect hlevel) hsome).replied _
      | runs hlevel =>
          have hzero := hexpects.levels_eq_zero hlevel
          cases hstart : continues (joined rest) with
          | true =>
              have hlevels := hexpects.levels_append_eq_zero
              rw [append_cons_eq, levels_append, hzero, Int.zero_add] at hlevels
              have hstray : Stray [] rest := ⟨hexpects.toWaiting.run, hstart, hlevels⟩
              exact (hstray.complains hrest).replied _
          | false =>
              obtain ⟨-, -, second, -, -, -, hnext⟩ := hexpects.run hlevel hstart
              rw [hzero] at hsome
              exact (ih hrest hnext hsome).replied _

/-! ## The shell and the text as a whole -/

/-- Lines that a session runs as a whole without an error, and of which the shell may be fed one
after the other: none is a command, no string or comment has a brace in it, and no function is
declared outside of blocks. -/
structure RunsWhole (session : Session) (lines : List String) : Prop where
  commands : ∀ line ∈ lines, isCommand line = false
  braces : HidesNoBrace (joined lines)
  reads : ∃ P, fragment (joined lines) = .ok P ∧ ∀ stmt ∈ P.statements, stmt.isFunction = false
  runs : (session.add (joined lines)).1 = .ok ()

/-- Fed line by line, the shell agrees with the session that runs the text as a whole, unless a line
continues a statement from outside of all braces; and then it reports an error. -/
theorem feedAll_agrees {session : Session} {lines : List String} (h : RunsWhole session lines) :
    (NoneContinues 0 lines →
      Follows (feedAll ⟨session, []⟩ lines) session.state (session.add (joined lines)).2.state) ∧
    (¬ NoneContinues 0 lines → Complains (feedAll ⟨session, []⟩ lines)) := by
  obtain ⟨P, hread, hplain⟩ := h.reads
  obtain ⟨found, hscan, -⟩ := read_eq_ok_iff.mp hread
  have hexpects : Expects [] lines P := ⟨.none (legible_of_joined hscan h.braces), P, hread, rfl⟩
  have hadd := session.add_of_fragment hread
  have hruns := h.runs
  rw [hadd] at hruns ⊢
  refine ⟨fun hnone => ?_, feedAll_complains h.commands hexpects⟩
  have hrun : session.state.run P = (.ok (), (session.state.run P).2) := by rw [← hruns]
  exact feedAll_follows h.commands hexpects hnone hplain (.refl Stmt.SameButLines.refl _) hrun

/-- An alternative on a line of its own, where all braces are closed. -/
def elseApart : List String := ["jr barobr \x7b", "\x7d", "nahitr \x7b", "\x7d"]

/-- An alternative on the line of the brace before it, and in its block a condition whose own block
starts on the next line. -/
def elseBeside : List String :=
  ["jr chuk \x7b", "", "\x7d nahitr \x7b", "  jr barobr", "  \x7b he bol 1 \x7d", "\x7d"]

theorem runsWhole_elseApart : RunsWhole CommandLine.newShell.session elseApart := by
  have hscan : Token.scan (joined elseApart) =
      .ok ([⟨.ifWord, "jr", 1⟩, ⟨.trueWord, "barobr", 1⟩, ⟨.leftBrace, "\x7b", 1⟩,
        ⟨.newline, "\\n", 1⟩, ⟨.rightBrace, "\x7d", 2⟩, ⟨.newline, "\\n", 2⟩,
        ⟨.elseWord, "nahitr", 3⟩, ⟨.leftBrace, "\x7b", 3⟩, ⟨.newline, "\\n", 3⟩,
        ⟨.rightBrace, "\x7d", 4⟩] ++ [⟨.endOfInput, "", 4⟩]) := by
    decide +kernel
  have hread : fragment (joined elseApart) =
      .ok ⟨[.ifThen (.boolean true) [] (.otherwise []) (some 1)]⟩ :=
    read_eq_ok_iff.mpr ⟨_, hscan, rfl⟩
  refine ⟨by decide +kernel, ?_, ⟨_, hread, by simp [Stmt.isFunction]⟩, by decide +kernel⟩
  rw [hidesNoBrace_iff hscan]
  intro c kind hbrace
  cases hbrace <;> decide +kernel

theorem runsWhole_elseBeside : RunsWhole CommandLine.newShell.session elseBeside := by
  have hscan : Token.scan (joined elseBeside) =
      .ok ([⟨.ifWord, "jr", 1⟩, ⟨.falseWord, "chuk", 1⟩, ⟨.leftBrace, "\x7b", 1⟩,
        ⟨.newline, "\\n", 1⟩, ⟨.rightBrace, "\x7d", 3⟩, ⟨.elseWord, "nahitr", 3⟩,
        ⟨.leftBrace, "\x7b", 3⟩, ⟨.newline, "\\n", 3⟩, ⟨.ifWord, "jr", 4⟩,
        ⟨.trueWord, "barobr", 4⟩, ⟨.newline, "\\n", 4⟩, ⟨.leftBrace, "\x7b", 5⟩,
        ⟨.print, "he bol", 5⟩, ⟨.number, "1", 5⟩, ⟨.rightBrace, "\x7d", 5⟩,
        ⟨.newline, "\\n", 5⟩, ⟨.rightBrace, "\x7d", 6⟩] ++ [⟨.endOfInput, "", 6⟩]) := by
    decide +kernel
  have hread : fragment (joined elseBeside) =
      .ok ⟨[.ifThen (.boolean false) [] (.otherwise [.ifThen (.boolean true)
        [.print (.number (Number.ofDecimal false ⟨1, 0⟩)) (some 5)] .nothing (some 4)])
        (some 1)]⟩ :=
    read_eq_ok_iff.mpr ⟨_, hscan, rfl⟩
  refine ⟨by decide +kernel, ?_, ⟨_, hread, by simp [Stmt.isFunction]⟩, by decide +kernel⟩
  rw [hidesNoBrace_iff hscan]
  intro c kind hbrace
  cases hbrace <;> decide +kernel

/-- The shell agrees about the alternative in its place, and reports the one on its own. -/
theorem feedAll_agrees_else :
    RunsWhole CommandLine.newShell.session elseBeside ∧ NoneContinues 0 elseBeside ∧
      Follows (CommandLine.newShell.feedAll elseBeside) .initial
        (CommandLine.newShell.session.add (joined elseBeside)).2.state ∧
      RunsWhole CommandLine.newShell.session elseApart ∧ ¬ NoneContinues 0 elseApart ∧
      Complains (CommandLine.newShell.feedAll elseApart) := by
  have hbeside : NoneContinues 0 elseBeside := by decide +kernel
  have hapart : ¬ NoneContinues 0 elseApart := by decide +kernel
  exact ⟨runsWhole_elseBeside, hbeside, (feedAll_agrees runsWhole_elseBeside).1 hbeside,
    runsWhole_elseApart, hapart, (feedAll_agrees runsWhole_elseApart).2 hapart⟩

/-- A session runs the alternative on a line of its own without an error, and a shell that is fed
with its lines reports one. -/
theorem feedAll_elseApart :
    RunsWhole CommandLine.newShell.session elseApart ∧
      Complains (CommandLine.newShell.feedAll elseApart) ∧
      ¬ Follows (CommandLine.newShell.feedAll elseApart) .initial
        (CommandLine.newShell.session.add (joined elseApart)).2.state := by
  have hreported : ((CommandLine.newShell.feedAll elseApart).2.any (·.reported != "")) = true := by
    decide +kernel
  obtain ⟨reply, hmem, hne⟩ := List.any_eq_true.mp hreported
  have hcomplains : reply.reported ≠ "" := by simpa using hne
  refine ⟨runsWhole_elseApart, ⟨reply, hmem, hcomplains⟩, fun hfollows => ?_⟩
  exact hcomplains (hfollows.plain reply hmem).2.1

end Shell

end Bol
