/-
# The file to run as an argument

Which names of program files can be given to `bol run`. An argument that starts with `-` is read
as a flag unless it has a blank in it, and even then if it starts with `-h` or cuts `--help` short.
All other names are taken as they are; these are refused, and nothing runs.
-/

import Mathlib.Data.List.TakeWhile
import Bol.CommandLine

namespace Bol.CommandLine

/-- The end of a program whose arguments make no sense. -/
def Exit.IsRefusal (exit : Exit) : Prop :=
  ∃ (command : Command) (message : String), exit = command.refuse message

/-- An argument may stand for the flag of this name, being cut short or having text attached. -/
def StandsFor (arg name : List Char) : Prop :=
  if "--".toList <+: arg then arg.takeWhile (· != '=') <+: name
  else name = arg.take 2 ∨ arg <+: name

/-- A name that the command for running files reads as an argument and not as a flag. -/
def IsFileArgument (name : String) : Prop :=
  name.toList.head? ≠ some '-' ∨
    ' ' ∈ name.toList ∧ ¬ StandsFor name.toList "-h".toList ∧
      ¬ StandsFor name.toList "--help".toList

namespace Command

/-- The flag under this name, if the argument may stand for it. -/
def candidate? (arg : List Char) (named : String × Flag) : Option (String × Mark) :=
  let cut := arg.takeWhile (· != '=')
  let attached := if cut.length < arg.length then some (arg.drop (cut.length + 1)) else none
  if "--".toList.isPrefixOf arg then
    if cut.isPrefixOf named.1.toList then some (named.1, .flag named.2 named.1 attached) else none
  else if named.1.toList = arg.take 2 then
    some (named.1, .flag named.2 named.1 (some (arg.drop 2)))
  else if arg.isPrefixOf named.1.toList then some (named.1, .flag named.2 named.1 none)
  else none

theorem candidates_eq (command : Command) (arg : List Char) :
    command.candidates arg = command.flagNames.filterMap (candidate? arg) := rfl

theorem candidate?_eq_none_iff {arg : List Char} {named : String × Flag} :
    candidate? arg named = none ↔ ¬ StandsFor arg named.1.toList := by
  unfold candidate? StandsFor
  simp only [List.isPrefixOf_iff_prefix]
  split
  · split <;> simp_all
  · split
    · simp_all
    · split <;> simp_all

/-- A point that does not stand before the first equals sign stands after it. -/
theorem dot_mem_attached {arg : List Char} (hdot : '.' ∈ arg)
    (hcut : '.' ∉ arg.takeWhile (· != '=')) :
    (arg.takeWhile (· != '=')).length < arg.length ∧
      '.' ∈ arg.drop ((arg.takeWhile (· != '=')).length + 1) := by
  have hsplit := List.takeWhile_append_dropWhile (p := (· != '=')) (l := arg)
  generalize arg.takeWhile (· != '=') = cut at *
  cases hrest : arg.dropWhile (· != '=') with
  | nil =>
      rw [hrest, List.append_nil] at hsplit
      exact absurd (hsplit ▸ hdot) hcut
  | cons c rest =>
      have hc : c = '=' := by
        have := List.head?_dropWhile_not (· != '=') arg
        simpa [hrest] using this
      rw [hrest] at hsplit
      subst hsplit hc
      refine ⟨by simp, ?_⟩
      simpa [hcut] using hdot

/-- A candidate for an argument with a point in it is a flag with text attached. -/
theorem of_candidate?_eq_some {arg : List Char} {named : String × Flag}
    {candidate : String × Mark} (h : candidate? arg named = some candidate) (hdot : '.' ∈ arg)
    (hname : '.' ∉ named.1.toList) :
    ∃ attached, candidate.2 = .flag named.2 named.1 (some attached) ∧ '.' ∈ attached := by
  unfold candidate? at h
  simp only [List.isPrefixOf_iff_prefix] at h
  split at h
  · split at h
    · rename_i hcut
      obtain ⟨hlt, hattached⟩ := dot_mem_attached hdot fun hmem => hname (hcut.subset hmem)
      rw [if_pos hlt] at h
      cases h
      exact ⟨_, rfl, hattached⟩
    · cases h
  · split at h
    · rename_i hshort
      cases h
      refine ⟨_, rfl, ?_⟩
      rw [← List.take_append_drop 2 arg, ← hshort] at hdot
      exact (List.mem_append.mp hdot).resolve_left hname
    · split at h
      · rename_i hcut
        exact absurd (hcut.subset hdot) hname
      · cases h

end Command

section

variable {name : String} (hname : Session.extension.toList <:+ name.toList)
include hname

theorem dot_mem : '.' ∈ name.toList := hname.subset (by decide)

/-- The name of a program file is no number: it ends in a letter. -/
theorem isNegativeNumber_eq_false : isNegativeNumber name.toList = false := by
  obtain ⟨front, hfront⟩ := hname
  have hlast : name.toList.getLast? = some 'l' := by
    rw [← hfront]
    simp [Session.extension]
  have hmem := List.mem_of_getLast? hlast
  unfold isNegativeNumber
  rw [hlast, if_neg (by decide)]
  split
  · rename_i number htext
    rw [htext] at hmem
    replace hmem : 'l' ∈ number := by simpa using hmem
    have hsplit := List.takeWhile_append_dropWhile (p := Text.isDecimalDigit) (l := number)
    have hdrop : 'l' ∈ number.dropWhile Text.isDecimalDigit := by
      rw [← hsplit] at hmem
      refine (List.mem_append.mp hmem).resolve_left fun htake => ?_
      exact absurd (List.mem_takeWhile_imp htake) (by decide)
    split
    · rename_i hnil
      rw [hnil] at hdrop
      cases hdrop
    · rename_i fraction hpoint
      rw [hpoint] at hdrop
      have hfraction : 'l' ∈ fraction := by simpa using hdrop
      have hnot : fraction.all Text.isDecimalDigit = false :=
        List.all_eq_false.mpr ⟨'l', hfraction, by decide⟩
      rw [hnot, Bool.and_false]
    · rfl
  · rfl

end

/-- The flags of the command have names without points, either long or of one letter. -/
def Command.HasPlainFlags (command : Command) : Prop :=
  ∀ named ∈ command.flagNames, '.' ∉ named.1.toList ∧
    ("--".toList <+: named.1.toList ∨ named.1.toList.length = 2)

instance (command : Command) : Decidable command.HasPlainFlags :=
  inferInstanceAs (Decidable (∀ named ∈ command.flagNames, _))

theorem bol_flagNames :
    bol.flagNames = [("-h", helpFlag help), ("--help", helpFlag help),
      ("--version", ⟨["--version"], ⟨0, s!"bol {version}\n", ""⟩⟩)] := rfl

theorem runCommand_flagNames :
    runCommand.flagNames = [("-h", helpFlag runHelp), ("--help", helpFlag runHelp)] := rfl

theorem bol_hasPlainFlags : bol.HasPlainFlags := by decide

theorem runCommand_hasPlainFlags : runCommand.HasPlainFlags := by decide

theorem standsFor_of_takeWhile_eq {arg flag : List Char} (hcut : arg.takeWhile (· != '=') = flag)
    (hflag : "--".toList <+: flag ∨ flag.length = 2) : StandsFor arg flag := by
  have hbefore : flag <+: arg := hcut ▸ List.takeWhile_prefix _
  unfold StandsFor
  split
  · exact hcut ▸ List.prefix_rfl
  · rename_i hshort
    have hlength := hflag.resolve_left fun hlong => hshort (hlong.trans hbefore)
    exact .inl (hlength ▸ List.prefix_iff_eq_take.mp hbefore)

/-- What the name of a program file is taken for if it starts with `-`. -/
inductive Command.Reads (command : Command) (name : String) : Except Exit Mark → Prop
  | flag {named : String × Flag} {attached : List Char} (hnamed : named ∈ command.flagNames)
      (hstands : StandsFor name.toList named.1.toList) (hdot : '.' ∈ attached) :
      Reads command name (.ok (.flag named.2 named.1 (some attached)))
  | ambiguous {first second : String × Mark} {more : List (String × Mark)}
      (hseveral : command.candidates name.toList = first :: second :: more) (message : String) :
      Reads command name (.error (command.refuse message))
  | plain (hnone : ∀ named ∈ command.flagNames, ¬ StandsFor name.toList named.1.toList) :
      Reads command name (.ok (if ' ' ∈ name.toList then .argument else .unknownFlag))

namespace Command

section

variable {command : Command} (hplain : command.HasPlainFlags) {name : String}
include hplain

/-- An argument with the full name of a flag before an equals sign. -/
theorem reads_of_cut (hdot : '.' ∈ name.toList) {flag : Flag} {cut : String}
    (hcut : cut.toList = name.toList.takeWhile (· != '='))
    (hlookup : command.flagNames.lookup cut = some flag) :
    command.Reads name (.ok (.flag flag cut (some (name.toList.drop (cut.length + 1))))) := by
  obtain ⟨before, after, hnames, -⟩ := List.lookup_eq_some_iff.mp hlookup
  have hnamed : (cut, flag) ∈ command.flagNames := by simp [hnames]
  obtain ⟨hpoint, hshape⟩ := hplain _ hnamed
  refine .flag hnamed (standsFor_of_takeWhile_eq hcut.symm hshape) ?_
  rw [← String.length_toList, hcut]
  exact (dot_mem_attached hdot (hcut ▸ hpoint)).2

/-- An argument that may stand for one flag. -/
theorem reads_of_candidate (hdot : '.' ∈ name.toList) {candidate : String × Mark}
    (hone : command.candidates name.toList = [candidate]) :
    command.Reads name (.ok candidate.2) := by
  rw [candidates_eq] at hone
  obtain ⟨named, hnamed, hcandidate⟩ := List.mem_filterMap.mp (hone ▸ List.mem_singleton.mpr rfl)
  have hstands : StandsFor name.toList named.1.toList := by
    by_contra hnot
    rw [candidate?_eq_none_iff.mpr hnot] at hcandidate
    cases hcandidate
  obtain ⟨attached, hmark, hattached⟩ :=
    of_candidate?_eq_some hcandidate hdot (hplain named hnamed).1
  rw [hmark]
  exact .flag hnamed hstands hattached

theorem reads_of_dash (hname : Session.extension.toList <:+ name.toList)
    (hdash : name.toList.head? = some '-') : command.Reads name (command.mark name) := by
  have hdot := dot_mem hname
  have hlookup : command.flagNames.lookup name = none := by
    cases hfound : command.flagNames.lookup name with
    | none => rfl
    | some flag =>
        obtain ⟨before, after, hnames, -⟩ := List.lookup_eq_some_iff.mp hfound
        exact absurd hdot (hplain (name, flag) (by simp [hnames])).1
  unfold mark
  dsimp only
  split
  · rename_i hnil
    rw [hnil] at hdash
    cases hdash
  · rename_i c rest htext
    obtain rfl : c = '-' := by simpa [htext] using hdash
    rw [if_neg (by simp), hlookup]
    dsimp only
    rw [if_neg (by rintro rfl; simp [htext] at hdot)]
    split
    · rename_i flag hcut
      split at hcut
      · exact reads_of_cut hplain hdot String.toList_ofList hcut
      · cases hcut
    · split
      · rename_i hone
        exact reads_of_candidate hplain hdot hone
      · rename_i hseveral
        exact .ambiguous hseveral _
      · rename_i hnone
        have hreads : command.Reads name
            (.ok (if ' ' ∈ name.toList then .argument else .unknownFlag)) :=
          .plain fun named hnamed => candidate?_eq_none_iff.mp
            (List.filterMap_eq_nil_iff.mp (candidates_eq command _ ▸ hnone) named hnamed)
        rw [isNegativeNumber_eq_false hname]
        by_cases hblank : ' ' ∈ name.toList <;> simpa [hblank] using hreads

end

/-- An argument that does not start with `-` is taken for one. -/
theorem mark_of_head {command : Command} {arg : String} (hdash : arg.toList.head? ≠ some '-') :
    command.mark arg = .ok .argument := by
  unfold mark
  dsimp only
  split
  · rfl
  · rename_i c rest htext
    exact if_pos fun hc => hdash (by rw [htext, hc]; rfl)

theorem read_single (command : Command) {arg : String} (harg : arg ≠ "--") :
    command.read [arg] = (do command.assign none [] [(← command.mark arg, arg)]) := by
  rw [read, marks, if_neg harg, marks]
  cases command.mark arg <;> rfl

end Command

/-- A file argument is taken as it is. -/
theorem mark_of_isFileArgument {name : String} (hname : Session.extension.toList <:+ name.toList)
    (hargument : IsFileArgument name) :
    (∃ mark, bol.mark name = .ok mark) ∧ runCommand.mark name = .ok .argument := by
  by_cases hdash : name.toList.head? = some '-'
  · obtain ⟨hblank, hshort, hlong⟩ := hargument.resolve_left (not_not_intro hdash)
    have hnotShort (flag : Flag) : Command.candidate? name.toList ("-h", flag) = none :=
      Command.candidate?_eq_none_iff.mpr hshort
    have hnotLong (flag : Flag) : Command.candidate? name.toList ("--help", flag) = none :=
      Command.candidate?_eq_none_iff.mpr hlong
    constructor
    · have hreads := Command.reads_of_dash bol_hasPlainFlags hname hdash
      generalize bol.mark name = outcome at hreads
      cases hreads with
      | flag | plain => exact ⟨_, rfl⟩
      | @ambiguous first second more hseveral =>
          -- Only `--version` is left, so there are no two flags to choose from.
          rw [Command.candidates_eq, bol_flagNames,
            List.filterMap_cons_none (hnotShort _), List.filterMap_cons_none (hnotLong _)]
            at hseveral
          have hlength := hseveral ▸ List.length_filterMap_le _ _
          simp at hlength
    · have hreads := Command.reads_of_dash runCommand_hasPlainFlags hname hdash
      generalize runCommand.mark name = outcome at hreads
      cases hreads with
      | flag hnamed hstands =>
          simp only [runCommand_flagNames, List.mem_cons, List.not_mem_nil, or_false] at hnamed
          rcases hnamed with rfl | rfl
          · exact absurd hstands hshort
          · exact absurd hstands hlong
      | ambiguous hseveral =>
          rw [Command.candidates_eq, runCommand_flagNames,
            List.filterMap_cons_none (hnotShort _), List.filterMap_cons_none (hnotLong _)]
            at hseveral
          cases hseveral
      | plain => rw [if_pos hblank]
  · exact ⟨⟨_, Command.mark_of_head hdash⟩, Command.mark_of_head hdash⟩

/-- A character that is no flag leaves no use for the text that it stands in. -/
theorem useShort_isRefusal (used flag : Flag) {attached : List Char} (hdot : '.' ∈ attached) :
    (runCommand.useShort used flag attached).IsRefusal := by
  have hnone : runCommand.flagNames.lookup (String.ofList ['-', '.']) = none := rfl
  induction attached generalizing flag with
  | nil => cases hdot
  | cons c rest ih =>
      unfold Command.useShort
      split
      · exact ⟨runCommand, _, rfl⟩
      · rename_i hflag
        obtain rfl := List.mem_singleton.mp hdot
        rw [hnone] at hflag
        cases hflag
      · rename_i hflag
        refine ih _ ((List.mem_cons.mp hdot).resolve_left ?_)
        rintro rfl
        rw [hnone] at hflag
        cases hflag

theorem useFlag_isRefusal (flag : Flag) (name : String) {attached : List Char}
    (hdot : '.' ∈ attached) : (runCommand.useFlag flag name (some attached)).IsRefusal := by
  rw [Command.useFlag]
  split
  · exact ⟨runCommand, _, rfl⟩
  · exact useShort_isRefusal flag flag hdot

theorem assign_argument (name : String) :
    runCommand.assign none [] [(.argument, name)] = .ok (some [name], []) := by
  unfold Command.assign
  rfl

theorem assign_unknownFlag (name : String) :
    runCommand.assign none [] [(.unknownFlag, name)] = .ok (none, [name]) := by
  rw [Command.assign]
  dsimp
  rw [Command.assign]
  rfl

/-- Any other name is taken for a flag that is not there, or that is not used in this way. -/
theorem read_of_not_isFileArgument {name : String}
    (hname : Session.extension.toList <:+ name.toList) (hargument : ¬ IsFileArgument name) :
    runCommand.read [name] = .ok (none, [name]) ∨
      ∃ exit, runCommand.read [name] = .error exit ∧ exit.IsRefusal := by
  have hdash : name.toList.head? = some '-' := by_contra fun h => hargument (.inl h)
  have hreads := Command.reads_of_dash runCommand_hasPlainFlags hname hdash
  rw [Command.read_single runCommand (by rintro rfl; exact absurd hname (by decide))]
  generalize runCommand.mark name = outcome at hreads
  cases hreads with
  | @flag named attached _ _ hdot =>
      refine .inr ⟨_, ?_, useFlag_isRefusal named.2 named.1 hdot⟩
      change runCommand.assign none [] [(.flag named.2 named.1 (some attached), name)] = _
      rw [Command.assign]
      rfl
  | ambiguous _ message => exact .inr ⟨_, rfl, _, message, rfl⟩
  | plain hnone =>
      rw [runCommand_flagNames] at hnone
      have hblank : ' ' ∉ name.toList := fun hblank =>
        hargument (.inr ⟨hblank, hnone _ (.head _), hnone _ (.tail _ (.head _))⟩)
      rw [if_neg hblank]
      exact .inl (assign_unknownFlag name)

/-- The program marks the name of the command, and then whatever follows it. -/
theorem marks_run {name : String} (hdashes : name ≠ "--") :
    bol.marks ["run", name] =
      (bol.mark name).map fun mark => [(.argument, "run"), (mark, name)] := by
  rw [Command.marks, if_neg (by decide), Command.mark_of_head (by decide), Command.marks,
    if_neg hdashes]
  cases bol.mark name <;> rfl

/-- Whatever it takes the second argument for, it leaves both to the command. -/
theorem read_run {name : String} (hdashes : name ≠ "--") :
    bol.read ["run", name] = (bol.mark name).map fun _ => (some ["run", name], []) := by
  have hassign (mark : Mark) : bol.assign none [] [(.argument, "run"), (mark, name)] =
      .ok (some ["run", name], []) := by
    have hcount : bol.filling none [(.argument, "run"), (mark, name)] = 2 := rfl
    have hrest : bol.assign (some ["run", name]) [] [] = .ok (some ["run", name], []) := by
      unfold Command.assign
      rfl
    unfold Command.assign
    simp [hcount, hrest]
  rw [Command.read, marks_run hdashes]
  cases bol.mark name with
  | error exit => rfl
  | ok mark => exact hassign mark

section

variable {name : String} {mark : Mark} {exit : Exit} {request : Request}

theorem request_of_mark_eq_error (hdashes : name ≠ "--") (hmark : bol.mark name = .error exit) :
    CommandLine.request ["run", name] = .error exit := by
  rw [CommandLine.request, read_run hdashes, hmark]
  rfl

/-- Otherwise the command decides what is asked for. -/
theorem request_of_command_eq_error (hdashes : name ≠ "--") (hmark : bol.mark name = .ok mark)
    (hcommand : command ["run", name] = .error exit) :
    CommandLine.request ["run", name] = .error exit := by
  rw [CommandLine.request, read_run hdashes, hmark]
  change (command ["run", name] >>= _) = _
  rw [hcommand]
  rfl

theorem request_of_command_eq_ok (hdashes : name ≠ "--") (hmark : bol.mark name = .ok mark)
    (hcommand : command ["run", name] = .ok (request, [])) :
    CommandLine.request ["run", name] = .ok request := by
  rw [CommandLine.request, read_run hdashes, hmark]
  change (command ["run", name] >>= _) = _
  rw [hcommand]
  rfl

end

/-- The command for running files is asked to run a file if its name is read as an argument, and it
is refused if not. -/
theorem request_run {name : String} (hname : Session.extension.toList <:+ name.toList) :
    (IsFileArgument name → request ["run", name] = .ok (.run name)) ∧
      (¬ IsFileArgument name → ∃ exit, request ["run", name] = .error exit ∧ exit.IsRefusal) := by
  have hdashes : name ≠ "--" := by
    rintro rfl
    exact absurd hname (by decide)
  constructor
  · intro hargument
    obtain ⟨⟨mark, hmark⟩, hrun⟩ := mark_of_isFileArgument hname hargument
    have hread : runCommand.read [name] = .ok (some [name], []) := by
      rw [Command.read_single runCommand hdashes, hrun]
      exact assign_argument name
    have herase : [name].erase "--" = [name] :=
      List.erase_of_not_mem (by simpa using Ne.symm hdashes)
    refine request_of_command_eq_ok hdashes hmark ?_
    rw [command, hread]
    change Except.ok (Request.run (([name].erase "--").headD ""), []) = _
    rw [herase]
    rfl
  · intro hargument
    have hdash : name.toList.head? = some '-' := by_contra fun h => hargument (.inl h)
    have hreads := Command.reads_of_dash bol_hasPlainFlags hname hdash
    cases hmark : bol.mark name with
    | error exit =>
        rw [hmark] at hreads
        cases hreads with
        | ambiguous _ message =>
            exact ⟨_, request_of_mark_eq_error hdashes hmark, bol, message, rfl⟩
    | ok mark =>
        rcases read_of_not_isFileArgument hname hargument with hread | ⟨exit, hread, hrefusal⟩
        · have hcommand : command ["run", name] =
              .error (runCommand.refuse "the following arguments are required: file") := by
            rw [command, hread]
            rfl
          exact ⟨_, request_of_command_eq_error hdashes hmark hcommand, runCommand, _, rfl⟩
        · refine ⟨exit, request_of_command_eq_error hdashes hmark ?_, hrefusal⟩
          rw [command, hread]
          rfl

end Bol.CommandLine
