/-
# The diagnosis of a text that cannot be read

A text that cannot be read offends at some place: by a character that no lexeme starts with, by the
opening quote of a string that does not end, or by the first token that cannot stand where it does.
The error has the line of the place and not the column, so the diagnosis marks the text of what
offends where the line has it first. It marks what offends, or nothing, exactly if the line has no
copy of that text before the place. It may have one: in a string, in a longer word, or as a token
that is right where it stands.
-/

import Mathlib.Data.List.Infix
import Bol.Proofs.Program.FirstError
import Bol.Proofs.Report.Marks
import Bol.Proofs.Session.ErrorLines

namespace Bol

/-! ## Pieces and their texts -/

namespace Text

/-- The column of the place after `before`, counted from zero. -/
def column (before : List Char) : Nat := (before.rtakeWhile (· ≠ '\n')).length

/-- The line around a place as it is shown, from the place on. -/
def shownFrom (rest : List Char) : List Char := trimEnd (rest.takeWhile (· ≠ '\n'))

/-- The text of a piece that is shown occurs in the line at the place of the piece. -/
theorem occursAt_lineAround {text piece after : List Char} {lead : Nat} (htext : text ≠ [])
    (hpiece : text <+: piece.drop lead) (hshown : piece <+: shownFrom (piece ++ after))
    (hfilled : shownFrom (piece ++ after) ≠ []) (before : List Char) :
    OccursAt text (trimEnd (lineAround before (piece ++ after))) (column before + lead) := by
  refine ⟨htext, ?_⟩
  rw [lineAround, trimEnd_append hfilled, column, ← List.drop_drop, List.drop_left]
  exact hpiece.trans (List.IsPrefix.drop hshown lead)

/-- A character is shown if anything of its line is shown from there on. -/
theorem prefix_shownFrom {c : Char} {after : List Char} (h : shownFrom (c :: after) ≠ []) :
    [c] <+: shownFrom (c :: after) := by
  have hprefix : shownFrom (c :: after) <+: c :: after :=
    (List.rdropWhile_prefix _ _).trans (List.takeWhile_prefix _)
  obtain ⟨d, more, hmore⟩ := List.exists_cons_of_ne_nil h
  rw [hmore, List.cons_prefix_cons] at hprefix
  rw [hmore, hprefix.1]
  exact List.prefix_append [c] more

end Text

namespace TokenKind

/-- How many characters of a token come before its text: a string has a quote there. -/
def lead : TokenKind → Nat
  | .string => 1
  | _ => 0

theorem lead_ofWord (word : String) : (ofWord word).lead = 0 := by
  have hkeywords : ∀ kind ∈ keywords, kind.lead = 0 := by decide
  rcases ofWord_eq_iff.mp rfl with ⟨hmem, -⟩ | ⟨hname, -⟩
  · exact hkeywords _ hmem
  · rw [hname]
    rfl

theorem lead_ofWords? {first second : String} {kind : TokenKind}
    (h : ofWords? first second = some kind) : kind.lead = 0 := by
  have hkeywords : ∀ kind ∈ compoundKeywords, kind.lead = 0 := by decide
  exact hkeywords kind (ofWords?_eq_some_iff.mp h).1

end TokenKind

namespace Lexeme

/-- Why the shown line may lack a text at the place of its own piece. -/
inductive IsAbsent (text piece after : List Char) : Prop
  /-- There is no text. -/
  | silent (htext : text = [])
  /-- The line is shown without the blanks at its end, and has no more than those. -/
  | trimmed (hblank : Text.shownFrom (piece ++ after) = [])
  /-- A string with a line end, which is written as an escape. -/
  | escaped {body : List Char} (hpiece : piece = '"' :: (body ++ ['"']))
      (htext : text = decode body) (hline : '\n' ∈ text)
  /-- A keyword of two words that are not written with a single blank between them. -/
  | spread {first gap second : List Char} (hpiece : piece = first ++ gap ++ second)
      (hgap : IsGap gap) (hwide : gap ≠ [' ']) (htext : text = first ++ ' ' :: second)

/-- A string stands for itself if it has no escape in it. -/
theorem decode_eq_self {body : List Char} (h : '\n' ∉ decode body) : decode body = body := by
  fun_induction decode body with
  | case1 => exact absurd List.mem_cons_self h
  | case2 c rest _ ih => rw [ih fun hmem => h (List.mem_cons_of_mem c hmem)]
  | case3 => rfl

/-- Pieces of tokens are shown whole. -/
theorem Selects.prefix_shownFrom {kind : TokenKind} {value : String} {piece after : List Char}
    (h : Selects (.token kind value) piece after) : piece <+: Text.shownFrom (piece ++ after) := by
  have hline : ∀ c ∈ piece, decide (c ≠ '\n') = true := by
    rintro c hc
    have hnone : piece.count '\n' = 0 := h.count_lineEnd
    exact decide_eq_true fun hsame => List.count_eq_zero.mp hnone (hsame ▸ hc)
  rw [Text.shownFrom, List.takeWhile_append_of_pos hline]
  obtain ⟨init, last, rfl, hlast⟩ := h.exists_last
  exact Text.prefix_trimEnd hlast _

/-- A token is written as its text, behind the quote if it is a string. -/
theorem Selects.prefix_or_isAbsent {kind : TokenKind} {value : String} {piece after : List Char}
    (h : Selects (.token kind value) piece after) :
    value.toList <+: piece.drop kind.lead ∨ IsAbsent value.toList piece after := by
  cases h with
  | @string body =>
      rw [String.toList_ofList]
      by_cases hescape : '\n' ∈ decode body
      · exact .inr (.escaped rfl rfl hescape)
      · rw [decode_eq_self hescape]
        exact .inl (List.prefix_append body ['"'])
  | number =>
      rw [String.toList_ofList]
      exact .inl (List.prefix_refl _)
  | @compound first gap second _ _ _ hgap _ hkind =>
      have htext : (String.ofList first ++ " " ++ String.ofList second).toList =
          first ++ ' ' :: second := by simp
      rw [htext, TokenKind.lead_ofWords? hkind, List.drop_zero]
      by_cases hsingle : gap = [' ']
      · rw [hsingle, List.append_assoc, List.singleton_append]
        exact .inl (List.prefix_refl _)
      · exact .inr (.spread rfl hgap hsingle rfl)
  | word =>
      rw [String.toList_ofList, TokenKind.lead_ofWord]
      exact .inl (List.prefix_refl _)
  | pair hkind =>
      unfold TokenKind.ofPair? at hkind
      split at hkind <;> cases hkind <;> exact .inl (by decide)
  | symbol hkind =>
      unfold TokenKind.ofSymbol? at hkind
      split at hkind <;> cases hkind <;> exact .inl (by decide)

end Lexeme

open Text Report

/-- The text of a token occurs in the shown line at the place of the token. -/
theorem Token.StandsAfter.occursAt {text before piece after : List Char} {used : List Token}
    {t : Token} (h : t.StandsAfter text used before piece after) :
    OccursAt t.value.toList (trimEnd (lineAround before (piece ++ after)))
        (column before + t.kind.lead) ∨
      Lexeme.IsAbsent t.value.toList piece after := by
  cases h with
  | endOfInput => exact .inr (.silent rfl)
  | @piece _ lexeme _ _ _ _ hselects ht =>
      cases lexeme with
      | silent => cases ht
      | lineEnd =>
          cases hselects
          exact .inr (.trimmed rfl)
      | token kind value =>
          obtain rfl := List.singleton_inj.mp ht
          obtain hprefix | habsent := hselects.prefix_or_isAbsent
          · by_cases htext : value.toList = []
            · exact .inr (.silent htext)
            · by_cases hblank : shownFrom (piece ++ after) = []
              · exact .inr (.trimmed hblank)
              · have hshown := hselects.prefix_shownFrom
                exact .inl (occursAt_lineAround htext hprefix hshown hblank before)
          · exact .inr habsent

/-! ## What offends -/

namespace Source

open Program Piece

/-- What a text that is refused offends by, and where it stands: `piece` after `before`. The text
of the error is to be found `lead` characters on from there. -/
inductive Offends (read : (depth : Nat) → List Token → Except ParseStop Program) (source : String)
    (diagnostic : Diagnostic) (before : List Char) :
    (piece after : List Char) → (lead : Nat) → Prop
  /-- A character that no lexeme starts with, or that opens a string which does not end. -/
  | character {error : LexError} {c : Char} {after : List Char}
      (hscan : Token.scan source = .error error)
      (hplace : error.StandsAt source.toList before (c :: after))
      (hdiagnostic : diagnostic = error.diagnostic) :
      Offends read source diagnostic before [c] after 0
  /-- The first token that cannot stand where it does. -/
  | token {used rest : List Token} {found : Token} {error : ParseError} {piece after : List Char}
      (hscan : Token.scan source = .ok (used ++ found :: rest))
      (hfirst : FirstError read depthLimit used found error)
      (hcall : ∀ name, error ≠ .callStatement name)
      (hplace : found.StandsAfter source.toList used before piece after)
      (hdiagnostic : diagnostic = error.diagnostic) :
      Offends read source diagnostic before piece after found.kind.lead
  /-- The name of a call that stands as a statement. -/
  | call {used rest : List Token} {name found : Token} {piece after : List Char}
      (hscan : Token.scan source = .ok (used ++ name :: found :: rest))
      (hfirst : FirstError read depthLimit (used ++ [name]) found (.callStatement name))
      (hplace : name.StandsAfter source.toList used before piece after)
      (hdiagnostic : diagnostic = (ParseError.callStatement name).diagnostic) :
      Offends read source diagnostic before piece after name.kind.lead

variable {read : (depth : Nat) → List Token → Except ParseStop Program} {source : String}
  {diagnostic : Diagnostic} {before piece after : List Char} {lead : Nat}

/-- Tokens that are refused have a first one that cannot stand where it does. -/
theorem exists_offends_of_parse (hread : read = parseWithin ∨ read = parseFragmentWithin)
    {tokens : List Token} {error : ParseError} (hscan : Token.scan source = .ok tokens)
    (hparse : read depthLimit tokens = .error (.error error)) :
    ∃ before piece after lead, Offends read source error.diagnostic before piece after lead := by
  obtain ⟨body, stop, rfl, hstop, -⟩ := Token.exists_body_of_scan hscan
  obtain ⟨used, found, rest, hsplit, hfirst⟩ : ∃ used found rest,
      body ++ [stop] = used ++ found :: rest ∧ FirstError read depthLimit used found error := by
    rcases hread with rfl | rfl
    · exact exists_firstError (fun _ => Parser.looks_program _)
        (fun hn hn' => .program hn hn' _) (fun _ _ => parseWithin_decides rfl) hstop hparse
    · exact exists_firstError (fun _ => Parser.looks_fragment _)
        (fun hn hn' => .fragment hn hn' _) (fun _ hbody => parseFragmentWithin_decides hbody rfl)
        hstop hparse
  rw [hsplit] at hscan
  cases hfirst.pointsAt with
  | token hcall =>
      obtain ⟨before, piece, after, hplace⟩ := Token.exists_standsAfter hscan
      exact ⟨before, piece, after, _, .token hscan hfirst hcall hplace rfl⟩
  | call herror hname =>
      subst herror
      obtain ⟨init, rfl⟩ := List.getLast?_eq_some_iff.mp hname
      rw [List.append_assoc, List.singleton_append] at hscan
      obtain ⟨before, piece, after, hplace⟩ := Token.exists_standsAfter hscan
      exact ⟨before, piece, after, _, .call hscan hfirst hplace rfl⟩

/-- Every text that is refused offends somewhere. -/
theorem exists_offends (hread : read = parseWithin ∨ read = parseFragmentWithin)
    (hfails : Source.read (read depthLimit) source = .error (.error diagnostic)) :
    ∃ before piece after lead, Offends read source diagnostic before piece after lead := by
  cases hscan : Token.scan source with
  | error error =>
      rw [Source.read, hscan] at hfails
      cases hfails
      obtain ⟨before, rest, hplace⟩ := LexError.exists_standsAt hscan
      obtain ⟨c, after, rfl⟩ : ∃ c after, rest = c :: after := by
        obtain ⟨_, -, -, hstuck, -⟩ := hplace
        exact hstuck.exists_cons
      exact ⟨before, [c], after, 0, .character hscan hplace rfl⟩
  | ok tokens =>
      rw [Source.read, hscan] at hfails
      dsimp only at hfails
      rcases hparse : read depthLimit tokens with (error | _ | text) | P <;>
        rw [hparse] at hfails <;> cases hfails
      exact exists_offends_of_parse hread hscan hparse

namespace Offends

theorem text_eq (h : Offends read source diagnostic before piece after lead) :
    before ++ (piece ++ after) = source.toList := by
  cases h with
  | character _ hplace =>
      obtain ⟨_, hcut, rfl, -⟩ := hplace
      exact hcut.texts_append
  | token _ _ _ hplace => exact hplace.standsAt.text_eq
  | call _ _ hplace => exact hplace.standsAt.text_eq

theorem line_eq (h : Offends read source diagnostic before piece after lead) :
    diagnostic.line = some (lineAfter before) := by
  cases h with
  | character _ hplace hdiagnostic =>
      obtain ⟨_, -, -, -, hline⟩ := hplace
      rw [hdiagnostic, LexError.diagnostic, hline]
  | token _ hfirst hcall hplace hdiagnostic =>
      cases hfirst.pointsAt with
      | token _ hline => rw [hdiagnostic, hline, hplace.standsAt.line_eq]
      | call herror => exact absurd herror (hcall _)
  | call _ _ hplace hdiagnostic =>
      rw [hdiagnostic, ← hplace.standsAt.line_eq]
      rfl

theorem showsLine_eq (h : Offends read source diagnostic before piece after lead) :
    diagnostic.showsLine = true := by
  cases h with
  | character _ _ hdiagnostic | token _ _ _ _ hdiagnostic | call _ _ _ hdiagnostic =>
      rw [hdiagnostic]
      rfl

/-- The text of the error occurs in the shown line at the place of what offends. -/
theorem occursAt (h : Offends read source diagnostic before piece after lead) :
    OccursAt (sought diagnostic.text) (trimEnd (lineAround before (piece ++ after)))
        (column before + lead) ∨
      Lexeme.IsAbsent (sought diagnostic.text) piece after := by
  cases h with
  | @character error c _ _ hplace hdiagnostic =>
      obtain ⟨_, -, -, hstuck, -⟩ := hplace
      have htext : sought diagnostic.text = [c] := by
        rw [hdiagnostic, LexError.diagnostic, text_of_isStuck hstuck]
        exact String.toList_ofList
      have hpiece : [c] <+: [c].drop 0 := List.prefix_refl [c]
      rw [htext]
      by_cases hblank : shownFrom ([c] ++ after) = []
      · exact .inr (.trimmed hblank)
      · exact .inl (occursAt_lineAround (List.cons_ne_nil c []) hpiece (prefix_shownFrom hblank)
          hblank before)
  | token _ hfirst hcall hplace hdiagnostic =>
      cases hfirst.pointsAt with
      | token _ _ htext =>
          rw [hdiagnostic]
          obtain htext | ⟨htext, -⟩ := htext
          · rw [htext]
            exact hplace.occursAt
          · rw [htext]
            exact .inr (.silent rfl)
      | call herror => exact absurd herror (hcall _)
  | call _ _ hplace hdiagnostic =>
      rw [hdiagnostic]
      exact hplace.occursAt

end Offends

/-- The diagnosis of a text that cannot be read marks the first occurrence of the text of the error
in the line of what offends, as this line is shown. So it marks what offends or nothing, exactly if
the text occurs there and nowhere before, or nowhere at all. It does occur there, unless there is no
text, nothing is shown of the line from there on, or it is written in another way: with an escape,
or as two words with other blanks between them. -/
theorem diagnosis_marks_first_occurrence (hread : read = parseWithin ∨ read = parseFragmentWithin)
    (hfails : Source.read (read depthLimit) source = .error (.error diagnostic))
    (reporter : Reporter) (path : String) :
    (∃ before piece after lead, Offends read source diagnostic before piece after lead) ∧
    ∀ before piece after lead, Offends read source diagnostic before piece after lead →
      before ++ (piece ++ after) = source.toList ∧
      let line := lineAround before (piece ++ after)
      let text := sought diagnostic.text
      let own := column before + lead
      (OccursAt text (trimEnd line) own ∨ Lexeme.IsAbsent text piece after) ∧
      ∃ mark, Marks line text mark ((reporter.register path source).diagnosis diagnostic) ∧
        ((mark = none ∨ mark = some own) ↔ ∀ column, OccursAt text (trimEnd line) column →
          OccursAt text (trimEnd line) own ∧ own ≤ column) := by
  refine ⟨exists_offends hread hfails, fun before piece after lead hoffends => ?_⟩
  have hshown : (reporter.register path source).sourceLine? diagnostic.line =
      some (String.ofList (lineAround before (piece ++ after))) := by
    rw [hoffends.line_eq]
    exact (reporter.shows_register path source).sourceLine?_eq hoffends.text_eq
  obtain ⟨mark, hmarks⟩ := Reporter.marks_diagnosis hshown hoffends.showsLine_eq
  exact ⟨hoffends.text_eq, hoffends.occursAt, mark, hmarks, hmarks.isRight_iff _⟩

/-- A dollar sign on the first line. No lexeme starts with it. -/
def strayDollar : LexError := ⟨.strayChar '$', 1⟩

/-- A text with a dollar sign behind pieces that are cut off is refused, and offends by it. -/
theorem strayDollar_offends {pieces : List Piece} {rest : List Char}
    (hcut : Cut source.toList pieces ('$' :: rest)) (hline : lineAfter (texts pieces) = 1) :
    fragment source = .error (.error strayDollar.diagnostic) ∧
      Offends parseFragmentWithin source strayDollar.diagnostic (texts pieces) ['$'] rest 0 := by
  have hfirst : Lexeme.first '$' rest = .error (.strayChar '$') := by cases rest <;> rfl
  have hstuck := Lexeme.first_eq_error_iff.mp hfirst
  have hscan : Token.scan source = .error strayDollar := by
    rw [scan_of_cut hcut, scanFrom_of_isStuck hstuck, hline, strayDollar]
  refine ⟨?_, .character hscan ⟨pieces, hcut, rfl, hstuck, hline.symm⟩ rfl⟩
  rw [fragment, Source.read, hscan]

/-- A dollar sign with a copy in a string behind it. -/
def copyBehind : String := "he bol $ \"$\""

theorem diagnosis_marks_first_occurrence_copyBehind :
    fragment copyBehind = .error (.error strayDollar.diagnostic) ∧
      Offends parseFragmentWithin copyBehind strayDollar.diagnostic "he bol ".toList ['$']
        " \"$\"".toList 0 ∧
      ∃ mark, Marks copyBehind.toList ['$'] mark
          ((Reporter.new false |>.register "a.bol" copyBehind).diagnosis strayDollar.diagnostic) ∧
        (mark = none ∨ mark = some 7) := by
  have hcut : Cut copyBehind.toList
      [⟨.token .print "he bol", "he bol".toList⟩, ⟨.silent, [' ']⟩] "$ \"$\"".toList :=
    cut_of_first rfl rfl (cut_of_first rfl rfl .done)
  obtain ⟨hfails, hoffends⟩ := strayDollar_offends hcut rfl
  obtain ⟨-, -, mark, hmarks, hright⟩ :=
    (diagnosis_marks_first_occurrence (.inr rfl) hfails (.new false) "a.bol").2 _ _ _ _ hoffends
  refine ⟨hfails, hoffends, mark, hmarks, hright.mpr fun column hcolumn => ⟨by decide, ?_⟩⟩
  by_contra hbefore
  have hnone : ∀ column < 7, ¬ OccursAt ['$'] copyBehind.toList column := by decide
  exact hnone column (Nat.lt_of_not_le hbefore) hcolumn

/-- A dollar sign with a copy in a string before it. -/
def copyBefore : String := "he bol \"$\" $"

/-- The copy is marked, and not the dollar sign that offends. -/
theorem diagnosis_marks_copy :
    fragment copyBefore = .error (.error strayDollar.diagnostic) ∧
      Offends parseFragmentWithin copyBefore strayDollar.diagnostic "he bol \"$\" ".toList ['$'] []
        0 ∧
      column "he bol \"$\" ".toList = 11 ∧
      (Reporter.new false |>.register "<in>" copyBefore).diagnosis strayDollar.diagnostic =
        "\n" ++ underlined "he bol \"".toList ['$'] "\" $".toList ∧
      ∀ mark report, Marks copyBefore.toList ['$'] mark report → mark ≠ none ∧ mark ≠ some 11 := by
  have hcut : Cut copyBefore.toList
      [⟨.token .print "he bol", "he bol".toList⟩, ⟨.silent, [' ']⟩,
        ⟨.token .string "$", "\"$\"".toList⟩, ⟨.silent, [' ']⟩] ['$'] :=
    cut_of_first rfl rfl (cut_of_first rfl rfl (cut_of_first rfl rfl (cut_of_first rfl rfl .done)))
  obtain ⟨hfails, hoffends⟩ := strayDollar_offends hcut rfl
  refine ⟨hfails, hoffends, by decide, by decide +kernel, fun mark report hmarks => ?_⟩
  have hcopy : OccursAt ['$'] (trimEnd copyBefore.toList) 8 := by decide
  have hwrong : ¬ (mark = none ∨ mark = some 11) := fun hright =>
    absurd ((hmarks.isRight_iff 11).mp hright 8 hcopy).2 (by decide)
  exact ⟨fun h => hwrong (.inl h), fun h => hwrong (.inr h)⟩

end Source

end Bol
