/-
# Reading decides the grammar

The tokens of at most one program are derived by the grammar, and reading them finds that program
if there is one. Otherwise it ends with an error, unless a number token that was made by hand has a
text that stands for no number: then it may end with that text. A bound on the depth can only make
reading give up, and never on fewer tokens than the bound. A list of tokens is taken as text gives
it, with the end of the input at its end and nowhere else.
-/

import Bol.Proofs.Program.Blame
import Bol.Proofs.Program.Complete
import Bol.Proofs.Program.Depth
import Bol.Proofs.Program.Sound

namespace Bol

open Grammar

namespace Grammar

variable {n : Nat} {statements statements' : Phrase (List Stmt)}

theorem Within.marked (h : Within n statements statements') :
    Within n (Marked statements) (Marked statements') := by
  intro ts P hlength hmarked
  cases hmarked with
  | intro hstart hline hbody hstop =>
      simp only [List.length_cons, List.length_append] at hlength
      exact .intro hstart hline (h _ _ (by omega) hbody) hstop
  | empty hstart hstop => exact .empty hstart hstop

theorem Within.unmarked (h : Within n statements statements') :
    Within n (Unmarked statements) (Unmarked statements') := by
  intro ts P hlength hunmarked
  cases hunmarked with
  | intro hbody hstop =>
      rw [List.length_append] at hlength
      exact .intro (h _ _ (by omega) hbody) hstop

end Grammar

/-- Reading the tokens under a bound on the depth finds the program that is derived, unless the
bound stops it, which no bound above their number does. If no program is derived it ends with an
error, or with the text of one of the number tokens if that stands for no number. -/
structure Decides (read : (depth : Nat) → Except ParseStop Program) (derived : Program → Prop)
    (tokens : List Token) : Prop where
  eq_ok_iff : ∀ depth P, read depth ≠ .error .tooDeep → (read depth = .ok P ↔ derived P)
  stops_of_none : ∀ depth, read depth ≠ .error .tooDeep → (∀ P, ¬ derived P) →
    (∃ error, read depth = .error (.error error)) ∨
      ∃ text, read depth = .error (.notNumber text) ∧ HoldsNoNumber tokens text
  not_tooDeep : ∀ depth, tokens.length < depth → read depth ≠ .error .tooDeep
  unique : ∀ P Q, derived P → derived Q → P = Q

namespace Parser

/-- Tokens that are split in front of the end of the input are split where it stands. -/
theorem eq_of_append_stop {body used rest : List Token} {stop : Token}
    (hbody : ∀ t ∈ body, t.kind ≠ .endOfInput) (hstop : stop.kind = .endOfInput)
    (hsplit : body ++ [stop] = used ++ rest) (hused : ∀ t ∈ used, t.kind ≠ .endOfInput)
    (hrest : (current rest).kind = .endOfInput) : used = body ∧ rest = [stop] := by
  induction body generalizing used with
  | nil =>
      cases used with
      | nil => exact ⟨rfl, hsplit.symm⟩
      | cons t used =>
          obtain ⟨rfl, _⟩ := List.cons.inj hsplit
          exact absurd hstop (hused stop List.mem_cons_self)
  | cons b body ih =>
      rw [List.forall_mem_cons] at hbody
      cases used with
      | nil =>
          rw [List.nil_append] at hsplit
          rw [← hsplit] at hrest
          exact absurd hrest hbody.1
      | cons t used =>
          rw [List.forall_mem_cons] at hused
          obtain ⟨rfl, htail⟩ := List.cons.inj hsplit
          obtain ⟨rfl, rfl⟩ := ih hbody.2 htail hused.2
          exact ⟨rfl, rfl⟩

/-- A family of readers decides a phrase if each finds only what is derived and is stopped by no
text but those of number tokens, the one for the number of tokens finds all that is derived, and
higher bounds deepen lower ones. -/
theorem decides_of_deepened {p : (depth : Nat) → Parser Program} {phrase : Phrase Program}
    {ts : List Token} (hsound : ∀ depth P rest, p depth ts = .ok (P, rest) → phrase ts P)
    (hcomplete : ∀ P, phrase ts P → ∃ rest, p ts.length ts = .ok (P, rest))
    (hnumber : ∀ depth text, (p depth).run' ts = .error (.notNumber text) → HoldsNoNumber ts text)
    (hdeepened : ∀ {depth depth'}, depth ≤ depth' → Deepened depth ts (p depth ts) (p depth' ts)) :
    Decides (fun depth => (p depth).run' ts) (phrase ts) ts := by
  have hstopped {depth} (h : (p depth).run' ts ≠ .error .tooDeep) :
      p depth ts ≠ .error .tooDeep := fun heq => h (by rw [run'_apply, heq]; rfl)
  have hle {depth depth'} (hle : depth ≤ depth') (h : p depth ts ≠ .error .tooDeep) :
      p depth' ts = p depth ts := by
    have hsame := hdeepened hle
    rcases hp : p depth ts with (error | _ | text) | ⟨P, rest⟩ <;> rw [hp] at hsame
    · exact hsame
    · exact absurd hp h
    · exact hsame
    · exact hsame.1
  have hfound {depth P} (h : (p depth).run' ts ≠ .error .tooDeep) (hderived : phrase ts P) :
      (p depth).run' ts = .ok P := by
    obtain ⟨rest, hread⟩ := hcomplete P hderived
    have hsame : p depth ts = .ok (P, rest) := by
      rcases Nat.le_total depth ts.length with hdepth | hdepth
      · rw [← hle hdepth (hstopped h), hread]
      · rw [hle hdepth (by simp [hread]), hread]
    rw [run'_apply, hsame]
    rfl
  have henough {depth} (h : ts.length < depth) : (p depth).run' ts ≠ .error .tooDeep :=
    (hdeepened (Nat.le_refl depth)).run'_ne_tooDeep h
  refine ⟨fun depth P h => ⟨fun hread => ?_, hfound h⟩, fun depth h hnone => ?_,
    fun depth => henough, fun P Q hP hQ => ?_⟩
  · rw [run'_apply] at hread
    rcases hp : p depth ts with stop | ⟨P', rest⟩ <;> rw [hp] at hread
    · simp [Except.map] at hread
    · obtain rfl : P' = P := by simpa [Except.map] using hread
      exact hsound _ _ _ hp
  · rcases hp : p depth ts with (error | _ | text) | ⟨P, rest⟩
    · exact .inl ⟨error, run'_eq_error.mpr hp⟩
    · exact absurd hp (hstopped h)
    · have hstop := run'_eq_error.mpr hp
      exact .inr ⟨text, hstop, hnumber depth text hstop⟩
    · exact absurd (hsound _ _ _ hp) (hnone P)
  · have hstop := henough (Nat.lt_succ_self ts.length)
    exact Except.ok.inj ((hfound hstop hP).symm.trans (hfound hstop hQ))

end Parser

namespace Program

open Bol.Parser

variable {body : List Token} {stop : Token}

theorem parseWithin_decides (hstop : stop.kind = .endOfInput) :
    Decides (parseWithin · (body ++ [stop])) (Marked Statements (body ++ [stop]))
      (body ++ [stop]) := by
  refine decides_of_deepened (fun depth P rest h => ?_) (fun P h => ?_)
    (fun _ _ => holdsNoNumber_of_parseWithin hstop) (fun hle => Deepens.program hle _)
  · exact (statements_of_statementsAt depth _).marked _ P (Nat.le_refl _) (Sound.program h)
  · exact Complete.program
      ((statementsAt_of_statements _).marked _ P (Nat.le_refl _) h) (Nat.le_refl _)

theorem parseFragmentWithin_decides (hbody : ∀ t ∈ body, t.kind ≠ .endOfInput)
    (hstop : stop.kind = .endOfInput) :
    Decides (parseFragmentWithin · (body ++ [stop])) (Unmarked Statements (body ++ [stop]))
      (body ++ [stop]) := by
  refine decides_of_deepened (fun depth P rest h => ?_) (fun P h => ?_)
    (fun _ _ => holdsNoNumber_of_parseFragmentWithin hstop) (fun hle => Deepens.fragment hle _)
  · obtain ⟨used, hsplit, hend, hstatements⟩ := Sound.fragment h
    obtain ⟨used', hsplit', hused⟩ := (Deepens.fragment (Nat.le_refl depth)).leaves h
    obtain rfl : used = used' := List.append_cancel_right (hsplit.symm.trans hsplit')
    obtain ⟨rfl, rfl⟩ := eq_of_append_stop hbody hstop hsplit hused hend
    exact .intro (statements_of_statementsAt depth _ _ _ (Nat.le_refl _) hstatements) hstop
  · exact Complete.fragment
      ((statementsAt_of_statements _).unmarked _ P (Nat.le_refl _) h) (Nat.le_refl _)

/-- Reading decides the grammar, of programs between markers and of statements without them. -/
theorem reading_decides_grammar (hbody : ∀ t ∈ body, t.kind ≠ .endOfInput)
    (hstop : stop.kind = .endOfInput) :
    Decides (parseWithin · (body ++ [stop])) (Marked Statements (body ++ [stop]))
        (body ++ [stop]) ∧
      Decides (parseFragmentWithin · (body ++ [stop])) (Unmarked Statements (body ++ [stop]))
        (body ++ [stop]) :=
  ⟨parseWithin_decides hstop, parseFragmentWithin_decides hbody hstop⟩

/-- The tokens of a program that prints the difference of a name with a sign and a sum of two
numbers, the first of them with a sign too, without the end of the input. -/
def signedDifference : List Token :=
  [⟨.programStart, "bola saheb", 1⟩, ⟨.newline, "\\n", 1⟩, ⟨.print, "he bol", 2⟩,
    ⟨.minus, "-", 2⟩, ⟨.identifier, "x", 2⟩, ⟨.minus, "-", 2⟩, ⟨.leftParen, "(", 2⟩,
    ⟨.minus, "-", 2⟩, ⟨.number, "5", 2⟩, ⟨.plus, "+", 2⟩, ⟨.number, "1.5", 2⟩,
    ⟨.rightParen, ")", 2⟩, ⟨.programEnd, "yeto saheb", 2⟩]

/-- The end of the input after them. -/
def signedDifferenceEnd : Token := ⟨.endOfInput, "", 2⟩

/-- The program itself. The sign before the name stays an operator, and the one before the number
is part of the number. -/
def signedDifferenceProgram : Program :=
  ⟨[.print (.binary .sub (.unary .negate (.name "x"))
    (.binary .add (.number (-Number.ofDecimal false ⟨5, 0⟩))
      (.number (Number.ofDecimal false ⟨15, -1⟩)))) (some 2)]⟩

/-- The program is derived, since it is read. -/
theorem reading_decides_grammar_signedDifference :
    Decides (parseWithin · (signedDifference ++ [signedDifferenceEnd]))
        (Marked Statements (signedDifference ++ [signedDifferenceEnd]))
        (signedDifference ++ [signedDifferenceEnd]) ∧
      Decides (parseFragmentWithin · (signedDifference ++ [signedDifferenceEnd]))
        (Unmarked Statements (signedDifference ++ [signedDifferenceEnd]))
        (signedDifference ++ [signedDifferenceEnd]) ∧
      Marked Statements (signedDifference ++ [signedDifferenceEnd]) signedDifferenceProgram := by
  obtain ⟨hmarked, hunmarked⟩ :=
    @reading_decides_grammar signedDifference signedDifferenceEnd (by decide) rfl
  have hread : parseWithin 19 (signedDifference ++ [signedDifferenceEnd]) =
      .ok signedDifferenceProgram := rfl
  exact ⟨hmarked, hunmarked,
    (hmarked.eq_ok_iff 19 _ (hmarked.not_tooDeep 19 (by decide))).mp hread⟩

/-- The tokens of a statement that prints a number, the text of which is a word. -/
def wordAsNumber : List Token := [⟨.print, "he bol", 1⟩, ⟨.number, "abc", 1⟩]

/-- No program is derived, and reading ends with the text of the number, not with an error. -/
theorem parseFragment_wordAsNumber :
    (∀ t ∈ wordAsNumber, t.kind ≠ .endOfInput ∧ t.kind ≠ .newline) ∧
      (∀ P, ¬ Unmarked Statements (wordAsNumber ++ [⟨.endOfInput, "", 1⟩]) P) ∧
      parseFragment (wordAsNumber ++ [⟨.endOfInput, "", 1⟩]) = .error (.notNumber "abc") ∧
      ¬ ∃ error,
        parseFragment (wordAsNumber ++ [⟨.endOfInput, "", 1⟩]) = .error (.error error) := by
  have hwords : ∀ t ∈ wordAsNumber, t.kind ≠ .endOfInput ∧ t.kind ≠ .newline := by decide
  have hread : parseFragment (wordAsNumber ++ [⟨.endOfInput, "", 1⟩]) =
      .error (.notNumber "abc") := rfl
  refine ⟨hwords, fun P hP => ?_, hread, ?_⟩
  · have hdecides : Decides (parseFragmentWithin · (wordAsNumber ++ [⟨.endOfInput, "", 1⟩])) _ _ :=
      parseFragmentWithin_decides (fun t ht => (hwords t ht).1) rfl
    have hdeep := hdecides.not_tooDeep depthLimit (by decide)
    have hfound := (hdecides.eq_ok_iff depthLimit P hdeep).mpr hP
    cases hread.symm.trans hfound
  · rintro ⟨error, h⟩
    cases hread.symm.trans h

end Program

end Bol
