/-
# The first token that cannot stand where it does

An error is found at the first token that is wrong. The tokens before it are right so far: some
program begins with them. Those up to it are wrong whatever comes after, and always in the same way.
Line and text of the error are those of the token, except that a call that stands as a statement is
told by its name, which is right before the parenthesis that is wrong, and that the end of the
input is not quoted where an expression has to stand.
-/

import Bol.Diagnostic
import Bol.Proofs.Program.Derivation
import Bol.Proofs.Program.Prediction
import Bol.Proofs.Program.Rounds

namespace Bol

open Grammar

namespace ParseError

/-- What is reported of an error that is found at a token: its line and its text, which is left out
where it is empty and where the input ends in place of an expression. A call that stands as a
statement is reported by its name, the last of the tokens before. -/
inductive PointsAt (used : List Token) (found : Token) (error : ParseError) : Prop
  | token (hcall : ∀ name, error ≠ .callStatement name)
      (hline : error.diagnostic.line = some found.line)
      (htext : error.diagnostic.text = some found.value ∨ error.diagnostic.text = none ∧
        (found.value = "" ∨ error = .noExpression found ∧ found.kind = .endOfInput))
  | call {name : Token} (herror : error = .callStatement name)
      (hname : used.getLast? = some name) (hfound : found.kind = .leftParen)
      (hline : error.diagnostic.line = some name.line)
      (htext : error.diagnostic.text = some name.value)

variable {used used' : List Token} {found found' : Token} {error : ParseError}

theorem FoundAt.pointsAt (h : error.FoundAt used found) : error.PointsAt used found := by
  cases h with
  | token htoken hcall =>
      subst htoken
      refine .token hcall rfl ?_
      cases error with
      | expected kind found =>
          by_cases hvalue : found.value = ""
          · exact .inr ⟨if_pos hvalue, .inl hvalue⟩
          · exact .inl (if_neg hvalue)
      | noExpression found =>
          by_cases hend : found.kind = .endOfInput
          · exact .inr ⟨if_pos hend, .inr ⟨rfl, hend⟩⟩
          · exact .inl (if_neg hend)
      | noStatement | afterStatement => exact .inl rfl
      | callStatement name => exact absurd rfl (hcall name)
  | call hname hfound => exact .call rfl hname hfound rfl rfl

/-- An error tells the kind of the token that it is found at. -/
theorem FoundAt.kind_eq (h : error.FoundAt used found) (h' : error.FoundAt used' found') :
    found.kind = found'.kind := by
  cases h with
  | token htoken hcall =>
      cases h' with
      | token htoken' => rw [← htoken, ← htoken']
      | call => exact absurd rfl (hcall _)
  | call _ hfound =>
      cases h' with
      | token _ hcall' => exact absurd rfl (hcall' _)
      | call _ hfound' => rw [hfound, hfound']

end ParseError

namespace Parser

/-- A reader finds the error where another one finds it, and whatever follows there, if the two
agree on the tokens up to it. -/
theorem Looks.eq_error_of_agree {α : Type} {hope : List Token → Prop} {p q : Parser α}
    {ts used rest : List Token} {found : Token} {error : ParseError} (hlooks : Looks hope [] q)
    (hagree : Agree (used ++ [found]).length p q)
    (hsees : Sees p ts used (found :: rest) fun _ => .error (.error error))
    (hfound : error.FoundAt used found) (rest' : List Token) :
    q (used ++ found :: rest') = .error (.error error) := by
  have hshort : q (used ++ [found]) = .error (.error error) := by
    rw [← (hagree _ (Nat.le_refl _)).1]
    exact hsees.same [found] rfl
  have hlooked := hlooks (used ++ [found])
  rw [hshort] at hlooked
  obtain ⟨used', left, hsees', hfound', -⟩ := hlooked
  cases left with
  | nil =>
      -- The error tells the end of the input from every other token.
      have hnoEnd := hsees'.noEnd_of_nil found (List.mem_append_right used List.mem_cons_self)
      exact absurd (hfound.kind_eq hfound') hnoEnd
  | cons t left =>
      rw [List.append_cons, hsees'.split, List.append_assoc, List.cons_append]
      exact hsees'.same (t :: (left ++ rest')) rfl

/-- A family of readers that look one token ahead, whatever their bound on the rounds, finds an
error at a token, and finds it there whatever follows. -/
theorem exists_foundAt {p : (rounds : Nat) → Parser Program} {hope : List Token → Prop}
    (hlooks : ∀ n, Looks hope [] (p n))
    (hagree : ∀ {bound n n'}, bound ≤ n → bound ≤ n' → Agree bound (p n) (p n'))
    {body : List Token} {stop : Token} {error : ParseError} (hstop : stop.kind = .endOfInput)
    (herror : (p (body ++ [stop]).length).run' (body ++ [stop]) = .error (.error error)) :
    ∃ used found rest, body ++ [stop] = used ++ found :: rest ∧ error.FoundAt used found ∧
      hope used ∧ ∀ rest', (p (used ++ found :: rest').length).run' (used ++ found :: rest') =
        .error (.error error) := by
  have hlooked := hlooks (body ++ [stop]).length (body ++ [stop])
  rw [run'_eq_error.mp herror] at hlooked
  obtain ⟨used, left, hsees, hfound, hused⟩ := hlooked
  cases left with
  | nil =>
      have hnoEnd := hsees.noEnd_of_nil stop (List.mem_append_right body List.mem_cons_self)
      exact absurd hstop hnoEnd
  | cons found rest =>
      refine ⟨used, found, rest, hsees.split, hfound, hused, fun rest' => run'_eq_error.mpr ?_⟩
      -- The bounds that come with the two lists do not matter up to the token.
      exact (hlooks _).eq_error_of_agree (hagree (by rw [hsees.split]; simp) (by simp)) hsees
        hfound rest'

end Parser

namespace Program

open Bol.Parser

/-- The tokens are read as a program wherever there is depth enough. -/
def Accepts (read : (depth : Nat) → List Token → Except ParseStop Program) (ts : List Token) :
    Prop :=
  ∃ P, ∀ depth, ts.length < depth → read depth ts = .ok P

/-- The token `found` is the first one that cannot stand where it does, after the tokens `used`. -/
structure FirstError (read : (depth : Nat) → List Token → Except ParseStop Program) (depth : Nat)
    (used : List Token) (found : Token) (error : ParseError) : Prop where
  viable : ∃ more stop, (∀ t ∈ used ++ more, t.kind ≠ .endOfInput) ∧ stop.kind = .endOfInput ∧
    Accepts read (used ++ more ++ [stop])
  rejected : ∀ rest, read depth (used ++ found :: rest) = .error (.error error)
  pointsAt : error.PointsAt used found

variable {read : (depth : Nat) → List Token → Except ParseStop Program} {used : List Token}

theorem accepts_of_completes {phrase : Phrase Program}
    (hdecides : ∀ body : List Token, (∀ t ∈ body, t.kind ≠ .endOfInput) →
      Decides (read · (body ++ [TokenKind.endOfInput.token]))
        (phrase (body ++ [TokenKind.endOfInput.token]))
        (body ++ [TokenKind.endOfInput.token]))
    (h : Completes phrase used) :
    ∃ more stop, (∀ t ∈ used ++ more, t.kind ≠ .endOfInput) ∧ stop.kind = .endOfInput ∧
      Accepts read (used ++ more ++ [stop]) := by
  obtain ⟨more, P, hbody, hderived⟩ := h
  have hread := hdecides _ hbody
  exact ⟨more, TokenKind.endOfInput.token, hbody, rfl, P, fun depth hdepth =>
    (hread.eq_ok_iff depth P (hread.not_tooDeep depth hdepth)).mpr hderived⟩

/-- Readers that look one token ahead for the tokens that some phrase begins with find their errors
at the first token that cannot stand where it does. -/
theorem exists_firstError {p : (rounds depth : Nat) → Parser Program} {phrase : Phrase Program}
    {depth : Nat} (hlooks : ∀ n, Looks (Completes phrase) [] (p n depth))
    (hagree : ∀ {bound n n'}, bound ≤ n → bound ≤ n' → Agree bound (p n depth) (p n' depth))
    (hdecides : ∀ body : List Token, (∀ t ∈ body, t.kind ≠ .endOfInput) →
      Decides (fun depth => (p (body ++ [TokenKind.endOfInput.token]).length depth).run'
          (body ++ [TokenKind.endOfInput.token]))
        (phrase (body ++ [TokenKind.endOfInput.token]))
        (body ++ [TokenKind.endOfInput.token]))
    {body : List Token} {stop : Token} {error : ParseError} (hstop : stop.kind = .endOfInput)
    (herror : (p (body ++ [stop]).length depth).run' (body ++ [stop]) = .error (.error error)) :
    ∃ used found rest, body ++ [stop] = used ++ found :: rest ∧
      FirstError (fun depth ts => (p ts.length depth).run' ts) depth used found error := by
  obtain ⟨used, found, rest, hsplit, hfound, hused, hrejected⟩ :=
    exists_foundAt hlooks hagree hstop herror
  exact ⟨used, found, rest, hsplit, accepts_of_completes hdecides hused, hrejected, hfound.pointsAt⟩

/-- An error is found at the first token that cannot stand where it does. Some list that agrees with
the tokens before it is read, every list that agrees with them and with the token is refused with
the same error, and the error points at the token. -/
theorem error_at_first_impossible_token
    (hread : read = parseWithin ∨ read = parseFragmentWithin) {depth : Nat} {body : List Token}
    {stop : Token} {error : ParseError} (hstop : stop.kind = .endOfInput)
    (herror : read depth (body ++ [stop]) = .error (.error error)) :
    ∃ used found rest, body ++ [stop] = used ++ found :: rest ∧
      FirstError read depth used found error := by
  rcases hread with rfl | rfl
  · exact exists_firstError (fun _ => looks_program depth) (fun hn hn' => .program hn hn' depth)
      (fun _ _ => parseWithin_decides rfl) hstop herror
  · exact exists_firstError (fun _ => looks_fragment depth) (fun hn hn' => .fragment hn hn' depth)
      (fun _ hbody => parseFragmentWithin_decides hbody rfl) hstop herror

/-- The tokens of a program that declares `y` with a product that lacks its first factor. -/
def halfProduct : List Token :=
  [⟨.programStart, "bola saheb", 1⟩, ⟨.newline, "\\n", 1⟩, ⟨.declare, "he ghe", 2⟩,
    ⟨.identifier, "y", 2⟩, ⟨.assign, "=", 2⟩, ⟨.star, "*", 2⟩, ⟨.number, "2", 2⟩,
    ⟨.newline, "\\n", 2⟩, ⟨.programEnd, "yeto saheb", 3⟩]

theorem error_at_first_impossible_token_star :
    let star : Token := ⟨.star, "*", 2⟩
    let stop : Token := ⟨.endOfInput, "", 3⟩
    parse (halfProduct ++ [stop]) = .error (.error (.noExpression star)) ∧
      ∃ used found rest, halfProduct ++ [stop] = used ++ found :: rest ∧
        FirstError parseWithin depthLimit used found (.noExpression star) := by
  intro star stop
  have hread : parse (halfProduct ++ [stop]) = .error (.error (.noExpression star)) := rfl
  exact ⟨hread, error_at_first_impossible_token (.inl rfl) rfl hread⟩

/-- An end of the input that has a text is not quoted where an expression has to stand. -/
theorem no_text_at_valued_end :
    let tokens : List Token := [⟨.print, "he bol", 1⟩, ⟨.endOfInput, "x", 1⟩]
    ∃ error : ParseError, parseFragment tokens = .error (.error error) ∧
      (∀ name, error ≠ .callStatement name) ∧
      ∀ t ∈ tokens, error.diagnostic.text ≠ some t.value ∧ t.value ≠ "" :=
  ⟨.noExpression ⟨.endOfInput, "x", 1⟩, rfl, nofun, by decide⟩

end Program

end Bol
