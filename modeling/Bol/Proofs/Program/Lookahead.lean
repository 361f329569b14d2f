/-
# Looking one token ahead

A reader looks at the tokens that it takes and at one more. So when it fails, it does so for the
token that it finds there, whatever stands after it; and the tokens before that one are right so
far: some phrase of the sort that is read begins with them. `Predicts` says both of a reader and its
phrase. Where a reader is made of others, it is enough to say at each step what is hoped for: which
tokens may stand before the rest of the input.
-/

import Bol.Proofs.Program.Sound

namespace Bol

open Grammar

namespace Grammar

variable {α : Type} {phrase phrase' : Phrase α} {used : List Token}

/-- Tokens that some phrase of the sort begins with. -/
def Opens (phrase : Phrase α) (used : List Token) : Prop :=
  ∃ more a, phrase (used ++ more) a

theorem Opens.of_phrase {a : α} (h : phrase used a) : Opens phrase used :=
  ⟨[], a, by rwa [List.append_nil]⟩

theorem Opens.mono (h : Opens phrase used) (hphrase : ∀ ts a, phrase ts a → phrase' ts a) :
    Opens phrase' used := by
  obtain ⟨more, a, hmore⟩ := h
  exact ⟨more, a, hphrase _ _ hmore⟩

end Grammar

/-- Where an error is found: after the tokens `used`, at the token `found`. It points there, unless
that token makes a call of a name before it. -/
inductive ParseError.FoundAt : (used : List Token) → (found : Token) → ParseError → Prop
  | token {used : List Token} {found : Token} {error : ParseError} (htoken : error.token = found)
      (hcall : ∀ name, error ≠ .callStatement name) : FoundAt used found error
  | call {used : List Token} {name found : Token} (hname : used.getLast? = some name)
      (hfound : found.kind = .leftParen) : FoundAt used found (.callStatement name)

theorem ParseError.FoundAt.after {used : List Token} {found : Token} {error : ParseError}
    (h : error.FoundAt used found) (before : List Token) :
    error.FoundAt (before ++ used) found := by
  cases h with
  | token htoken hcall => exact .token htoken hcall
  | call hname hfound => exact .call (by rw [List.getLast?_append, hname]; rfl) hfound

namespace Parser

/-- From `ts`, the reader takes `used` and comes to an outcome, having seen no more than the first
of the tokens `rest` that are left: with any others after that one it comes to the same. -/
structure Sees {α : Type} (p : Parser α) (ts used rest : List Token)
    (outcome : List Token → Except ParseStop (α × List Token)) : Prop where
  split : ts = used ++ rest
  noEnd : ∀ t ∈ used, t.kind ≠ .endOfInput
  same : ∀ rest', current rest' = current rest → p (used ++ rest') = outcome rest'

section

variable (hope : List Token → Prop) (before : List Token) {α : Type}

/-- What a reader that starts after the tokens `before` may come to: some value, or an error with
hope for the tokens before the one that it is found at. Nothing is said of other ways to stop. -/
def Looked (p : Parser α) (ts : List Token) : Except ParseStop (α × List Token) → Prop
  | .ok (a, rest) => ∃ used, Sees p ts used rest fun rest => .ok (a, rest)
  | .error (.error error) => ∃ used rest, Sees p ts used rest (fun _ => .error (.error error)) ∧
      error.FoundAt (before ++ used) (current rest) ∧ hope (before ++ used)
  | .error .tooDeep | .error (.notNumber _) => True

/-- After the tokens `before`, the reader looks at one token more than it takes, and it fails only
where there is hope for the tokens before that one. -/
def Looks (p : Parser α) : Prop := ∀ ts, Looked hope before p ts (p ts)

/-- The same of a reader where `t` is the next token. -/
def LooksAt (t : Token) (p : Parser α) : Prop :=
  ∀ ts, current ts = t → Looked hope before p ts (p ts)

end

/-- The reader takes phrases of the sort, and fails only after tokens that begin one. -/
structure Predicts {α : Type} (p : Parser α) (phrase : Phrase α) : Prop where
  sound : Sound p phrase
  looks : Looks (Opens phrase) [] p

/-! ## Sequencing -/

variable {α β : Type} {hope hope' : List Token → Prop} {before front ts used rest : List Token}
  {p : Parser α} {next : α → Parser β} {t : Token} {a : α}

theorem current_append {rest' : List Token} (h : current rest' = current rest) (us : List Token) :
    current (us ++ rest') = current (us ++ rest) := by
  cases us with
  | nil => exact h
  | cons u us => rfl

namespace Sees

variable {outcome : List Token → Except ParseStop (β × List Token)}

/-- All tokens are taken only where none of them is the end of the input. -/
theorem noEnd_of_nil {q : Parser β} (h : Sees q ts used [] outcome) :
    ∀ t ∈ ts, t.kind ≠ .endOfInput := by
  rw [h.split, List.append_nil]
  exact h.noEnd

theorem bind {middle us : List Token} (h : Sees p ts used middle fun rest => .ok (a, rest))
    (hnext : Sees (next a) middle us rest outcome) :
    Sees (p >>= next) ts (used ++ us) rest outcome where
  split := by rw [h.split, hnext.split, List.append_assoc]
  noEnd t ht := (List.mem_append.mp ht).elim (h.noEnd t) (hnext.noEnd t)
  same rest' hsame := by
    have hmiddle : current (us ++ rest') = current middle := by
      rw [hnext.split]
      exact current_append hsame us
    rw [List.append_assoc, bind_of_ok (h.same _ hmiddle)]
    exact hnext.same rest' hsame

theorem bind_error {stop : ParseStop} (h : Sees p ts used rest fun _ => .error stop) :
    Sees (p >>= next) ts used rest fun _ => .error stop where
  split := h.split
  noEnd := h.noEnd
  same rest' hsame := by rw [bind_apply, h.same rest' hsame]

end Sees

/-- What follows a reader sees what both see. -/
theorem Looked.bind {middle : List Token} (h : Sees p ts used middle fun rest => .ok (a, rest))
    (hnext : Looked hope (before ++ used) (next a) middle (next a middle)) :
    Looked hope before (p >>= next) ts (next a middle) := by
  rcases hrest : next a middle with (error | _ | _) | ⟨b, rest⟩ <;> rw [hrest] at hnext
  · obtain ⟨us, rest, hsees, hfound, hused⟩ := hnext
    rw [List.append_assoc] at hfound hused
    exact ⟨used ++ us, rest, h.bind hsees, hfound, hused⟩
  · trivial
  · trivial
  · obtain ⟨us, hsees⟩ := hnext
    exact ⟨used ++ us, h.bind hsees⟩

namespace Looks

theorem looksAt (h : Looks hope before p) (t : Token) : LooksAt hope before t p := fun ts _ => h ts

theorem of_looksAt (h : ∀ t, LooksAt hope before t p) : Looks hope before p :=
  fun ts => h _ ts rfl

/-- A reader that starts after other tokens keeps the hope that there is with these. -/
theorem frame (h : Looks hope' before p) (hhope : ∀ used, hope' used → hope (front ++ used)) :
    Looks hope (front ++ before) p := by
  intro ts
  have hts := h ts
  rcases hp : p ts with (error | _ | _) | ⟨a, rest⟩ <;> rw [hp] at hts
  · obtain ⟨used, rest, hsees, hfound, hused⟩ := hts
    refine ⟨used, rest, hsees, ?_, ?_⟩ <;> rw [List.append_assoc]
    · exact hfound.after front
    · exact hhope _ hused
  · trivial
  · trivial
  · exact hts

theorem mono (h : Looks hope' before p) (hhope : ∀ used, hope' used → hope used) :
    Looks hope before p :=
  show Looks hope ([] ++ before) p from h.frame hhope

theorem bind (h : Looks hope before p)
    (hnext : ∀ used a rest, p (used ++ rest) = .ok (a, rest) →
      LooksAt hope (before ++ used) (current rest) (next a)) :
    Looks hope before (p >>= next) := by
  intro ts
  have hfirst := h ts
  rw [bind_apply]
  rcases hp : p ts with (error | _ | _) | ⟨a, middle⟩ <;> rw [hp] at hfirst
  · obtain ⟨used, rest, hsees, hfailed⟩ := hfirst
    exact ⟨used, rest, hsees.bind_error, hfailed⟩
  · trivial
  · trivial
  · obtain ⟨used, hsees⟩ := hfirst
    exact .bind hsees (hnext used a middle (hsees.split ▸ hp) middle rfl)

theorem pure (a : α) : Looks hope before (Pure.pure a) :=
  fun _ => ⟨[], rfl, by simp, fun _ _ => rfl⟩

theorem tooDeep : Looks hope before (tooDeep : Parser α) := fun _ => trivial

theorem numberLiteral (text : String) : Looks hope before (numberLiteral text) := by
  unfold Parser.numberLiteral
  cases Number.ofText? text with
  | none => exact fun _ => trivial
  | some value => exact .pure _

end Looks

theorem Sound.of_append {phrase : Phrase α} (h : Sound p phrase)
    (hread : p (used ++ rest) = .ok (a, rest)) : phrase used a := by
  obtain ⟨used', hsplit, hphrase⟩ := h _ _ _ hread
  rwa [List.append_cancel_right hsplit]

/-- A reader that predicts its phrase may come before another if there is hope with every beginning
of the phrase, and the other one goes on after every phrase. -/
theorem Predicts.bind {phrase : Phrase α} (h : Predicts p phrase)
    (hopens : ∀ used, Opens phrase used → hope (before ++ used))
    (hnext : ∀ used a, phrase used a → Looks hope (before ++ used) (next a)) :
    Looks hope before (p >>= next) := by
  have hlooks : Looks hope (before ++ []) p := h.looks.frame hopens
  rw [List.append_nil] at hlooks
  exact hlooks.bind fun used a rest hread => (hnext used a (h.sound.of_append hread)).looksAt _

/-! ## The first token -/

namespace LooksAt

theorem ite {c : Prop} [Decidable c] {q : Parser α} (hp : c → LooksAt hope before t p)
    (hq : ¬ c → LooksAt hope before t q) : LooksAt hope before t (if c then p else q) := by
  split
  · exact hp ‹_›
  · exact hq ‹_›

/-- A reader that fails for the next token, whatever follows it. -/
theorem of_error (error : ParseError)
    (hfails : ∀ ts, current ts = t → p ts = .error (.error error))
    (hfound : error.FoundAt before t) (hbefore : hope before) : LooksAt hope before t p := by
  rintro ts rfl
  rw [hfails ts rfl]
  refine ⟨[], ts, ⟨rfl, by simp, hfails⟩, ?_, ?_⟩ <;> rwa [List.append_nil]

theorem fail {error : ParseError} (hfound : error.FoundAt before t) (hbefore : hope before) :
    LooksAt hope before t (fail error : Parser α) :=
  of_error error (fun _ _ => rfl) hfound hbefore

theorem peek_bind {next : Token → Parser β} (hnext : LooksAt hope before t (next t)) :
    LooksAt hope before t (peek >>= next) := by
  rintro ts rfl
  have hts := hnext ts rfl
  -- Other tokens after the ones seen do not change which one comes first.
  have hsees {used rest outcome} (hsees : Sees (next (current ts)) ts used rest outcome) :
      Sees (peek >>= next) ts used rest outcome := by
    refine ⟨hsees.split, hsees.noEnd, fun rest' hsame => ?_⟩
    have hfirst : current (used ++ rest') = current ts := by
      rw [hsees.split]
      exact current_append hsame used
    change next (current (used ++ rest')) (used ++ rest') = _
    rw [hfirst]
    exact hsees.same rest' hsame
  change Looked hope before (peek >>= next) ts (next (current ts) ts)
  rcases hp : next (current ts) ts with (error | _ | _) | ⟨a, rest⟩ <;> rw [hp] at hts
  · obtain ⟨used, rest, hold, hfailed⟩ := hts
    exact ⟨used, rest, hsees hold, hfailed⟩
  · trivial
  · trivial
  · obtain ⟨used, hold⟩ := hts
    exact ⟨used, hsees hold⟩

theorem advance_bind {next : Token → Parser β} (ht : t.kind ≠ .endOfInput)
    (hnext : Looks hope (before ++ [t]) (next t)) :
    LooksAt hope before t (advance >>= next) := by
  rintro ts rfl
  refine .bind (p := advance) ⟨eq_cons_afterCurrent rfl ht, by simpa using ht, fun rest _ => ?_⟩
    (hnext (afterCurrent ts))
  change Except.ok (current ts, afterCurrent (current ts :: rest)) = _
  rw [afterCurrent_cons rfl ht]

theorem accept_bind {kind : TokenKind} (hkind : kind ≠ .endOfInput) {next : Bool → Parser β}
    (hyes : t.kind = kind → Looks hope (before ++ [t]) (next true))
    (hno : t.kind ≠ kind → LooksAt hope before t (next false)) :
    LooksAt hope before t (accept kind >>= next) := by
  rw [accept, bind_assoc]
  refine peek_bind ?_
  by_cases ht : t.kind = kind
  · rw [if_pos ht, bind_assoc]
    refine advance_bind (by rwa [ht]) ?_
    rw [pure_bind]
    exact hyes ht
  · rw [if_neg ht, pure_bind]
    exact hno ht

end LooksAt

namespace Looks

theorem peek_bind {next : Token → Parser β} (h : ∀ t, LooksAt hope before t (next t)) :
    Looks hope before (peek >>= next) :=
  of_looksAt fun t => (h t).peek_bind

theorem expect_bind {kind : TokenKind} (hkind : kind ≠ .endOfInput) {next : Token → Parser β}
    (hbefore : hope before)
    (hnext : ∀ t : Token, t.kind = kind → Looks hope (before ++ [t]) (next t)) :
    Looks hope before (expect kind >>= next) := by
  rw [expect, bind_assoc]
  refine peek_bind fun t => ?_
  by_cases ht : t.kind = kind
  · rw [if_pos ht]
    exact .advance_bind (by rwa [ht]) (hnext t ht)
  · rw [if_neg ht]
    exact .fail (.token rfl (by simp)) hbefore

theorem skipLineEnd_bind {next : Unit → Parser β}
    (hnext : ∀ line, Break line → Looks hope (before ++ line) (next ())) :
    Looks hope before (skipLineEnd >>= next) := by
  rw [skipLineEnd, bind_assoc]
  refine of_looksAt fun t => .accept_bind (by decide) (fun ht => ?_) fun _ => ?_
  · rw [pure_bind]
    exact hnext [t] (.one ht)
  · have hnone := hnext [] .none
    rw [List.append_nil] at hnone
    rw [pure_bind]
    exact hnone.looksAt t

theorem endStatement_bind {next : Unit → Parser β} (hbefore : hope before)
    (hline : ∀ t : Token, t.kind = .newline → Looks hope (before ++ [t]) (next ()))
    (hcloses : ∀ t : Token, t.kind.closesList = true → LooksAt hope before t (next ())) :
    Looks hope before (endStatement >>= next) := by
  rw [endStatement, bind_assoc]
  refine peek_bind fun t => ?_
  by_cases ht : t.kind = .newline
  · rw [if_pos ht, bind_assoc]
    refine .advance_bind (by simp [ht]) ?_
    rw [pure_bind]
    exact hline t ht
  rw [if_neg ht]
  by_cases hcloses' : t.kind.closesList = true
  · rw [if_pos hcloses', pure_bind]
    exact hcloses t hcloses'
  · rw [if_neg hcloses']
    exact .fail (.token rfl (by simp)) hbefore

/-- The end of a statement that is returned. -/
theorem endStatement_pure {b : β} (hbefore : hope before) :
    Looks hope before (endStatement >>= fun _ => Pure.pure b) :=
  endStatement_bind hbefore (fun _ _ => .pure b) fun t _ => (pure b).looksAt t

/-- The end of the input, which stays in place. -/
theorem expectEnd_pure {b : β} (hbefore : hope before) :
    Looks hope before (expect .endOfInput >>= fun _ => Pure.pure b) := by
  rw [expect, bind_assoc]
  refine peek_bind fun t => ?_
  by_cases ht : t.kind = .endOfInput
  · rw [if_pos ht]
    rintro ts rfl
    have hend (ts' : List Token) (hsame : current ts' = current ts) :
        (advance >>= fun _ => Pure.pure b) ts' = .ok (b, ts') := by
      change Except.ok (b, afterCurrent ts') = _
      rw [afterCurrent_of_end (by rwa [hsame])]
    rw [hend ts rfl]
    exact ⟨[], rfl, by simp, hend⟩
  · rw [if_neg ht]
    exact .fail (.token rfl (by simp)) hbefore

end Looks

end Parser

end Bol
