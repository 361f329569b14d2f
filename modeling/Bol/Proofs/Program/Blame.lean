/-
# The token to blame

A list of tokens that cannot be read is refused for one of its own tokens: the token that an error
points at, or a number token whose text stands for no number. Readers never take the end of the
input, so as long as the tokens end with it, there is always a token to look at, and every token
that a reader has seen is one of the list.
-/

import Bol.Proofs.Program.Readers

namespace Bol

/-- The tokens hold a number token with a text that stands for no number. -/
def HoldsNoNumber (tokens : List Token) (text : String) : Prop :=
  ∃ t ∈ tokens, t.kind = .number ∧ t.value = text ∧ Number.ofText? text = none

namespace Parser

/-- Tokens of the list `all`, up to an end of the input. -/
structure Rests (all ts : List Token) : Prop where
  mem : ∀ t ∈ ts, t ∈ all
  stops : ∃ body stop, ts = body ++ [stop] ∧ stop.kind = .endOfInput

/-- What a reader may come to within the list `all`: some value and what is left, or an end that a
token of the list is to blame for. -/
def Blamed {α : Type} (all : List Token) (value : α → Prop) :
    Except ParseStop (α × List Token) → Prop
  | .ok (a, rest) => value a ∧ Rests all rest
  | .error (.error error) => error.token ∈ all
  | .error .tooDeep => True
  | .error (.notNumber text) => HoldsNoNumber all text

/-- Within the list `all`, the reader finds values with the given property or blames a token of the
list. -/
def Blames {α : Type} (all : List Token) (value : α → Prop) (p : Parser α) : Prop :=
  ∀ ts, Rests all ts → Blamed all value (p ts)

variable {α β : Type} {n : Nat} {all ts : List Token}

namespace Rests

theorem current_mem (h : Rests all ts) : current ts ∈ all := by
  obtain ⟨hmem, body, stop, rfl, -⟩ := h
  cases body with
  | nil => exact hmem stop List.mem_cons_self
  | cons t body => exact hmem t List.mem_cons_self

theorem afterCurrent (h : Rests all ts) : Rests all (afterCurrent ts) := by
  obtain ⟨hmem, body, stop, rfl, hstop⟩ := h
  cases body with
  | nil =>
      have hsame : Parser.afterCurrent [stop] = [stop] := if_pos hstop
      exact ⟨by rwa [List.nil_append, hsame], [], stop, hsame, hstop⟩
  | cons t body =>
      rw [List.cons_append, List.forall_mem_cons] at hmem
      rw [List.cons_append, Parser.afterCurrent]
      split
      · exact ⟨List.forall_mem_cons.mpr hmem, t :: body, stop, rfl, hstop⟩
      · exact ⟨hmem.2, body, stop, rfl, hstop⟩

end Rests

namespace Blames

variable {value : α → Prop} {other : β → Prop} {p : Parser α} {next : α → Parser β}

theorem bind (h : Blames all value p) (hnext : ∀ a, value a → Blames all other (next a)) :
    Blames all other (p >>= next) := by
  intro ts hts
  have hfirst := h ts hts
  rw [bind_apply]
  rcases hp : p ts with (error | _ | text) | ⟨a, rest⟩ <;> rw [hp] at hfirst
  · exact hfirst
  · trivial
  · exact hfirst
  · exact hnext a hfirst.1 rest hfirst.2

theorem pure {a : α} (h : value a) : Blames all value (Pure.pure a) := fun _ hts => ⟨h, hts⟩

theorem fail {error : ParseError} (h : error.token ∈ all) :
    Blames all value (fail error : Parser α) := fun _ _ => h

theorem tooDeep : Blames all value (tooDeep : Parser α) := fun _ _ => trivial

theorem peek : Blames all (· ∈ all) peek := fun _ hts => ⟨hts.current_mem, hts⟩

theorem advance : Blames all (· ∈ all) advance := fun _ hts => ⟨hts.current_mem, hts.afterCurrent⟩

theorem ite {c : Prop} [Decidable c] {q : Parser α} (hp : Blames all value p)
    (hq : Blames all value q) : Blames all value (if c then p else q) := by
  split
  · exact hp
  · exact hq

theorem accept (kind : TokenKind) : Blames all (fun _ => True) (accept kind) :=
  peek.bind fun _ _ => ite (advance.bind fun _ _ => pure trivial) (pure trivial)

theorem expect (kind : TokenKind) : Blames all (· ∈ all) (expect kind) :=
  peek.bind fun _ ht => ite advance (fail ht)

theorem skipLineEnd : Blames all (fun _ => True) skipLineEnd :=
  (accept _).bind fun _ _ => pure trivial

theorem endStatement : Blames all (fun _ => True) endStatement :=
  peek.bind fun _ ht => ite (advance.bind fun _ _ => pure trivial) (ite (pure trivial) (fail ht))

/-! ## Expressions -/

section

variable {minus : Expr → Expr} {isOp : TokenKind → Bool} {part : Parser Expr}
  {item : Parser α}

theorem chain (h : Blames all (fun _ => True) part) (left : Expr) :
    Blames all (fun _ => True) (chain isOp part n left) := by
  induction n generalizing left with
  | zero => exact pure trivial
  | succ n ih =>
      exact peek.bind fun _ _ =>
        ite (advance.bind fun _ _ => h.bind fun _ _ => ih _) (pure trivial)

theorem leftAssociative (h : Blames all (fun _ => True) part) :
    Blames all (fun _ => True) (leftAssociative n isOp part) :=
  h.bind fun left _ => h.chain left

theorem comparison (h : Blames all (fun _ => True) part) :
    Blames all (fun _ => True) (comparison part) :=
  h.bind fun _ _ => peek.bind fun _ _ =>
    ite (advance.bind fun _ _ => h.bind fun _ _ => pure trivial) (pure trivial)

theorem expressionOf (h : Blames all (fun _ => True) part) :
    Blames all (fun _ => True) (expressionOf n part) :=
  h.leftAssociative.leftAssociative.comparison.leftAssociative.leftAssociative

theorem moreItems (h : Blames all value item) (items : List α) :
    Blames all (fun _ => True) (moreItems item n items) := by
  induction n generalizing items with
  | zero => exact pure trivial
  | succ n ih =>
      exact (accept _).bind fun _ _ => ite (h.bind fun _ _ => ih _) (pure trivial)

theorem listOf (h : Blames all value item) : Blames all (fun _ => True) (listOf n item) := by
  refine (expect _).bind fun _ _ => peek.bind fun _ _ =>
    ite ((pure trivial : Blames all (fun _ => True) _).bind fun _ _ => ?_)
      (h.bind fun _ _ => (h.moreItems _).bind fun _ _ => ?_)
  all_goals exact (expect _).bind fun _ _ => pure trivial

theorem numberLiteral {t : Token} (ht : t ∈ all) (hkind : t.kind = .number) :
    Blames all (fun _ => True) (numberLiteral t.value) := by
  unfold Parser.numberLiteral
  split
  · exact pure trivial
  case h_2 hnone => exact fun _ _ => ⟨t, ht, hkind, rfl, hnone⟩

theorem primary (h : Blames all (fun _ => True) part) :
    Blames all (fun _ => True) (primary n part) := by
  refine advance.bind fun t ht => ?_
  split
  case h_1 hkind => exact numberLiteral ht hkind
  case h_6 =>
    exact peek.bind fun _ _ => ite (h.listOf.bind fun _ _ => pure trivial) (pure trivial)
  case h_7 => exact h.bind fun _ _ => (expect _).bind fun _ _ => pure trivial
  case h_8 => exact fail ht
  all_goals exact pure trivial

theorem operand (depth : Nat) : Blames all (fun _ => True) (operand minus n depth) := by
  induction depth with
  | zero => exact tooDeep
  | succ depth ih =>
      refine peek.bind fun t _ => ?_
      split
      · exact advance.bind fun _ _ => ih.bind fun _ _ => pure trivial
      · exact advance.bind fun _ _ => ih.bind fun _ _ => pure trivial
      · exact ih.expressionOf.primary

theorem expression (depth : Nat) : Blames all (fun _ => True) (expression minus n depth) :=
  (operand depth).expressionOf

end

/-! ## Statements -/

section

variable {minus : Expr → Expr} {ends : TokenKind → Bool} {value : Parser Expr}
  {body : Parser (List Stmt)} {one : Parser Stmt}

theorem statementsFrom (h : Blames all (fun _ => True) one) (read : List Stmt) :
    Blames all (fun _ => True) (statementsFrom one ends n read) := by
  induction n generalizing read with
  | zero => exact pure trivial
  | succ n ih =>
      exact peek.bind fun _ _ => ite (pure trivial) <| (accept _).bind fun _ _ =>
        ite (ih _) <| h.bind fun _ _ => ih _

theorem block (h : Blames all (fun _ => True) one) : Blames all (fun _ => True) (block n one) :=
  (expect _).bind fun _ _ => skipLineEnd.bind fun _ _ => (h.statementsFrom _).bind fun _ _ =>
    (expect _).bind fun _ _ => pure trivial

variable (hvalue : Blames all (fun _ => True) value) (hbody : Blames all (fun _ => True) body)
include hvalue

theorem binding : Blames all (fun _ => True) (binding value) :=
  (expect _).bind fun _ _ => hvalue.bind fun _ _ => endStatement.bind fun _ _ => pure trivial

include hbody

theorem clause : Blames all (fun _ => True) (clause value body) :=
  hvalue.bind fun _ _ => skipLineEnd.bind fun _ _ => hbody.bind fun _ _ => pure trivial

theorem alternative (clauses : List (Expr × List Stmt)) :
    Blames all (fun _ => True) (alternative value body n clauses) := by
  induction n generalizing clauses with
  | zero => exact pure trivial
  | succ n ih =>
      refine skipLineEnd.bind fun _ _ => (accept _).bind fun _ _ =>
        ite ((hvalue.clause hbody).bind fun _ _ => ih _) ((accept _).bind fun _ _ =>
          ite ?_ (pure trivial))
      exact skipLineEnd.bind fun _ _ => hbody.bind fun _ _ => pure trivial

theorem statementAfter {t : Token} (ht : t ∈ all) :
    Blames all (fun _ => True) (statementAfter n value body t) := by
  unfold Parser.statementAfter
  cases t.kind
  case declare => exact (expect _).bind fun _ _ => hvalue.binding.bind fun _ _ => pure trivial
  case identifier =>
    exact peek.bind fun _ _ => ite (fail ht) (hvalue.binding.bind fun _ _ => pure trivial)
  case print => exact hvalue.bind fun _ _ => endStatement.bind fun _ _ => pure trivial
  case ifWord =>
    exact (hvalue.clause hbody).bind fun _ _ => (hvalue.alternative hbody _).bind fun _ _ =>
      skipLineEnd.bind fun _ _ => pure trivial
  case whileWord =>
    exact (hvalue.clause hbody).bind fun _ _ => skipLineEnd.bind fun _ _ => pure trivial
  case breakWord => exact endStatement.bind fun _ _ => pure trivial
  case continueWords => exact endStatement.bind fun _ _ => pure trivial
  case functionWord =>
    have hparam : Blames all (fun _ => True) (Token.value <$> Parser.expect .identifier) := by
      intro ts hts
      rw [map_apply]
      exact (expect _).bind (fun _ _ => pure trivial) ts hts
    exact (expect _).bind fun _ _ => hparam.listOf.bind fun _ _ => skipLineEnd.bind fun _ _ =>
      hbody.bind fun _ _ => skipLineEnd.bind fun _ _ => pure trivial
  case returnWord =>
    exact peek.bind fun _ _ => ite (skipLineEnd.bind fun _ _ => pure trivial)
      (hvalue.bind fun _ _ => endStatement.bind fun _ _ => pure trivial)
  all_goals exact fail ht

end

section

variable {minus : Expr → Expr}

theorem statement (depth : Nat) : Blames all (fun _ => True) (statement minus n depth) := by
  induction depth with
  | zero => exact tooDeep
  | succ depth ih => exact advance.bind fun _ ht => (expression depth).statementAfter ih.block ht

theorem program (depth : Nat) : Blames all (fun _ => True) (program minus n depth) :=
  (expect _).bind fun _ _ => endStatement.bind fun _ _ =>
    ((statement depth).statementsFrom _).bind fun _ _ => (expect _).bind fun _ _ => pure trivial

theorem fragment (depth : Nat) : Blames all (fun _ => True) (fragment minus n depth) :=
  ((statement depth).statementsFrom _).bind fun _ _ => (expect _).bind fun _ _ => pure trivial

end

end Blames

end Parser

namespace Program

open Bol.Parser

variable {body : List Token} {stop : Token} {error : ParseError} {text : String} {depth : Nat}

theorem blamed_of_blames {p : Parser Program} (hstop : stop.kind = .endOfInput)
    (hp : Blames (body ++ [stop]) (fun _ => True) p) {why : ParseStop}
    (h : p.run' (body ++ [stop]) = .error why) :
    Blamed (body ++ [stop]) (fun _ : Program => True) (.error why) := by
  have hblamed := hp _ ⟨fun _ ht => ht, body, stop, rfl, hstop⟩
  rw [run'_apply] at h
  rcases hresult : p (body ++ [stop]) with stopped | ⟨P, rest⟩ <;> rw [hresult] at h hblamed
  · cases h
    exact hblamed
  · cases h

/-- The error that a program is refused with points at one of its tokens. -/
theorem token_mem_of_parse (hstop : stop.kind = .endOfInput)
    (h : parse (body ++ [stop]) = .error (.error error)) : error.token ∈ body ++ [stop] :=
  blamed_of_blames hstop (Blames.program depthLimit) h

/-- The error that a fragment is refused with points at one of its tokens. -/
theorem token_mem_of_parseFragment (hstop : stop.kind = .endOfInput)
    (h : parseFragment (body ++ [stop]) = .error (.error error)) : error.token ∈ body ++ [stop] :=
  blamed_of_blames hstop (Blames.fragment depthLimit) h

/-- A program that is refused for the text of a number has a token with that text. -/
theorem holdsNoNumber_of_parseWithin (hstop : stop.kind = .endOfInput)
    (h : parseWithin depth (body ++ [stop]) = .error (.notNumber text)) :
    HoldsNoNumber (body ++ [stop]) text :=
  blamed_of_blames hstop (Blames.program depth) h

/-- So has a fragment. -/
theorem holdsNoNumber_of_parseFragmentWithin (hstop : stop.kind = .endOfInput)
    (h : parseFragmentWithin depth (body ++ [stop]) = .error (.notNumber text)) :
    HoldsNoNumber (body ++ [stop]) text :=
  blamed_of_blames hstop (Blames.fragment depth) h

end Program

end Bol
