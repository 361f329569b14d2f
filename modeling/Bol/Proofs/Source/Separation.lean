/-
# What stands between statements

A simple statement has to be followed by a line end, unless the list it is in is closed there. So
it is wherever a statement stands in tokens that are read: in the program, or in a block of a
statement at whatever depth. A statement with a block is different. It ends with the brace that
closes its last block, and the line end after that brace may be left out.
-/

import Bol.Proofs.Program.Derivation
import Bol.Proofs.Source.Places

namespace Bol

open Grammar

namespace Grammar

section

variable (simple compound : Phrase Stmt)

/-- A statement stands in a list of statements, as the tokens `used` between `before` and `after`;
`later` are the statements of the list that follow it. -/
inductive ListOf.StandsAt :
    (ts : List Token) → (body : List Stmt) → (before used after : List Token) → Stmt →
    (later : List Stmt) → Prop
  | lineEnd {t : Token} {ts before used after : List Token} {rest later : List Stmt} {stmt : Stmt}
      (ht : t.kind = .newline) (hstands : StandsAt ts rest before used after stmt later) :
      StandsAt (t :: ts) rest (t :: before) used after stmt later
  | compound {ts us : List Token} {a : Stmt} {rest : List Stmt} (h : compound ts a)
      (hrest : ListOf simple compound us rest) : StandsAt (ts ++ us) (a :: rest) [] ts us a rest
  | afterCompound {ts us before used after : List Token} {a stmt : Stmt} {rest later : List Stmt}
      (h : compound ts a) (hstands : StandsAt us rest before used after stmt later) :
      StandsAt (ts ++ us) (a :: rest) (ts ++ before) used after stmt later
  | simple {ts us : List Token} {t : Token} {a : Stmt} {rest : List Stmt} (h : simple ts a)
      (ht : t.kind = .newline) (hrest : ListOf simple compound us rest) :
      StandsAt (ts ++ t :: us) (a :: rest) [] ts (t :: us) a rest
  | afterSimple {ts us before used after : List Token} {t : Token} {a stmt : Stmt}
      {rest later : List Stmt} (h : simple ts a) (ht : t.kind = .newline)
      (hstands : StandsAt us rest before used after stmt later) :
      StandsAt (ts ++ t :: us) (a :: rest) (ts ++ t :: before) used after stmt later
  | last {ts : List Token} {a : Stmt} (h : simple ts a) : StandsAt ts [a] [] ts [] a []

end

section

variable {value : Phrase Expr} {block : Phrase (List Stmt)}
  {simple compound : Phrase Stmt} {ts before used after : List Token} {stmt : Stmt}
  {body later : List Stmt}

namespace ListOf.StandsAt

theorem tokens_eq (h : StandsAt simple compound ts body before used after stmt later) :
    ts = before ++ (used ++ after) := by
  induction h with
  | lineEnd _ _ ih | afterCompound _ _ ih | afterSimple _ _ _ ih => simp [ih]
  | compound | simple => rfl
  | last => simp

theorem spells (h : StandsAt simple compound ts body before used after stmt later) :
    simple used stmt ∨ compound used stmt := by
  induction h with
  | lineEnd _ _ ih | afterCompound _ _ ih | afterSimple _ _ _ ih => exact ih
  | compound h => exact .inr h
  | simple h | last h => exact .inl h

/-- A line end follows a simple statement that is not the last thing in its list. -/
theorem lineEnd_of_simple (hcompound : ∀ ts stmt, compound ts stmt → stmt.blocks ≠ [])
    (h : StandsAt simple compound ts body before used after stmt later)
    (hstmt : stmt.blocks = []) :
    (∃ t rest, after = t :: rest ∧ t.kind = .newline) ∨ after = [] ∧ later = [] := by
  induction h with
  | lineEnd _ _ ih | afterCompound _ _ ih | afterSimple _ _ _ ih => exact ih hstmt
  | compound h => exact absurd hstmt (hcompound _ _ h)
  | simple _ ht => exact .inl ⟨_, _, rfl, ht⟩
  | last => exact .inr ⟨rfl, rfl⟩

end ListOf.StandsAt

/-- Every statement of a list stands in it somewhere. -/
theorem ListOf.exists_standsAt (h : ListOf simple compound ts body) (hstmt : stmt ∈ body) :
    ∃ before used after later, StandsAt simple compound ts body before used after stmt later := by
  induction h with
  | done => cases hstmt
  | lineEnd ht _ ih =>
      obtain ⟨before, used, after, later, hstands⟩ := ih hstmt
      exact ⟨_, used, after, later, .lineEnd ht hstands⟩
  | compound h hrest ih =>
      obtain rfl | hstmt := List.mem_cons.mp hstmt
      · exact ⟨_, _, _, _, .compound h hrest⟩
      · obtain ⟨before, used, after, later, hstands⟩ := ih hstmt
        exact ⟨_, used, after, later, .afterCompound h hstands⟩
  | simple h ht hrest ih =>
      obtain rfl | hstmt := List.mem_cons.mp hstmt
      · exact ⟨_, _, _, _, .simple h ht hrest⟩
      · obtain ⟨before, used, after, later, hstands⟩ := ih hstmt
        exact ⟨_, used, after, later, .afterSimple h ht hstands⟩
  | last h =>
      obtain rfl := List.mem_singleton.mp hstmt
      exact ⟨_, _, _, _, .last h⟩

theorem Simple.blocks_eq_nil (h : Simple value used stmt) : stmt.blocks = [] := by
  cases h <;> rfl

theorem Compound.blocks_ne_nil (h : Compound value block used stmt) : stmt.blocks ≠ [] := by
  cases h <;> exact List.cons_ne_nil _ _

end

/-- The simple statements of the language. -/
abbrev Plain : Phrase Stmt := Simple Expression

/-- The statements of the language that have blocks. -/
abbrev Nested : Phrase Stmt :=
  Compound Expression (Block Statements)

end Grammar

namespace Program

/-- A list of statements stands in the tokens of a program, as the tokens `inner` between `front`
and `back`: it is that of the program itself, between its markers or in front of the end of the
input, or it is in the braces of a block. -/
inductive Encloses (P : Program) (tokens : List Token) :
    (front inner back : List Token) → (body : List Stmt) → Prop
  | marked {start line stop : Token} {inner after : List Token}
      (htokens : tokens = [start, line] ++ (inner ++ stop :: after))
      (hstart : start.kind = .programStart) (hline : line.kind = .newline)
      (hstop : stop.kind = .programEnd) (hbody : Statements inner P.statements) :
      Encloses P tokens [start, line] inner (stop :: after) P.statements
  | unmarked {inner back : List Token} (htokens : tokens = inner ++ back)
      (hback : (Parser.current back).kind = .endOfInput)
      (hbody : Statements inner P.statements) :
      Encloses P tokens [] inner back P.statements
  | block {front ts back before after opening closing inner : List Token} {l r : Token}
      {outer : Stmt} {body block later : List Stmt} (houter : Encloses P tokens front ts back body)
      (hstands : ListOf.StandsAt Plain Nested ts body before
        (opening ++ l :: (inner ++ r :: closing)) after outer later)
      (hblock : block ∈ outer.blocks) (hl : l.kind = .leftBrace) (hr : r.kind = .rightBrace)
      (hbody : Statements inner block) :
      Encloses P tokens (front ++ (before ++ (opening ++ [l]))) inner
        (r :: (closing ++ (after ++ back))) block

/-- A statement stands in the tokens of a program, as the tokens `used` between `before` and
`after`; `later` are the statements that follow it in its list. -/
def StandsIn (P : Program) (tokens before used after : List Token) (stmt : Stmt)
    (later : List Stmt) : Prop :=
  ∃ front inner back body first last, P.Encloses tokens front inner back body ∧
    ListOf.StandsAt Plain Nested inner body first used last stmt
      later ∧
    before = front ++ first ∧ after = last ++ back

variable {P : Program} {tokens front inner back : List Token} {body : List Stmt}

namespace Encloses

theorem tokens_eq (h : P.Encloses tokens front inner back body) :
    tokens = front ++ (inner ++ back) := by
  induction h with
  | marked htokens => exact htokens
  | unmarked htokens => exact htokens
  | block _ hstands _ _ _ _ ih =>
      rw [ih, hstands.tokens_eq]
      simp

/-- What follows a list of statements closes it. -/
theorem closesList (h : P.Encloses tokens front inner back body) :
    (Parser.current back).kind.closesList = true := by
  cases h with
  | marked _ _ _ hstop => rw [Parser.current, hstop]; rfl
  | unmarked _ hback => rw [hback]; rfl
  | block _ _ _ _ hr => rw [Parser.current, hr]; rfl

theorem statements (h : P.Encloses tokens front inner back body) :
    Statements inner body := by
  cases h with
  | marked _ _ _ _ hbody | unmarked _ _ hbody | block _ _ _ _ _ hbody => exact hbody

/-- Every statement that occurs in a list, at whatever depth, stands in the tokens. -/
theorem exists_standsIn {stmt : Stmt} (h : P.Encloses tokens front inner back body)
    (hstmt : stmt.OccursIn body) :
    ∃ before used after later, P.StandsIn tokens before used after stmt later := by
  induction hstmt generalizing front inner back with
  | here hstmt =>
      obtain ⟨first, used, last, later, hstands⟩ :=
        (statements_iff.mp h.statements).exists_standsAt hstmt
      exact ⟨_, used, _, later, _, _, _, _, _, _, h, hstands, rfl, rfl⟩
  | inside houter hblock _ ih =>
      obtain ⟨first, used, last, later, hstands⟩ :=
        (statements_iff.mp h.statements).exists_standsAt houter
      obtain hsimple | hcompound := hstands.spells
      · rw [hsimple.blocks_eq_nil] at hblock
        cases hblock
      · obtain ⟨braces, ⟨opening, closing, hused⟩, hbraces⟩ := hcompound.exists_block hblock
        cases hbraces with
        | @intro l r inner _ hl hbody hr =>
            obtain rfl : opening ++ l :: (inner ++ r :: closing) = used := by simpa using hused
            exact ih (.block h hstands hblock hl hr hbody)

end Encloses

namespace StandsIn

variable {before used after : List Token} {stmt : Stmt} {later : List Stmt}

theorem tokens_eq (h : P.StandsIn tokens before used after stmt later) :
    tokens = before ++ (used ++ after) := by
  obtain ⟨front, inner, back, body, first, last, hlist, hstands, rfl, rfl⟩ := h
  rw [hlist.tokens_eq, hstands.tokens_eq]
  simp

/-- The token after a simple statement ends it: it is a line end where another statement follows,
and a line end or a token that closes the list of statements otherwise. -/
theorem endsSimple (h : P.StandsIn tokens before used after stmt later)
    (hstmt : stmt.blocks = []) :
    (Parser.current after).kind.endsSimple = true ∧
      (later ≠ [] → (Parser.current after).kind = .newline) := by
  obtain ⟨front, inner, back, body, first, last, hlist, hstands, rfl, rfl⟩ := h
  obtain ⟨t, rest, rfl, ht⟩ | ⟨rfl, rfl⟩ :=
    hstands.lineEnd_of_simple (fun _ _ h => h.blocks_ne_nil) hstmt
  · have hcurrent : (Parser.current (t :: rest ++ back)).kind = .newline := ht
    rw [hcurrent]
    exact ⟨rfl, fun _ => rfl⟩
  · refine ⟨?_, fun hlater => absurd rfl hlater⟩
    rw [List.nil_append, TokenKind.endsSimple, hlist.closesList, Bool.or_true]

end StandsIn

open Bol.Parser

/-- The statements of a program that is read stand in the tokens, if there are any. -/
theorem exists_encloses_of_parse {depth : Nat}
    (h : parseWithin depth tokens = .ok P ∨ parseFragmentWithin depth tokens = .ok P) :
    P.statements = [] ∨ ∃ front inner back, P.Encloses tokens front inner back P.statements := by
  obtain h | h := h
  · rw [parseWithin, run'_apply] at h
    rcases hread : Parser.program Expr.negated tokens.length depth tokens with
      stop | ⟨P', rest⟩ <;> rw [hread] at h <;> cases h
    have hmarked := (statements_of_statementsAt depth tokens.length).marked tokens _
      (Nat.le_refl _) (Sound.program hread)
    cases hmarked with
    | intro hstart hline hbody hstop =>
        exact .inr ⟨_, _, _, .marked rfl hstart hline hstop hbody⟩
    | empty => exact .inl rfl
  · rw [parseFragmentWithin, run'_apply] at h
    rcases hread : Parser.fragment Expr.negated tokens.length depth tokens with
      stop | ⟨P', rest⟩ <;> rw [hread] at h <;> cases h
    obtain ⟨used, hsplit, hend, hbody⟩ := Sound.fragment hread
    have hstatements := statements_of_statementsAt depth used.length used _ (Nat.le_refl _) hbody
    exact .inr ⟨_, _, _, .unmarked hsplit hend hstatements⟩

/-- Simple statements are ended where programs are read. Every statement of a program, at whatever
depth, stands in the tokens, and wherever one without a block stands, the next token is a line end
or closes the list it is in; if another statement of the list follows, it is a line end. -/
theorem simple_statements_ended {depth : Nat}
    (h : parseWithin depth tokens = .ok P ∨ parseFragmentWithin depth tokens = .ok P) :
    (∀ stmt, stmt.OccursIn P.statements →
      ∃ before used after later, P.StandsIn tokens before used after stmt later) ∧
    ∀ before used after stmt later, P.StandsIn tokens before used after stmt later →
      tokens = before ++ (used ++ after) ∧
      (stmt.blocks = [] → (Parser.current after).kind.endsSimple = true ∧
        (later ≠ [] → (Parser.current after).kind = .newline)) := by
  refine ⟨fun stmt hstmt => ?_, fun before used after stmt later hstands =>
    ⟨hstands.tokens_eq, hstands.endsSimple⟩⟩
  obtain hnone | ⟨front, inner, back, hlist⟩ := exists_encloses_of_parse h
  · rw [hnone] at hstmt
    cases hstmt with
    | here hstmt => cases hstmt
    | inside houter => cases houter
  · exact hlist.exists_standsIn hstmt

/-- The tokens of a statement that prints a string. -/
def printOne : List Token := [⟨.print, "he bol", 1⟩, ⟨.string, "1", 1⟩]

/-- The tokens of a loop around it, up to the end of the input. -/
def loopAround : List Token :=
  [⟨.whileWord, "joparyant", 1⟩, ⟨.trueWord, "barobr", 1⟩, ⟨.leftBrace, "\x7b", 1⟩] ++ printOne ++
    [⟨.newline, "\\n", 1⟩, ⟨.breakWord, "thamb", 2⟩, ⟨.rightBrace, "\x7d", 2⟩, ⟨.endOfInput, "", 2⟩]

theorem simple_statements_ended_loopAround :
    let first : Stmt := .print (.string "1") (some 1)
    let P : Program := ⟨[.whileDo (.boolean true) [first, .breakLoop (some 2)] (some 1)]⟩
    parseFragment loopAround = .ok P ∧
      ∃ before used after later, P.StandsIn loopAround before used after first later ∧
        loopAround = before ++ (used ++ after) ∧
        (Parser.current after).kind.endsSimple = true := by
  intro first P
  have hread : parseFragment loopAround = .ok P := rfl
  obtain ⟨hplaces, hends⟩ := simple_statements_ended (.inr hread)
  obtain ⟨before, used, after, later, hstands⟩ :=
    hplaces first (.inside List.mem_cons_self List.mem_cons_self (.here List.mem_cons_self))
  obtain ⟨hsplit, hsimple⟩ := hends _ _ _ _ _ hstands
  exact ⟨hread, before, used, after, later, hstands, hsplit, (hsimple rfl).1⟩

/-- The tokens of a statement with an empty block. -/
def emptyIf : List Token :=
  [⟨.ifWord, "jr", 1⟩, ⟨.trueWord, "barobr", 1⟩, ⟨.leftBrace, "\x7b", 1⟩, ⟨.rightBrace, "\x7d", 1⟩]

/-- After a statement with a block, another one may follow without a line end. -/
theorem statements_on_one_line :
    let first : Stmt := .ifThen (.boolean true) [] .nothing (some 1)
    let second : Stmt := .print (.string "1") (some 1)
    let after := printOne ++ [⟨.endOfInput, "", 1⟩]
    parseFragment (emptyIf ++ after) = .ok ⟨[first, second]⟩ ∧
      StandsIn ⟨[first, second]⟩ (emptyIf ++ after) [] emptyIf after first [second] ∧
      (Parser.current after).kind.endsSimple = false ∧
      ∀ t ∈ emptyIf ++ after, t.kind ≠ .newline := by
  refine ⟨rfl, ?_, rfl, by decide⟩
  have hvalue {t : Token} {e : Expr} (h : OperandOf Operand
      Expression [t] e) : Expression [t] e :=
    .single (.single (.single (.single (.single (operand_iff.mpr h)))))
  have hblock : Block Statements (emptyIf.drop 2) [] :=
    @Block.intro _ _ _ [] _ rfl (statements_iff.mpr .done) rfl
  have hclause : Clause Expression (Block Statements)
      (emptyIf.drop 1) (.boolean true, []) := .intro (hvalue (.true rfl)) .none hblock
  have hfirst : Nested emptyIf (.ifThen (.boolean true) [] .nothing (some 1)) :=
    .ifThen rfl hclause .nothing
  have hsecond : Plain printOne (.print (.string "1") (some 1)) :=
    .print rfl (hvalue (.string rfl))
  have hbody := ListOf.compound hfirst (.last hsecond)
  exact ⟨[], _, [⟨.endOfInput, "", 1⟩], _, [], _, .unmarked rfl rfl (statements_iff.mpr hbody),
    .compound hfirst (.last hsecond), rfl, rfl⟩

end Program

end Bol
