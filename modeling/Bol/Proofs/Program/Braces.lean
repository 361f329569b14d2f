/-
# Braces and line ends in statements

Statements may go on over several lines: inside the braces of a block, and where a line ends before
a brace or before a word that continues the statement. Everywhere else a line end comes after a
statement. So a list of statements may be cut in two at a line end that is outside of all braces,
unless the next token continues the statement before it.
-/

import Bol.Proofs.Program.Joining
import Bol.Proofs.Token.Braces

namespace Bol

namespace TokenKind

/-- Kinds that continue a statement after the end of its line. -/
def continuesStatement : TokenKind → Bool
  | leftBrace | elseIf | elseWord => true
  | _ => false

theorem brace_of_not_layout {kind : TokenKind} (h : kind ∉ layout) : kind.brace = 0 := by
  revert h
  cases kind <;> decide

end TokenKind

namespace Token

/-- As many braces close as open, and none closes before it opens. -/
structure Nested (ts : List Token) : Prop where
  level_eq : level ts = 0
  level_nonneg : ∀ us vs, ts = us ++ vs → 0 ≤ level us

/-- Where a line ends outside of all braces, a token follows that continues the statement. -/
structure Unbroken (ts : List Token) : Prop extends Nested ts where
  continues : ∀ us t vs, ts = us ++ t :: vs → t.kind = .newline → level us = 0 →
    ∃ next rest, vs = next :: rest ∧ next.kind.continuesStatement = true

variable {ts us : List Token}

theorem Nested.append (h : Nested ts) (h' : Nested us) : Nested (ts ++ us) where
  level_eq := by rw [level_append, h.level_eq, h'.level_eq]; rfl
  level_nonneg front back hsplit := by
    obtain ⟨middle, rfl, rfl⟩ | ⟨middle, rfl, rfl⟩ := List.append_eq_append_iff.mp hsplit
    · rw [level_append, h.level_eq, Int.zero_add]
      exact h'.level_nonneg middle back rfl
    · exact h.level_nonneg front middle rfl

/-- Up to a token that comes after nested ones, too, none closes before it opens. -/
theorem level_front_nonneg (h : Nested ts) {last : Token} {front back : List Token}
    (hsplit : ts ++ [last] = front ++ back) (hback : back ≠ []) : 0 ≤ level front := by
  obtain ⟨middle, rfl, hend⟩ | ⟨middle, rfl, rfl⟩ := List.append_eq_append_iff.mp hsplit
  · obtain ⟨rfl, rfl⟩ | ⟨-, rfl⟩ := List.singleton_eq_append_iff.mp hend
    · rw [List.append_nil]
      exact Int.le_of_eq h.level_eq.symm
    · exact absurd rfl hback
  · exact h.level_nonneg front middle rfl

/-- Tokens in braces. -/
theorem Nested.braced (h : Nested ts) {l r : Token} (hl : l.kind = .leftBrace)
    (hr : r.kind = .rightBrace) : Unbroken (l :: (ts ++ [r])) := by
  have hlevel : level (l :: (ts ++ [r])) = 0 := by
    simp [hl, hr, h.level_eq, TokenKind.brace]
  refine ⟨⟨hlevel, fun front back hsplit => ?_⟩, fun front t back hsplit ht hzero => ?_⟩
  · cases front with
    | nil => exact Int.le_refl 0
    | cons first front =>
        obtain ⟨rfl, hinside⟩ := List.cons.inj hsplit
        cases back with
        | nil =>
            rw [← List.append_nil (l :: front), ← hsplit]
            exact Int.le_of_eq hlevel.symm
        | cons next back =>
            have hnonneg := level_front_nonneg h hinside (List.cons_ne_nil next back)
            rw [level_cons, hl, TokenKind.brace]
            omega
  · cases front with
    | nil =>
        obtain ⟨rfl, -⟩ := List.cons.inj hsplit
        rw [hl] at ht
        cases ht
    | cons first front =>
        obtain ⟨rfl, hinside⟩ := List.cons.inj hsplit
        have hnonneg := level_front_nonneg h hinside (List.cons_ne_nil t back)
        rw [level_cons, hl, TokenKind.brace] at hzero
        omega

/-- Tokens that are no braces. -/
theorem Nested.of_brace (h : ∀ t ∈ ts, t.kind.brace = 0) : Nested ts := by
  have hlevel : ∀ us : List Token, (∀ t ∈ us, t.kind.brace = 0) → level us = 0 := by
    intro us hus
    induction us with
    | nil => rfl
    | cons t us ih =>
        obtain ⟨ht, hus⟩ := List.forall_mem_cons.mp hus
        rw [level_cons, ht, ih hus]
        rfl
  refine ⟨hlevel ts h, fun front back hsplit => ?_⟩
  exact Int.le_of_eq (hlevel front fun t ht => h t (by simp [hsplit, ht])).symm

/-- Tokens that are neither braces nor line ends. -/
theorem Unbroken.of_plain (h : ∀ t ∈ ts, t.kind ∉ TokenKind.layout) : Unbroken ts where
  toNested := .of_brace fun t ht => TokenKind.brace_of_not_layout (h t ht)
  continues front t back hsplit ht _ := absurd (ht ▸ by decide) (h t (by simp [hsplit]))

theorem Unbroken.append (h : Unbroken ts) (h' : Unbroken us) : Unbroken (ts ++ us) where
  toNested := h.toNested.append h'.toNested
  continues front t back hsplit ht hlevel := by
    obtain ⟨middle, rfl, hback⟩ | ⟨middle, rfl, hmiddle⟩ := List.append_eq_append_iff.mp hsplit
    · rw [level_append, h.level_eq, Int.zero_add] at hlevel
      exact h'.continues middle t back hback ht hlevel
    · cases middle with
      | nil => exact h'.continues [] t back hmiddle.symm ht rfl
      | cons first middle =>
          obtain ⟨rfl, rfl⟩ := List.cons.inj hmiddle
          obtain ⟨next, rest, rfl, hnext⟩ := h.continues front t middle rfl ht hlevel
          exact ⟨next, rest ++ us, rfl, hnext⟩

theorem Unbroken.cons (h : Unbroken ts) {t : Token} (ht : t.kind ∉ TokenKind.layout) :
    Unbroken (t :: ts) :=
  Unbroken.append (.of_plain fun _ hmem => List.mem_singleton.mp hmem ▸ ht) h

/-- Where a line end may stand because of the token after it. -/
theorem Unbroken.lineBreak {line : List Token} (hline : Grammar.Break line) {next : Token}
    (h : Unbroken (next :: ts)) (hnext : next.kind.continuesStatement = true) :
    Unbroken (line ++ next :: ts) := by
  cases hline with
  | none => exact h
  | @one t ht =>
      have hzero : t.kind.brace = 0 := by rw [ht]; rfl
      refine ⟨⟨?_, fun front back hsplit => ?_⟩, fun front t' back hsplit ht' hlevel => ?_⟩
      · rw [level_append, level_cons, hzero, h.level_eq]
        rfl
      · cases front with
        | nil => exact Int.le_refl 0
        | cons first front =>
            obtain ⟨rfl, hrest⟩ := List.cons.inj hsplit
            rw [level_cons, hzero, Int.zero_add]
            exact h.level_nonneg front back hrest
      · cases front with
        | nil =>
            obtain ⟨-, rfl⟩ := List.cons.inj hsplit
            exact ⟨next, ts, rfl, hnext⟩
        | cons first front =>
            obtain ⟨rfl, hrest⟩ := List.cons.inj hsplit
            rw [level_cons, hzero, Int.zero_add] at hlevel
            exact h.continues front t' back hrest ht' hlevel

end Token

namespace Grammar

open Token

variable {value : Phrase Expr} {statements : Phrase (List Stmt)}

/-- All phrases of this sort are nested. -/
def AreNested {α : Type} (phrase : Phrase α) : Prop := ∀ ts a, phrase ts a → Nested ts

/-- All phrases of this sort are unbroken. -/
def AreUnbroken {α : Type} (phrase : Phrase α) : Prop := ∀ ts a, phrase ts a → Unbroken ts

theorem LacksLayout.areUnbroken {α : Type} {phrase : Phrase α} (h : LacksLayout phrase) :
    AreUnbroken phrase := fun ts a hphrase => .of_plain (h ts a hphrase)

section

variable (hvalue : LacksLayout value) (hstatements : AreNested statements)
include hstatements

/-- A block continues a statement, also on the next line. -/
theorem AreNested.afterBreak {line ts : List Token} {body : List Stmt} (hline : Break line)
    (h : Block statements ts body) : Unbroken (line ++ ts) := by
  cases h with
  | intro hl hbody hr =>
      exact ((hstatements _ _ hbody).braced hl hr).lineBreak hline (by rw [hl]; rfl)

include hvalue

theorem AreNested.clause : AreUnbroken (Clause value (Block statements)) := by
  intro ts clause h
  cases h with
  | intro htest hline hbody =>
      exact (hvalue.areUnbroken _ _ htest).append (hstatements.afterBreak hline hbody)

theorem AreNested.alternativeOf : AreUnbroken (AlternativeOf value (Block statements)) := by
  intro ts alternative h
  induction h with
  | nothing => exact .of_plain (List.forall_mem_nil _)
  | otherwise hbefore hword hafter hbody =>
      apply Unbroken.lineBreak hbefore
      · exact (hstatements.afterBreak hafter hbody).cons (by rw [hword]; decide)
      · rw [hword]
        rfl
  | elseIf hbefore hword hclause _ ih =>
      apply Unbroken.lineBreak hbefore
      · exact ((hstatements.clause hvalue _ _ hclause).append ih).cons (by rw [hword]; decide)
      · rw [hword]
        rfl

theorem AreNested.compound : AreUnbroken (Compound value (Block statements)) := by
  intro ts stmt h
  cases h with
  | ifThen ht hclause hnext =>
      apply Unbroken.cons
      · exact (hstatements.clause hvalue _ _ hclause).append
          (hstatements.alternativeOf hvalue _ _ hnext)
      · rw [ht]
        decide
  | whileDo ht hclause => exact (hstatements.clause hvalue _ _ hclause).cons (by rw [ht]; decide)
  | function ht hname hparams hline hbody =>
      refine Unbroken.cons (Unbroken.cons ?_ (by rw [hname]; decide)) (by rw [ht]; decide)
      exact (LacksLayout.parameter.parenthesised.areUnbroken _ _ hparams).append
        (hstatements.afterBreak hline hbody)

end

variable {simple compound : Phrase Stmt}

/-- Statements that are nested make up a list that is. -/
theorem AreNested.listOf (hsimple : AreUnbroken simple) (hcompound : AreUnbroken compound) :
    AreNested (ListOf simple compound) := by
  have hline : ∀ {t : Token}, t.kind = .newline → Nested [t] := fun ht =>
    .of_brace fun _ hmem => by rw [List.mem_singleton.mp hmem, ht]; rfl
  intro ts body h
  induction h with
  | done => exact (Unbroken.of_plain (List.forall_mem_nil _)).toNested
  | lineEnd ht _ ih => exact (hline ht).append ih
  | compound h _ ih => exact (hcompound _ _ h).toNested.append ih
  | simple h ht _ ih => exact (hsimple _ _ h).toNested.append ((hline ht).append ih)
  | last h => exact (hsimple _ _ h).toNested

theorem areUnbroken_simpleAt (depth : Nat) : AreUnbroken (SimpleAt depth) :=
  (LacksLayout.simpleAt depth).areUnbroken

theorem areUnbroken_compoundAt (depth : Nat) : AreUnbroken (CompoundAt depth) := by
  induction depth with
  | zero => exact fun _ _ hnone => hnone.elim
  | succ depth ih =>
      exact (AreNested.listOf (areUnbroken_simpleAt depth) ih).compound
        (LacksLayout.expressionAt depth)

theorem areNested_statementsAt (depth : Nat) : AreNested (StatementsAt depth) :=
  .listOf (areUnbroken_simpleAt depth) (areUnbroken_compoundAt depth)

/-! ## Cutting statements in two -/

/-- Tokens of which the first does not continue a statement. -/
def StartAnew (ts : List Token) : Prop := ∀ t ∈ ts.head?, t.kind.continuesStatement = false

variable {ts us vs : List Token} {body : List Stmt}

theorem StartAnew.nil : StartAnew [] := by simp [StartAnew]

theorem StartAnew.of_append (h : StartAnew (ts ++ us)) : StartAnew ts := by
  cases ts with
  | nil => exact .nil
  | cons t ts => exact h

theorem StartAnew.map_mapLine (h : StartAnew ts) (f : Int → Int) :
    StartAnew (ts.map (mapLine f)) := by
  cases ts with
  | nil => exact .nil
  | cons t ts =>
      rintro _ ⟨⟩
      exact h t rfl

/-- Nowhere inside of a statement can statements be cut in two. -/
theorem eq_nil_of_unbroken (h : Unbroken (us ++ vs)) (hclosed : Piece.IsClosed us)
    (hlevel : level us = 0) (hnext : StartAnew vs) : us = [] := by
  rcases List.eq_nil_or_concat us with hnil | ⟨front, t, hfront⟩
  · exact hnil
  rw [List.concat_eq_append] at hfront
  have ht : t.kind = .newline := hclosed t (by simp [hfront])
  have hzero : level front = 0 := by simpa [hfront, ht, TokenKind.brace] using hlevel
  obtain ⟨next, rest, rfl, hcontinues⟩ := h.continues front t vs (by simp [hfront]) ht hzero
  rw [hnext next rfl] at hcontinues
  cases hcontinues

/-- Two lists of statements that make up one, and their tokens. -/
inductive Halves (simple compound : Phrase Stmt) (us vs : List Token) : List Stmt → Prop
  | intro {first second : List Stmt} (hfirst : ListOf simple compound us first)
      (hsecond : ListOf simple compound vs second) : Halves simple compound us vs (first ++ second)

theorem Halves.of_nil (h : ListOf simple compound vs body) (hus : us = []) :
    Halves simple compound us vs body := by
  have hempty : ListOf simple compound [] [] := .done
  exact hus ▸ Halves.intro hempty h

section

variable (hsimple : AreUnbroken simple) (hcompound : AreUnbroken compound)
include hsimple hcompound

/-- Statements may be cut in two outside of all braces, behind a line end that no token follows that
continues the statement. -/
theorem ListOf.halves (h : ListOf simple compound ts body) (hts : ts = us ++ vs)
    (hclosed : Piece.IsClosed us) (hlevel : level us = 0) (hnext : StartAnew vs) :
    Halves simple compound us vs body := by
  induction h generalizing us with
  | done =>
      obtain ⟨rfl, rfl⟩ := List.nil_eq_append_iff.mp hts
      exact .of_nil .done rfl
  | @lineEnd t _ _ ht hrest ih =>
      cases us with
      | nil =>
          subst hts
          exact .of_nil (.lineEnd ht hrest) rfl
      | cons first us =>
          obtain ⟨rfl, hsplit⟩ := List.cons.inj hts
          have hzero : level us = 0 := by simpa [ht, TokenKind.brace] using hlevel
          obtain ⟨hfirst, hsecond⟩ := ih hsplit hclosed.of_cons hzero
          exact .intro (.lineEnd ht hfirst) hsecond
  | @compound used _ _ _ hstmt hrest ih =>
      obtain ⟨middle, rfl, hsplit⟩ | ⟨middle, rfl, rfl⟩ := List.append_eq_append_iff.mp hts
      · rw [level_append, (hcompound _ _ hstmt).level_eq, Int.zero_add] at hlevel
        obtain ⟨hfirst, hsecond⟩ := ih hsplit hclosed.of_append hlevel
        exact .intro (.compound hstmt hfirst) hsecond
      · have hus := eq_nil_of_unbroken (hcompound _ _ hstmt) hclosed hlevel hnext.of_append
        subst hus
        exact .of_nil (.compound hstmt hrest) rfl
  | @simple used _ t _ _ hstmt ht hrest ih =>
      have hused := hsimple _ _ hstmt
      obtain ⟨middle, rfl, hsplit⟩ | ⟨middle, rfl, rfl⟩ := List.append_eq_append_iff.mp hts
      · cases middle with
        | nil =>
            have hall : Unbroken (used ++ [] ++ []) := by simpa using hused
            have hus := eq_nil_of_unbroken hall hclosed hlevel .nil
            rw [List.append_nil] at hus
            subst hus hsplit
            exact .of_nil (.simple hstmt ht hrest) rfl
        | cons _ middle =>
            obtain ⟨rfl, hmore⟩ := List.cons.inj hsplit
            have hzero : level middle = 0 := by
              simpa [hused.level_eq, ht, TokenKind.brace] using hlevel
            obtain ⟨hfirst, hsecond⟩ := ih hmore hclosed.of_append.of_cons hzero
            exact .intro (.simple hstmt ht hfirst) hsecond
      · have hus := eq_nil_of_unbroken hused hclosed hlevel hnext.of_append
        subst hus
        exact .of_nil (.simple hstmt ht hrest) rfl
  | last hstmt =>
      subst hts
      have hus := eq_nil_of_unbroken (hsimple _ _ hstmt) hclosed hlevel hnext
      subst hus
      exact .of_nil (.last hstmt) rfl

/-- The line end behind the last statement may be missing. -/
theorem ListOf.of_concat_lineEnd (hstarts : Starts TokenKind.startsStatement simple)
    (hstarts' : Starts TokenKind.startsStatement compound) (h : ListOf simple compound ts body)
    {t : Token} (hts : ts = us ++ [t]) (ht : t.kind = .newline) :
    ListOf simple compound us body := by
  have hopen {front : List Token} (hfront : Unbroken (front ++ [t])) : False := by
    have hzero : level front = 0 := by simpa [ht, TokenKind.brace] using hfront.level_eq
    obtain ⟨next, rest, hnone, -⟩ := hfront.continues front t [] rfl ht hzero
    cases hnone
  induction h generalizing us with
  | done => simp at hts
  | lineEnd ht' hrest ih =>
      cases us with
      | nil =>
          obtain ⟨rfl, rfl⟩ := List.cons.inj hts
          exact hrest
      | cons first us =>
          obtain ⟨rfl, hsplit⟩ := List.cons.inj hts
          exact .lineEnd ht' (ih hsplit)
  | @compound used rest _ _ hstmt hrest ih =>
      rcases List.eq_nil_or_concat rest with rfl | ⟨front, last, rfl⟩
      · rw [List.append_nil] at hts
        exact (hopen (hts ▸ hcompound _ _ hstmt)).elim
      · rw [List.concat_eq_append, ← List.append_assoc] at hts
        obtain ⟨rfl, hlast⟩ := List.append_inj' hts rfl
        exact .compound hstmt (ih (List.concat_eq_append.trans (congrArg _ hlast)))
  | @simple used rest t' _ _ hstmt ht' hrest ih =>
      rcases List.eq_nil_or_concat rest with rfl | ⟨front, last, rfl⟩
      · obtain ⟨rfl, -⟩ := List.append_inj' hts rfl
        rw [hrest.eq_nil hstarts hstarts']
        exact .last hstmt
      · rw [List.concat_eq_append, ← List.cons_append, ← List.append_assoc] at hts
        obtain ⟨rfl, hlast⟩ := List.append_inj' hts rfl
        exact .simple hstmt ht' (ih (List.concat_eq_append.trans (congrArg _ hlast)))
  | last hstmt => exact (hopen (hts ▸ hsimple _ _ hstmt)).elim

end

/-- Statements that come apart where a line end joins two lists of tokens. -/
theorem statementsAt_of_joined {depth : Nat} (text : List Char)
    (h : StatementsAt depth (Piece.closed text us ++ vs) body) (hlevel : level us = 0)
    (hnext : StartAnew vs) :
    ∃ first second, body = first ++ second ∧ StatementsAt depth us first ∧
      StatementsAt depth vs second := by
  have hsimple : AreUnbroken (SimpleAt depth) := areUnbroken_simpleAt depth
  have hcompound : AreUnbroken (CompoundAt depth) := areUnbroken_compoundAt depth
  have hclosed : level (Piece.closed text us) = 0 := by
    obtain ⟨hsame, -⟩ | ⟨t, ht, hmore⟩ := Piece.closed_cases text us
    · rw [hsame, hlevel]
    · simp [hmore, hlevel, ht, TokenKind.brace]
  obtain ⟨hfirst, hsecond⟩ :=
    h.halves hsimple hcompound rfl (Piece.isClosed_closed text us) hclosed hnext
  refine ⟨_, _, rfl, ?_, hsecond⟩
  obtain ⟨hsame, -⟩ | ⟨t, ht, hmore⟩ := Piece.closed_cases text us
  · rwa [hsame] at hfirst
  · exact hfirst.of_concat_lineEnd hsimple hcompound (starts_simpleAt depth)
      (starts_compoundAt depth) hmore ht

end Grammar

end Bol
