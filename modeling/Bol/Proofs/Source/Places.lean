/-
# Where statements stand

Every statement of a program that is read from a text stands at a place of the text: the tokens
that spell it are some of the text's, one after the other, and the place is that of the first of
them. The line of the statement is the line of the place.
-/

import Bol.Proofs.Program.Nesting
import Bol.Proofs.Program.Sound
import Bol.Proofs.Run.Raising
import Bol.Proofs.Token.Places
import Bol.Source

namespace Bol

open Grammar

namespace Grammar

variable {value : Phrase Expr} {block : Phrase (List Stmt)}
  {plain nested : Phrase Stmt} {ts : List Token} {stmt : Stmt}

/-- Tokens that spell a statement, of whatever nesting. -/
def Spells (ts : List Token) (stmt : Stmt) : Prop :=
  ∃ depth, SimpleAt depth ts stmt ∨ CompoundAt depth ts stmt

/-- A statement has the line of its first token. -/
theorem Spells.exists_first (h : Spells ts stmt) :
    ∃ first rest, ts = first :: rest ∧ stmt.line = some first.line := by
  obtain ⟨_ | depth, h | h⟩ := h
  · exact h.elim
  · exact h.elim
  · cases h <;> exact ⟨_, _, rfl, rfl⟩
  · cases h <;> exact ⟨_, _, rfl, rfl⟩

/-- A statement of a list is spelled by some of its tokens. -/
theorem ListOf.exists_used {body : List Stmt} (h : ListOf plain nested ts body)
    (hstmt : stmt ∈ body) : ∃ used, used <:+: ts ∧ (plain used stmt ∨ nested used stmt) := by
  induction h with
  | done => cases hstmt
  | lineEnd _ _ ih =>
      obtain ⟨used, hused, hspells⟩ := ih hstmt
      exact ⟨used, hused.trans (List.suffix_cons _ _).isInfix, hspells⟩
  | @compound ts us _ _ h _ ih =>
      obtain rfl | hstmt := List.mem_cons.mp hstmt
      · exact ⟨ts, (List.prefix_append ts us).isInfix, .inr h⟩
      · obtain ⟨used, hused, hspells⟩ := ih hstmt
        exact ⟨used, hused.trans (List.suffix_append ts us).isInfix, hspells⟩
  | @simple ts us t _ _ h _ _ ih =>
      obtain rfl | hstmt := List.mem_cons.mp hstmt
      · exact ⟨ts, (List.prefix_append ts (t :: us)).isInfix, .inl h⟩
      · obtain ⟨used, hused, hspells⟩ := ih hstmt
        exact ⟨used, hused.trans ((List.suffix_cons t us).trans
          (List.suffix_append ts (t :: us))).isInfix, hspells⟩
  | @last ts _ h =>
      obtain rfl := List.mem_singleton.mp hstmt
      exact ⟨ts, List.infix_refl ts, .inl h⟩

theorem Clause.exists_block {clause : Expr × List Stmt} (h : Clause value block ts clause) :
    ∃ braces, braces <:+: ts ∧ block braces clause.2 := by
  cases h with
  | @intro test line ts _ _ _ _ hbody =>
      exact ⟨ts, ((List.suffix_append line ts).trans
        (List.suffix_append test (line ++ ts))).isInfix, hbody⟩

theorem AlternativeOf.exists_block {next : Alternative} {body : List Stmt}
    (h : AlternativeOf value block ts next) (hbody : body ∈ next.blocks) :
    ∃ braces, braces <:+: ts ∧ block braces body := by
  induction h with
  | nothing => cases hbody
  | @otherwise before after ts word _ _ _ _ hblock =>
      obtain rfl := List.mem_singleton.mp hbody
      exact ⟨ts, ⟨before ++ word :: after, [], by simp⟩, hblock⟩
  | @elseIf before ts us word _ _ _ _ hclause _ ih =>
      obtain rfl | hbody := List.mem_cons.mp hbody
      · obtain ⟨braces, hbraces, h⟩ := hclause.exists_block
        exact ⟨braces, hbraces.trans ⟨before ++ [word], us, by simp⟩, h⟩
      · obtain ⟨braces, hbraces, h⟩ := ih hbody
        exact ⟨braces, hbraces.trans ⟨before ++ word :: ts, [], by simp⟩, h⟩

/-- The blocks of a statement stand among its tokens. -/
theorem Compound.exists_block {body : List Stmt} (h : Compound value block ts stmt)
    (hbody : body ∈ stmt.blocks) : ∃ braces, braces <:+: ts ∧ block braces body := by
  cases h with
  | @ifThen t ts us _ _ _ hclause hnext =>
      obtain rfl | hbody := List.mem_cons.mp hbody
      · obtain ⟨braces, hbraces, h⟩ := hclause.exists_block
        exact ⟨braces, hbraces.trans ⟨[t], us, by simp⟩, h⟩
      · obtain ⟨braces, hbraces, h⟩ := hnext.exists_block hbody
        exact ⟨braces, hbraces.trans ⟨t :: ts, [], by simp⟩, h⟩
  | @whileDo t ts _ _ hclause =>
      obtain rfl := List.mem_singleton.mp hbody
      obtain ⟨braces, hbraces, h⟩ := hclause.exists_block
      exact ⟨braces, hbraces.trans (List.suffix_cons t ts).isInfix, h⟩
  | @function t name ts line us _ _ _ _ _ _ hblock =>
      obtain rfl := List.mem_singleton.mp hbody
      exact ⟨us, ⟨t :: name :: (ts ++ line), [], by simp⟩, hblock⟩

/-- A statement that occurs in a list, at whatever depth, is spelled by some of its tokens. -/
theorem StatementsAt.exists_used {depth : Nat} {body : List Stmt}
    (h : StatementsAt depth ts body) (hstmt : stmt.OccursIn body) :
    ∃ used, used <:+: ts ∧ Spells used stmt := by
  -- Each block is nested less deeply than the statement it belongs to.
  induction hstmt generalizing depth ts with
  | here hstmt =>
      obtain ⟨used, hused, hspells⟩ := ListOf.exists_used h hstmt
      exact ⟨used, hused, depth, hspells⟩
  | inside houter hblock _ ih =>
      obtain ⟨used, hused, hplain | hnested⟩ := ListOf.exists_used h houter
      · cases depth with
        | zero => exact hplain.elim
        | succ depth => cases hplain <;> cases hblock
      · cases depth with
        | zero => exact hnested.elim
        | succ depth =>
            obtain ⟨braces, hbraces, hbody⟩ := Compound.exists_block hnested hblock
            cases hbody with
            | @intro l r inner _ _ hbody _ =>
                obtain ⟨last, hlast, hspells⟩ := ih hbody
                have hinner : inner <:+: l :: (inner ++ [r]) := ⟨[l], [r], by simp⟩
                exact ⟨last, hlast.trans (hinner.trans (hbraces.trans hused)), hspells⟩

end Grammar

namespace Program

open Bol.Parser

/-- The statements of a program that is read are spelled by some of the tokens. -/
theorem exists_used_of_parse {tokens : List Token} {P : Program}
    (h : parse tokens = .ok P ∨ parseFragment tokens = .ok P) :
    ∃ used, used <:+: tokens ∧ StatementsAt depthLimit used P.statements := by
  obtain h | h := h
  · change (Parser.program _ _ depthLimit tokens).map Prod.fst = _ at h
    rcases hread : Parser.program Expr.negated tokens.length depthLimit tokens with
      stop | ⟨P', rest⟩ <;> rw [hread] at h <;> cases h
    cases Sound.program hread with
    | @intro start line stop ts after _ _ _ hbody _ =>
        exact ⟨ts, ⟨[start, line], stop :: after, by simp⟩, hbody⟩
    | empty => exact ⟨[], List.nil_infix, .done⟩
  · change (Parser.fragment _ _ depthLimit tokens).map Prod.fst = _ at h
    rcases hread : Parser.fragment Expr.negated tokens.length depthLimit tokens with
      stop | ⟨P', rest⟩ <;> rw [hread] at h <;> cases h
    obtain ⟨used, rfl, -, hbody⟩ := Sound.fragment hread
    exact ⟨used, (List.prefix_append used rest).isInfix, hbody⟩

end Program

/-- A statement stands at the place between `before` and `after` in a text: the tokens that spell
it start there. -/
def Stmt.StandsAt (source : String) (before after : List Char) (stmt : Stmt) : Prop :=
  ∃ tokens first rest, Token.scan source = .ok tokens ∧ first :: rest <:+: tokens ∧
    Spells (first :: rest) stmt ∧ first.StandsAt source.toList before after

namespace Stmt.StandsAt

variable {source : String} {before after : List Char} {stmt : Stmt}

theorem text_eq (h : stmt.StandsAt source before after) : before ++ after = source.toList := by
  obtain ⟨_, _, _, -, -, -, hplace⟩ := h
  exact hplace.text_eq

theorem line_eq (h : stmt.StandsAt source before after) :
    stmt.line = some (Piece.lineAfter before) := by
  obtain ⟨_, first, rest, -, -, hspells, hplace⟩ := h
  obtain ⟨_, _, hsame, hline⟩ := hspells.exists_first
  obtain ⟨rfl, -⟩ := List.cons.inj hsame
  rw [hline, hplace.line_eq]

end Stmt.StandsAt

namespace Source

variable {source : String} {P : Program}

/-- A text spells a program, with or without program markers. -/
def Reads (source : String) (P : Program) : Prop := program source = .ok P ∨ fragment source = .ok P

/-- Every statement of a program that a text spells has a place there. -/
theorem Reads.exists_standsAt (h : Reads source P) {stmt : Stmt}
    (hstmt : stmt.OccursIn P.statements) : ∃ before after, stmt.StandsAt source before after := by
  obtain ⟨tokens, hscan, hparse⟩ : ∃ tokens, Token.scan source = .ok tokens ∧
      (Program.parse tokens = .ok P ∨ Program.parseFragment tokens = .ok P) := by
    obtain h | h := h
    · obtain ⟨tokens, hscan, hparse⟩ := read_eq_ok_iff.mp h
      exact ⟨tokens, hscan, .inl hparse⟩
    · obtain ⟨tokens, hscan, hparse⟩ := read_eq_ok_iff.mp h
      exact ⟨tokens, hscan, .inr hparse⟩
  obtain ⟨used, hused, hbody⟩ := Program.exists_used_of_parse hparse
  obtain ⟨inner, hinner, hspells⟩ := StatementsAt.exists_used hbody hstmt
  obtain ⟨first, rest, rfl, -⟩ := hspells.exists_first
  have hwhole := hinner.trans hused
  obtain ⟨before, after, hplace⟩ :=
    Token.exists_standsAt hscan (hwhole.subset List.mem_cons_self)
  exact ⟨before, after, tokens, first, rest, hscan, hwhole, hspells, hplace⟩

end Source

end Bol
