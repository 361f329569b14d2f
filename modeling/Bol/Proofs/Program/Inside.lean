/-
# Reading stays inside its tokens

Wherever some token ends the input, the reader of programs does what the strict reader does on the
tokens up to the first one that nothing is read after. So it never looks for a token behind that
one, every round of its loops that is followed by another takes a token, and what stands after that
token does not matter.

The two readers are compared rule by rule. A relation between them has to tell in addition where a
token is taken for certain, since this is what keeps the loops of the strict reader going.
-/

import Bol.Proofs.Program.Blame
import Bol.Proofs.Program.Rounds
import Bol.Proofs.Program.Strict

namespace Bol

theorem TokenKind.eq_of_seals {marked : Bool} {kind : TokenKind} (h : kind.seals marked = true) :
    kind = .endOfInput ∨ kind = .programEnd := by
  cases kind
  case endOfInput => exact .inl rfl
  case programEnd => exact .inr rfl
  all_goals cases h

namespace Sealed

variable {marked : Bool} {us : List Token}

theorem length_pos (h : Sealed marked us) : 0 < us.length := by
  cases h with
  | last => exact Nat.one_pos
  | cons => exact Nat.succ_pos _

/-- The tokens up to a seal are sealed. -/
theorem upToSeal {tokens : List Token} (h : ∃ t ∈ tokens, t.kind.seals marked = true) :
    Sealed marked (upToSeal marked tokens) ∧ ∃ tail, tokens = upToSeal marked tokens ++ tail := by
  induction tokens with
  | nil => simp at h
  | cons t tokens ih =>
      rw [Bol.upToSeal]
      by_cases ht : t.kind.seals marked = true
      · rw [if_pos ht]
        exact ⟨.last ht, tokens, rfl⟩
      · rw [if_neg ht]
        have hrest : ∃ t ∈ tokens, t.kind.seals marked = true := by simpa [ht] using h
        obtain ⟨hsealed, tail, htail⟩ := ih hrest
        exact ⟨.cons (Bool.eq_false_iff.mpr ht) hsealed, tail, congrArg (t :: ·) htail⟩

end Sealed

/-- What stands after a seal does not belong to the tokens up to the first one. -/
theorem upToSeal_append {marked : Bool} {stop : Token} (hstop : stop.kind.seals marked = true)
    (front tail tail' : List Token) :
    upToSeal marked (front ++ stop :: tail) = upToSeal marked (front ++ stop :: tail') := by
  induction front with
  | nil => rw [List.nil_append, List.nil_append, upToSeal, upToSeal, if_pos hstop, if_pos hstop]
  | cons t front ih => rw [List.cons_append, List.cons_append, upToSeal, upToSeal, ih]

namespace StrictParser

/-! ## Comparing readers -/

section

variable {α : Type}

/-- The outcome of the reader with the tokens `us ++ tail`, and that of the strict reader with the
tokens `us` alone. -/
inductive Matches (marked : Bool) (us tail : List Token) :
    Except ParseStop (α × List Token) → Except StrictStop (α × List Token) → Prop
  | stopped (stop : ParseStop) : Matches marked us tail (.error stop) (.error (.stopped stop))
  | ok {a : α} {left : List Token} (hsealed : Sealed marked left)
      (hlength : left.length ≤ us.length) :
      Matches marked us tail (.ok (a, left ++ tail)) (.ok (a, left))

/-- The readers match on sealed tokens, at most `bound` of them, whatever stands after these. -/
def Matched (marked : Bool) (bound : Nat) (p : Parser α) (g : StrictParser α) : Prop :=
  ∀ us tail, Sealed marked us → us.length ≤ bound → Matches marked us tail (p (us ++ tail)) (g us)

/-- The readers match where `t` is the next token. -/
def MatchedAt (marked : Bool) (bound : Nat) (t : Token) (p : Parser α) (g : StrictParser α) :
    Prop :=
  ∀ us tail, Sealed marked (t :: us) → us.length < bound →
    Matches marked (t :: us) tail (p (t :: (us ++ tail))) (g (t :: us))

end

variable {α β σ : Type} {marked : Bool} {bound fewer : Nat} {p q : Parser α} {g h : StrictParser α}
  {next : α → Parser β} {next' : α → StrictParser β} {t : Token} {kind : TokenKind}

theorem bind_apply (g : StrictParser α) (next : α → StrictParser β) (us : List Token) :
    (g >>= next) us =
      match g us with
      | .ok (a, left) => next a left
      | .error stop => .error stop := by
  change Except.bind _ _ = _
  cases g us <;> rfl

theorem Matches.of_le {us us' tail : List Token} {outcome : Except ParseStop (α × List Token)}
    {outcome' : Except StrictStop (α × List Token)} (h : Matches marked us tail outcome outcome')
    (hle : us.length ≤ us'.length) : Matches marked us' tail outcome outcome' := by
  cases h with
  | stopped stop => exact .stopped stop
  | ok hsealed hlength => exact .ok hsealed (Nat.le_trans hlength hle)

namespace Matched

theorem mono (h : Matched marked bound p g) (hle : fewer ≤ bound) : Matched marked fewer p g :=
  fun us tail hsealed hlength => h us tail hsealed (Nat.le_trans hlength hle)

theorem matchedAt (h : Matched marked bound p g) (t : Token) : MatchedAt marked bound t p g :=
  fun us tail => h (t :: us) tail

theorem of_matchedAt (h : ∀ t, MatchedAt marked bound t p g) : Matched marked bound p g := by
  intro us tail hsealed hlength
  cases us with
  | nil => cases hsealed
  | cons t us => exact h t us tail hsealed hlength

theorem pure (a : α) : Matched marked bound (Pure.pure a) (Pure.pure a) :=
  fun _ _ hsealed _ => .ok hsealed (Nat.le_refl _)

theorem fail (error : ParseError) :
    Matched marked bound (Parser.fail error : Parser α) (StrictParser.fail error) :=
  fun _ _ _ _ => .stopped _

theorem tooDeep : Matched marked bound (Parser.tooDeep : Parser α) StrictParser.tooDeep :=
  fun _ _ _ _ => .stopped _

theorem ite {c : Prop} [Decidable c] (hp : Matched marked bound p g)
    (hq : Matched marked bound q h) :
    Matched marked bound (if c then p else q) (if c then g else h) := by
  split
  · exact hp
  · exact hq

theorem bind (h : Matched marked bound p g) (hnext : ∀ a, Matched marked bound (next a) (next' a)) :
    Matched marked bound (p >>= next) (g >>= next') := by
  intro us tail hsealed hlength
  have hus := h us tail hsealed hlength
  rw [Parser.bind_apply, bind_apply]
  generalize p (us ++ tail) = outcome at hus ⊢
  generalize g us = outcome' at hus ⊢
  cases hus with
  | stopped stop => exact .stopped stop
  | @ok a left hleft hle =>
      exact (hnext a left tail hleft (Nat.le_trans hle hlength)).of_le hle

/-- What follows a reader that takes a token has to do with fewer. -/
theorem bind_of_takes (h : Matched marked bound p g) (htakes : Parser.Takes p)
    (hle : bound ≤ fewer + 1) (hnext : ∀ a, Matched marked fewer (next a) (next' a)) :
    Matched marked bound (p >>= next) (g >>= next') := by
  intro us tail hsealed hlength
  have hus := h us tail hsealed hlength
  have htaken := htakes (us ++ tail)
  rw [Parser.bind_apply, bind_apply]
  generalize p (us ++ tail) = outcome at hus htaken ⊢
  generalize g us = outcome' at hus ⊢
  cases hus with
  | stopped stop => exact .stopped stop
  | @ok a left hleft hle =>
      have hfewer := htaken a _ rfl
      rw [List.length_append, List.length_append] at hfewer
      exact (hnext a left tail hleft (by omega)).of_le hle

theorem map (f : α → β) (h : Matched marked bound p g) :
    Matched marked bound (f <$> p) (f <$> g) := by
  rw [map_eq_pure_bind, map_eq_pure_bind]
  exact h.bind fun _ => pure _

end Matched

/-- What follows a round of a loop that has started with `count` tokens. -/
def afterRound (round : σ → StrictParser (Round σ α)) (count : Nat) : Round σ α → StrictParser α
  | .done value => pure value
  | .again state => fun rest =>
    if rest.length < count then loop round state rest else .error .idle

theorem loop_apply (round : σ → StrictParser (Round σ α)) (state : σ) (us : List Token) :
    loop round state us = (round state >>= afterRound round us.length) us := by
  rw [loop, bind_apply]
  rcases round state us with stop | ⟨_ | _, rest⟩ <;> rfl

/-! ## The next token -/

namespace MatchedAt

theorem ite {c : Prop} [Decidable c] (hp : c → MatchedAt marked bound t p g)
    (hq : ¬ c → MatchedAt marked bound t q h) :
    MatchedAt marked bound t (if c then p else q) (if c then g else h) := by
  split
  · exact hp ‹_›
  · exact hq ‹_›

theorem look_bind {next : Token → Parser β} {next' : Token → StrictParser β}
    (hnext : MatchedAt marked bound t (next t) (next' t)) :
    MatchedAt marked bound t (Parser.peek >>= next) (look >>= next') := hnext

theorem advance_bind {next : Token → Parser β} {next' : Token → StrictParser β}
    (ht : t.kind.seals marked = false) (hle : bound ≤ fewer + 1)
    (hnext : Matched marked fewer (next t) (next' t)) :
    MatchedAt marked bound t (Parser.advance >>= next) (advance >>= next') := by
  intro us tail hsealed hlength
  have hend : t.kind ≠ .endOfInput := by
    rintro heq
    rw [heq] at ht
    cases ht
  have hp : (Parser.advance >>= next) (t :: (us ++ tail)) = next t (us ++ tail) := by
    rw [Parser.bind_of_ok (rfl : Parser.advance _ = _), Parser.afterCurrent_cons rfl hend]
    rfl
  have hg : (advance >>= next') (t :: us) = next' t us := by
    rw [bind_apply, advance, if_neg hend]
  rw [hp, hg]
  cases hsealed with
  | last hseals => cases ht.symm.trans hseals
  | cons _ hus => exact (hnext us tail hus (by omega)).of_le (Nat.le_succ _)

theorem accept_bind {next : Bool → Parser β} {next' : Bool → StrictParser β}
    (hkind : kind.seals marked = false) (hle : bound ≤ fewer + 1)
    (hyes : t.kind = kind → Matched marked fewer (next true) (next' true))
    (hno : t.kind ≠ kind → MatchedAt marked bound t (next false) (next' false)) :
    MatchedAt marked bound t (Parser.accept kind >>= next) (accept kind >>= next') := by
  rw [Parser.accept, accept, bind_assoc, bind_assoc]
  refine look_bind ?_
  by_cases ht : t.kind = kind
  · rw [if_pos ht, if_pos ht, bind_assoc, bind_assoc]
    refine advance_bind (by rwa [ht]) hle ?_
    rw [pure_bind, pure_bind]
    exact hyes ht
  · rw [if_neg ht, if_neg ht, pure_bind, pure_bind]
    exact hno ht

end MatchedAt

namespace Matched

theorem look_bind {next : Token → Parser β} {next' : Token → StrictParser β}
    (hnext : ∀ t, MatchedAt marked bound t (next t) (next' t)) :
    Matched marked bound (Parser.peek >>= next) (look >>= next') :=
  of_matchedAt fun t => (hnext t).look_bind

/-- A token that nothing is read after may be taken where this is an error. -/
theorem advance_bind {next : Token → Parser β} {next' : Token → StrictParser β}
    (hnext : ∀ t : Token, t.kind.seals marked = false → Matched marked bound (next t) (next' t))
    (hfails : ∀ t : Token, t.kind.seals marked = true →
      ∃ error, next t = Parser.fail error ∧ next' t = StrictParser.fail error) :
    Matched marked bound (Parser.advance >>= next) (advance >>= next') := by
  refine of_matchedAt fun t => ?_
  by_cases ht : t.kind.seals marked = true
  · obtain ⟨error, hp, hg⟩ := hfails t ht
    intro us tail _ _
    have hstopped : (Parser.advance >>= next) (t :: (us ++ tail)) = .error (.error error) := by
      rw [Parser.bind_of_ok (rfl : Parser.advance _ = _), Parser.current_cons, hp]
      rfl
    have hstopped' : (advance >>= next') (t :: us) = .error (.stopped (.error error)) := by
      rw [bind_apply, advance]
      dsimp only
      rw [hg]
      rfl
    rw [hstopped, hstopped']
    exact .stopped _
  · have ht := Bool.eq_false_iff.mpr ht
    exact .advance_bind ht (Nat.le_succ bound) (hnext t ht)

theorem expect (hkind : kind.seals marked = false) :
    Matched marked bound (Parser.expect kind) (StrictParser.expect kind) := by
  refine look_bind fun t => .ite (fun ht => ?_) fun _ => (fail _).matchedAt t
  have hadvance := MatchedAt.advance_bind (ht ▸ hkind) (Nat.le_succ bound) (pure t)
  rwa [bind_pure, bind_pure] at hadvance

theorem accept (hkind : kind.seals marked = false) :
    Matched marked bound (Parser.accept kind) (StrictParser.accept kind) :=
  look_bind fun t => .ite
    (fun ht => .advance_bind (ht ▸ hkind) (Nat.le_succ bound) (pure true))
    fun _ => (pure false).matchedAt t

theorem skipLineEnd : Matched marked bound Parser.skipLineEnd StrictParser.skipLineEnd :=
  (accept rfl).bind fun _ => pure _

theorem endStatement : Matched marked bound Parser.endStatement StrictParser.endStatement := by
  refine look_bind fun t => .ite (fun ht => ?_) fun _ => (ite (pure _) (fail _)).matchedAt t
  exact .advance_bind (by rw [ht]; rfl) (Nat.le_succ bound) (pure _)

/-! ## Loops -/

/-- Loops match if their rounds do, whatever it is that matches the rounds after them. -/
theorem loop {again : Nat → σ → Parser α} {round : σ → StrictParser (Round σ α)}
    (hround : ∀ fewer n s (next : Round σ α → StrictParser α), fewer < bound →
      (∀ s, Matched marked fewer (again n s) (next (.again s))) →
      (∀ a, next (.done a) = Pure.pure a) →
        Matched marked (fewer + 1) (again (n + 1) s) (round s >>= next))
    {n : Nat} (hn : bound ≤ n) (s : σ) :
    Matched marked bound (again n s) (StrictParser.loop round s) := by
  induction bound generalizing n s with
  | zero =>
      intro us tail hsealed hlength
      exact absurd hsealed.length_pos (Nat.not_lt.mpr hlength)
  | succ bound ih =>
      obtain ⟨n, rfl⟩ : ∃ fewer, n = fewer + 1 := ⟨n - 1, by omega⟩
      intro us tail hsealed hlength
      obtain ⟨fewer, hfewer⟩ : ∃ fewer, us.length = fewer + 1 :=
        Nat.exists_eq_add_one_of_ne_zero (Nat.ne_of_gt hsealed.length_pos)
      have hbound : fewer < bound + 1 := by omega
      have hrounds := fun s => ih (fun fewer n s next hlt => hround fewer n s next (by omega))
        (Nat.le_of_succ_le_succ hn) s
      have hnext (s : σ) :
          Matched marked fewer (again n s) (afterRound round us.length (.again s)) := by
        intro rest tail hrest hle
        have hsame : afterRound round us.length (.again s) rest = StrictParser.loop round s rest :=
          if_pos (by omega)
        rw [hsame]
        exact hrounds s rest tail hrest (by omega)
      rw [loop_apply]
      exact hround fewer n s _ hbound hnext (fun _ => rfl) us tail hsealed (by omega)

/-! ## Expressions -/

section

variable {minus : Expr → Expr} {isOp : TokenKind → Bool} {part value : Parser Expr}
  {part' value' : StrictParser Expr} {n : Nat}

theorem chain (h : Matched marked bound part part') (hend : isOp .endOfInput = false)
    (hmarker : isOp .programEnd = false) (hn : bound ≤ n) (left : Expr) :
    Matched marked bound (Parser.chain isOp part n left)
      (StrictParser.loop (operatorRound isOp part') left) := by
  refine loop (fun fewer n left next hlt hagain hdone => ?_) hn left
  rw [Parser.chain, operatorRound, bind_assoc]
  refine look_bind fun t => ?_
  by_cases hop : isOp t.kind = true
  · have ht : t.kind.seals marked = false := by
      refine Bool.eq_false_iff.mpr fun hseals => ?_
      obtain heq | heq := TokenKind.eq_of_seals hseals <;> rw [heq] at hop
      · cases hend.symm.trans hop
      · cases hmarker.symm.trans hop
    rw [if_pos hop, if_pos hop, bind_assoc]
    refine .advance_bind ht (Nat.le_refl _) ?_
    rw [bind_assoc]
    exact (h.mono (Nat.le_of_lt hlt)).bind fun right => pure_bind (Round.again _) next ▸ hagain _
  · rw [if_neg hop, if_neg hop, pure_bind, hdone]
    exact (pure left).matchedAt t

theorem leftAssociative (h : Matched marked bound part part') (hend : isOp .endOfInput = false)
    (hmarker : isOp .programEnd = false) (hn : bound ≤ n) :
    Matched marked bound (Parser.leftAssociative n isOp part)
      (StrictParser.leftAssociative isOp part') :=
  h.bind fun left => h.chain hend hmarker hn left

theorem comparison (h : Matched marked bound part part') :
    Matched marked bound (Parser.comparison part) (StrictParser.comparison part') := by
  refine h.bind fun left => look_bind fun t => .ite (fun hop => ?_) fun _ => (pure left).matchedAt t
  have ht : t.kind.seals marked = false := by
    refine Bool.eq_false_iff.mpr fun hseals => ?_
    obtain heq | heq := TokenKind.eq_of_seals hseals <;> rw [heq] at hop <;> cases hop
  exact .advance_bind ht (Nat.le_succ bound) (h.bind fun _ => pure _)

theorem expressionOf (h : Matched marked bound part part') (hn : bound ≤ n) :
    Matched marked bound (Parser.expressionOf n part) (StrictParser.expressionOf part') :=
  ((((h.leftAssociative rfl rfl hn).leftAssociative rfl rfl hn).comparison).leftAssociative rfl rfl
    hn).leftAssociative rfl rfl hn

theorem moreItems (h : Matched marked bound p g) (hn : bound ≤ n) (items : List α) :
    Matched marked bound (Parser.moreItems p n items) (StrictParser.loop (itemRound g) items) := by
  refine loop (fun fewer n items next hlt hagain hdone => ?_) hn items
  rw [Parser.moreItems, itemRound, bind_assoc]
  refine of_matchedAt fun t => .accept_bind rfl (Nat.le_refl _) (fun _ => ?_) fun _ => ?_
  · rw [if_pos rfl, if_pos rfl, bind_assoc]
    exact (h.mono (Nat.le_of_lt hlt)).bind fun item => pure_bind (Round.again _) next ▸ hagain _
  · rw [if_neg Bool.false_ne_true, if_neg Bool.false_ne_true, pure_bind, hdone]
    exact (pure items.reverse).matchedAt t

theorem listOf (h : Matched marked bound p g) (hn : bound ≤ n) :
    Matched marked bound (Parser.listOf n p) (StrictParser.listOf g) := by
  refine (expect rfl).bind fun _ => look_bind fun t => matchedAt (ite ((pure _).bind fun _ => ?_)
    (h.bind fun _ => (h.moreItems hn _).bind fun _ => ?_)) t
  all_goals exact (expect rfl).bind fun _ => pure _

theorem numberLiteral (text : String) :
    Matched marked bound (Parser.numberLiteral text) (StrictParser.numberLiteral text) := by
  unfold Parser.numberLiteral StrictParser.numberLiteral
  cases Number.ofText? text with
  | none => exact fun _ _ _ _ => .stopped _
  | some value => exact pure _

theorem primary (h : Matched marked bound value value') (hn : bound ≤ n) :
    Matched marked bound (Parser.primary n value) (StrictParser.primary value') := by
  refine advance_bind (fun t _ => ?_) fun t ht => ?_
  · cases t.kind
    case number => exact numberLiteral _
    case string | trueWord | falseWord | nullWord => exact pure _
    case identifier =>
      exact look_bind fun next =>
        (ite ((h.listOf hn).bind fun _ => pure _) (pure _)).matchedAt next
    case leftParen => exact h.bind fun _ => (expect rfl).bind fun _ => pure _
    all_goals exact fail _
  · obtain heq | heq := TokenKind.eq_of_seals ht
    all_goals exact ⟨.noExpression t, by rw [heq], by rw [heq]⟩

theorem operand (hn : bound ≤ n) (depth : Nat) :
    Matched marked bound (Parser.operand minus n depth) (StrictParser.operand minus depth) := by
  induction depth with
  | zero => exact tooDeep
  | succ depth ih =>
      have hprimary := (ih.expressionOf hn).primary hn
      refine look_bind fun t => ?_
      cases hkind : t.kind
      case notWord | minus =>
        exact .advance_bind (by rw [hkind]; rfl) (Nat.le_succ bound) (ih.bind fun _ => pure _)
      all_goals exact hprimary.matchedAt t

theorem expression (hn : bound ≤ n) (depth : Nat) :
    Matched marked bound (Parser.expression minus n depth) (StrictParser.expression minus depth) :=
  (operand hn depth).expressionOf hn

end

/-! ## Statements -/

section

variable {minus : Expr → Expr} {ends : TokenKind → Bool} {value : Parser Expr}
  {value' : StrictParser Expr} {body : Parser (List Stmt)} {body' : StrictParser (List Stmt)}
  {one : Parser Stmt} {one' : StrictParser Stmt} {n : Nat}

theorem statementsFrom (h : Matched marked bound one one') (htakes : Parser.Takes one)
    (hn : bound ≤ n) (read : List Stmt) :
    Matched marked bound (Parser.statementsFrom one ends n read)
      (StrictParser.loop (statementRound one' ends) read) := by
  refine loop (fun fewer n read next hlt hagain hdone => ?_) hn read
  rw [Parser.statementsFrom, statementRound, bind_assoc]
  refine look_bind fun t => ?_
  by_cases hends : ends t.kind = true
  · rw [if_pos hends, if_pos hends, pure_bind, hdone]
    exact (pure read.reverse).matchedAt t
  rw [if_neg hends, if_neg hends, bind_assoc]
  refine .accept_bind rfl (Nat.le_refl _) (fun _ => ?_) fun _ => ?_
  · rw [if_pos rfl, if_pos rfl, pure_bind]
    exact hagain read
  · rw [if_neg Bool.false_ne_true, if_neg Bool.false_ne_true, bind_assoc]
    refine ((h.mono hlt).bind_of_takes htakes (Nat.le_refl _) fun stmt => ?_).matchedAt t
    rw [pure_bind]
    exact hagain _

theorem block (h : Matched marked bound one one') (htakes : Parser.Takes one) (hn : bound ≤ n) :
    Matched marked bound (Parser.block n one) (StrictParser.block one') :=
  (expect rfl).bind fun _ => skipLineEnd.bind fun _ =>
    (h.statementsFrom htakes hn _).bind fun _ => (expect rfl).bind fun _ => pure _

theorem clause (hvalue : Matched marked bound value value')
    (hbody : Matched marked bound body body') :
    Matched marked bound (Parser.clause value body) (StrictParser.clause value' body') :=
  hvalue.bind fun _ => skipLineEnd.bind fun _ => hbody.bind fun _ => pure _

theorem alternative (hvalue : Matched marked bound value value')
    (hbody : Matched marked bound body body') (hn : bound ≤ n)
    (clauses : List (Expr × List Stmt)) :
    Matched marked bound (Parser.alternative value body n clauses)
      (StrictParser.loop (elseIfRound value' body') clauses) := by
  refine loop (fun fewer n clauses next hlt hagain hdone => ?_) hn clauses
  rw [Parser.alternative, elseIfRound, bind_assoc]
  refine skipLineEnd.bind fun _ => of_matchedAt fun t => ?_
  rw [bind_assoc]
  refine .accept_bind rfl (Nat.le_refl _) (fun _ => ?_) fun _ => ?_
  · rw [if_pos rfl, if_pos rfl, bind_assoc]
    refine ((hvalue.mono (Nat.le_of_lt hlt)).clause (hbody.mono (Nat.le_of_lt hlt))).bind
      fun clause => ?_
    rw [pure_bind]
    exact hagain _
  · rw [if_neg Bool.false_ne_true, if_neg Bool.false_ne_true, bind_assoc]
    refine .accept_bind rfl (Nat.le_succ _) (fun _ => ?_) fun _ => ?_
    · rw [if_pos rfl, if_pos rfl, bind_assoc]
      refine skipLineEnd.bind fun _ => ?_
      rw [bind_assoc]
      refine (hbody.mono hlt).bind fun block => ?_
      rw [pure_bind, hdone]
      exact pure _
    · rw [if_neg Bool.false_ne_true, if_neg Bool.false_ne_true, pure_bind, hdone]
      exact (pure _).matchedAt t

theorem binding (hvalue : Matched marked bound value value') :
    Matched marked bound (Parser.binding value) (StrictParser.binding value') :=
  (expect rfl).bind fun _ => hvalue.bind fun _ => endStatement.bind fun _ => pure _

theorem statementAfter (hvalue : Matched marked bound value value')
    (hbody : Matched marked bound body body') (hn : bound ≤ n) (t : Token) :
    Matched marked bound (Parser.statementAfter n value body t)
      (StrictParser.statementAfter value' body' t) := by
  unfold Parser.statementAfter StrictParser.statementAfter
  cases t.kind
  case declare => exact (expect rfl).bind fun _ => hvalue.binding.bind fun _ => pure _
  case identifier =>
    exact look_bind fun t =>
      (ite (fail _) (hvalue.binding.bind fun _ => pure _)).matchedAt t
  case print => exact hvalue.bind fun _ => endStatement.bind fun _ => pure _
  case ifWord =>
    exact (hvalue.clause hbody).bind fun _ => (hvalue.alternative hbody hn _).bind fun _ =>
      skipLineEnd.bind fun _ => pure _
  case whileWord => exact (hvalue.clause hbody).bind fun _ => skipLineEnd.bind fun _ => pure _
  case breakWord => exact endStatement.bind fun _ => pure _
  case continueWords => exact endStatement.bind fun _ => pure _
  case functionWord =>
    exact (expect rfl).bind fun _ => (((expect rfl).map _).listOf hn).bind fun _ =>
      skipLineEnd.bind fun _ => hbody.bind fun _ => skipLineEnd.bind fun _ => pure _
  case returnWord =>
    exact look_bind fun t => (ite (skipLineEnd.bind fun _ => pure _)
      (hvalue.bind fun _ => endStatement.bind fun _ => pure _)).matchedAt t
  all_goals exact fail _

theorem statement (hn : bound ≤ n) (depth : Nat) :
    Matched marked bound (Parser.statement minus n depth) (StrictParser.statement minus depth) := by
  induction depth with
  | zero => exact tooDeep
  | succ depth ih =>
      refine advance_bind (fun t _ => ?_) fun t ht => ?_
      · exact (expression hn depth).statementAfter
          (ih.block (Parser.Agree.takes_statement depth) hn) hn t
      · obtain heq | heq := TokenKind.eq_of_seals ht
        all_goals
          refine ⟨.noStatement t, ?_, ?_⟩
          · rw [Parser.statementAfter, heq]
          · rw [StrictParser.statementAfter, heq]

end

end Matched

/-! ## Programs -/

/-- The readers of whole inputs come to the same, whatever stands after the sealed tokens. What they
leave does not matter. -/
def Finishes (marked : Bool) (bound : Nat) (p : Parser α) (g : StrictParser α) : Prop :=
  ∀ us tail, Sealed marked us → us.length ≤ bound →
    g.run' us = (p.run' (us ++ tail)).mapError StrictStop.stopped

theorem run'_apply (g : StrictParser α) (us : List Token) : g.run' us = (g us).map Prod.fst := rfl

theorem Finishes.expect_pure (kind : TokenKind) (a : α) :
    Finishes marked bound (Parser.expect kind >>= fun _ => pure a)
      (expect kind >>= fun _ => pure a) := by
  intro us tail hsealed _
  rw [run'_apply, Parser.run'_apply]
  cases us with
  | nil => cases hsealed
  | cons t us =>
      rw [List.cons_append, Parser.bind_apply, bind_apply, Parser.expect_apply, Parser.current_cons,
        expect, bind_apply, look]
      dsimp only
      by_cases ht : t.kind = kind
      · rw [if_pos ht, if_pos ht]
        rfl
      · rw [if_neg ht, if_neg ht]
        rfl

theorem Matched.finishes (h : Matched marked bound p g)
    (hnext : ∀ a, Finishes marked bound (next a) (next' a)) :
    Finishes marked bound (p >>= next) (g >>= next') := by
  intro us tail hsealed hlength
  have hus := h us tail hsealed hlength
  rw [run'_apply, Parser.run'_apply, Parser.bind_apply, bind_apply]
  generalize p (us ++ tail) = outcome at hus ⊢
  generalize g us = outcome' at hus ⊢
  cases hus with
  | stopped stop => rfl
  | @ok a left hleft hle => exact hnext a left tail hleft (Nat.le_trans hle hlength)

theorem finishes_program {minus : Expr → Expr} {n : Nat} (hn : bound ≤ n) (depth : Nat) :
    Finishes marked bound (Parser.program minus n depth) (program minus depth) :=
  (Matched.expect rfl).finishes fun _ => Matched.endStatement.finishes fun _ =>
    ((Matched.statement hn depth).statementsFrom (Parser.Agree.takes_statement depth) hn _).finishes
      fun _ => .expect_pure _ _

theorem finishes_fragment {minus : Expr → Expr} {n : Nat} (hn : bound ≤ n) (depth : Nat) :
    Finishes marked bound (Parser.fragment minus n depth) (fragment minus depth) :=
  ((Matched.statement hn depth).statementsFrom (Parser.Agree.takes_statement depth) hn _).finishes
    fun _ => .expect_pure _ _

end StrictParser

/-! ## The reader of programs -/

namespace Program

/-- Reading stays inside the tokens up to the first that nothing is read after. -/
structure StaysInside (read : (depth : Nat) → List Token → Except ParseStop Program)
    (strict : (depth : Nat) → List Token → Except StrictStop Program) (marked : Bool)
    (tokens : List Token) : Prop where
  /-- The strict reader comes to the same with these tokens alone. -/
  strict_eq : ∀ depth,
    strict depth (upToSeal marked tokens) = (read depth tokens).mapError .stopped
  /-- Reading ends with a program, with an error or with the text of one of the number tokens that
  stands for no number, unless the depth does not suffice. -/
  ends : ∀ depth, tokens.length < depth →
    (∃ P, read depth tokens = .ok P) ∨ (∃ error, read depth tokens = .error (.error error)) ∨
      ∃ text, read depth tokens = .error (.notNumber text) ∧ HoldsNoNumber tokens text
  /-- Other tokens after such a token do not change the outcome. -/
  same_after : ∀ depth front stop tail tail', tokens = front ++ stop :: tail →
    stop.kind.seals marked = true → read depth (front ++ stop :: tail') = read depth tokens

section

variable {p : (rounds depth : Nat) → Parser Program} {strict : (depth : Nat) → StrictParser Program}
  {marked : Bool} {tokens : List Token}

theorem run'_upToSeal (hp : ∀ {bound n} depth, bound ≤ n →
      StrictParser.Finishes marked bound (p n depth) (strict depth))
    (hseal : ∃ t ∈ tokens, t.kind.seals marked = true) (depth : Nat) :
    (strict depth).run' (upToSeal marked tokens) =
      ((p tokens.length depth).run' tokens).mapError .stopped := by
  obtain ⟨hsealed, tail, htail⟩ := Sealed.upToSeal hseal
  have hlength : (upToSeal marked tokens).length ≤ tokens.length := by
    conv => rhs; rw [htail, List.length_append]
    exact Nat.le_add_right _ _
  rw [hp depth hlength _ tail hsealed (Nat.le_refl _), ← htail]

theorem exists_seals (hend : ∃ t ∈ tokens, t.kind = .endOfInput) :
    ∃ t ∈ tokens, t.kind.seals marked = true := by
  obtain ⟨t, ht, hkind⟩ := hend
  exact ⟨t, ht, by rw [hkind]; rfl⟩

theorem mapError_stopped_injective {outcome outcome' : Except ParseStop Program}
    (h : outcome.mapError StrictStop.stopped = outcome'.mapError StrictStop.stopped) :
    outcome = outcome' := by
  cases outcome <;> cases outcome' <;> cases h <;> rfl

theorem same_after_of_finishes (hp : ∀ {bound n} depth, bound ≤ n →
      StrictParser.Finishes marked bound (p n depth) (strict depth))
    (hseal : ∃ t ∈ tokens, t.kind.seals marked = true) (depth : Nat) {front tail : List Token}
    {stop : Token} (tail' : List Token) (hsplit : tokens = front ++ stop :: tail)
    (hstop : stop.kind.seals marked = true) :
    (p (front ++ stop :: tail').length depth).run' (front ++ stop :: tail') =
      (p tokens.length depth).run' tokens := by
  have hseal' : ∃ t ∈ front ++ stop :: tail', t.kind.seals marked = true :=
    ⟨stop, by simp, hstop⟩
  have hsame := run'_upToSeal hp hseal' depth
  rw [upToSeal_append hstop front tail' tail, ← hsplit, run'_upToSeal hp hseal depth] at hsame
  exact (mapError_stopped_injective hsame).symm

theorem staysInside_of_finishes (hp : ∀ {bound n} depth, bound ≤ n →
      StrictParser.Finishes marked bound (p n depth) (strict depth))
    (hdeepens : ∀ n depth, Parser.Deepens depth (p n depth) (p n depth))
    (hblames : ∀ all n depth, Parser.Blames all (fun _ => True) (p n depth))
    (hend : ∃ t ∈ tokens, t.kind = .endOfInput) :
    StaysInside (fun depth ts => (p ts.length depth).run' ts)
      (fun depth ts => (strict depth).run' ts) marked tokens where
  strict_eq := run'_upToSeal hp (exists_seals hend)
  ends depth hdepth := by
    have hstop := (hdeepens tokens.length depth tokens).run'_ne_tooDeep hdepth
    rcases hread : (p tokens.length depth).run' tokens with (error | _ | text) | P
    · exact .inr (.inl ⟨error, rfl⟩)
    · exact absurd hread hstop
    · -- The tokens up to an end of the input are read alike, and one of them is to blame.
      obtain ⟨stop, hmem, hkind⟩ := hend
      obtain ⟨front, tail, hsplit⟩ := List.append_of_mem hmem
      have hsame := same_after_of_finishes hp (exists_seals ⟨stop, hmem, hkind⟩) depth [] hsplit
        (by rw [hkind]; rfl)
      obtain ⟨t, ht, hnumber⟩ := blamed_of_blames hkind (hblames _ _ depth) (hsame.trans hread)
      have hsub : t ∈ tokens := by
        rw [hsplit]
        exact (List.prefix_append_right_inj front).mpr ⟨tail, rfl⟩ |>.subset ht
      exact .inr (.inr ⟨text, rfl, t, hsub, hnumber⟩)
    · exact .inl ⟨P, rfl⟩
  same_after depth _ _ _ tail' hsplit hstop :=
    same_after_of_finishes hp (exists_seals hend) depth tail' hsplit hstop

end

/-- The reader of programs never runs off its tokens and always ends, wherever some token ends the
input. With the tokens up to the first end of the input or closing marker alone, the strict reader
comes to the same: so no token is looked for behind that one, and every round of a loop that is
followed by another takes a token. Unless the depth does not suffice, reading ends with a program,
with an error, or with the text of a number token that stands for no number; and other tokens after
that one do not change the outcome. The same holds of the reader of statements without markers, for
which closing markers are tokens like any others. -/
theorem reading_stays_inside {tokens : List Token} (hend : ∃ t ∈ tokens, t.kind = .endOfInput) :
    StaysInside parseWithin StrictParser.parseWithin true tokens ∧
      StaysInside parseFragmentWithin StrictParser.parseFragmentWithin false tokens := by
  exact ⟨staysInside_of_finishes (fun depth hn => StrictParser.finishes_program hn depth)
      (fun _ depth => .program (Nat.le_refl depth)) (fun _ _ depth => .program depth) hend,
    staysInside_of_finishes (fun depth hn => StrictParser.finishes_fragment hn depth)
      (fun _ depth => .fragment (Nat.le_refl depth)) (fun _ _ depth => .fragment depth) hend⟩

/-- The tokens of a call that is cut off by the end of the input, with more tokens after that. -/
def cutOffCall : List Token :=
  [⟨.print, "he bol", 1⟩, ⟨.identifier, "f", 1⟩, ⟨.leftParen, "(", 1⟩, ⟨.identifier, "x", 1⟩,
    ⟨.comma, ",", 1⟩, ⟨.endOfInput, "", 1⟩, ⟨.identifier, "y", 1⟩, ⟨.rightParen, ")", 1⟩]

/-- The argument after the comma is missing at the end of the input. -/
theorem reading_stays_inside_cutOffCall :
    (∃ t ∈ cutOffCall, t.kind = .endOfInput) ∧
      (StaysInside parseWithin StrictParser.parseWithin true cutOffCall ∧
        StaysInside parseFragmentWithin StrictParser.parseFragmentWithin false cutOffCall) ∧
      parseFragmentWithin 9 cutOffCall =
        .error (.error (.noExpression ⟨.endOfInput, "", 1⟩)) := by
  have hend : ∃ t ∈ cutOffCall, t.kind = .endOfInput := by decide
  exact ⟨hend, reading_stays_inside hend, rfl⟩

/-- The tokens of a program whose only number was made by hand, with two points in its text, and
more tokens after the end of the input. -/
def twoPoints : List Token :=
  [⟨.programStart, "bola saheb", 1⟩, ⟨.newline, "\\n", 1⟩, ⟨.print, "he bol", 2⟩,
    ⟨.number, "1.5.2", 2⟩, ⟨.programEnd, "yeto saheb", 2⟩, ⟨.endOfInput, "", 2⟩,
    ⟨.newline, "\\n", 2⟩]

/-- Reading it ends with the text of the number, neither with a program nor with an error. -/
theorem parse_twoPoints :
    (∃ t ∈ twoPoints, t.kind = .endOfInput) ∧ parse twoPoints = .error (.notNumber "1.5.2") ∧
      (¬ ∃ P, parse twoPoints = .ok P) ∧ ¬ ∃ error, parse twoPoints = .error (.error error) := by
  have hread : parse twoPoints = .error (.notNumber "1.5.2") := rfl
  refine ⟨by decide, hread, ?_, ?_⟩
  · rintro ⟨P, h⟩
    cases hread.symm.trans h
  · rintro ⟨error, h⟩
    cases hread.symm.trans h

end Program

end Bol
