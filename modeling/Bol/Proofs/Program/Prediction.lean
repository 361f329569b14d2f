/-
# Readers predict their phrases

Every reader predicts the phrase that it reads, by following its definition from the first token on:
wherever it may fail, the tokens that it has taken are completed to a phrase by tokens that would
have suited it. Only the end of a simple statement lets a token through that it does not take, one
that closes the list of statements. No statement starts with such a token, so the next one fails at
once, and what has been taken is a list of statements as it is.
-/

import Bol.Proofs.Program.Complete
import Bol.Proofs.Program.Depth
import Bol.Proofs.Program.Lookahead

namespace Bol

open Grammar

/-- A token of the kind. -/
def TokenKind.token (kind : TokenKind) : Token := ⟨kind, "", 0⟩

namespace Grammar

section

variable {α : Type} {item : Phrase α}

/-- Lists of items may be joined by a comma. -/
theorem Listed.append {ts us : List Token} {comma : Token} {as bs : List α}
    (h : Listed item ts as) (hcomma : comma.kind = .comma) (h' : Listed item us bs) :
    Listed item (ts ++ comma :: us) (as ++ bs) := by
  induction h with
  | one hitem => exact .more hitem hcomma h'
  | more hitem hkind _ ih =>
      rw [List.append_assoc, List.cons_append]
      exact .more hitem hkind ih

theorem opens_expression : Opens Expression [] :=
  ⟨[TokenKind.nullWord.token], .null,
    .single (.single (.single (.single (.single (operand_iff.mpr (.null rfl))))))⟩

theorem statements_eq_listOf :
    Statements =
      ListOf (Simple Expression) (Compound Expression (Block Statements)) :=
  funext fun _ => funext fun _ => propext statements_iff

end

/-- A statement of either sort. -/
def OneOf (simple compound : Phrase Stmt) : Phrase Stmt :=
  fun ts a => simple ts a ∨ compound ts a

end Grammar

theorem TokenKind.not_startsStatement_of_closesList {kind : TokenKind}
    (h : kind.closesList = true) : ¬ kind.startsStatement = true := by
  cases kind <;> simp [closesList, startsStatement] at h ⊢

namespace Parser

section

variable {n : Nat}

/-- What readers take is a phrase however deeply it is nested. -/
theorem sound_operand (depth : Nat) : Sound (operand Expr.negated n depth) Operand := by
  intro ts e rest hread
  obtain ⟨used, hsplit, hoperand⟩ := Sound.operand depth ts e rest hread
  exact ⟨used, hsplit, operand_of_operandAt depth _ _ _ (Nat.le_refl _) hoperand⟩

theorem sound_statement (depth : Nat) :
    SoundStatement (statement Expr.negated n depth) (Simple Expression)
      (Compound Expression (Block Statements)) := by
  intro ts a rest hread
  have hread' := Sound.statement depth ts a rest hread
  cases depth with
  | zero => cases hread
  | succ depth =>
      have hvalue (bound : Nat) : Within bound (ExpressionAt depth) Expression :=
        (operand_of_operandAt depth bound).expressionOf
      refine hread'.imp (fun ⟨used, after, hsplit, hused, hend⟩ => ?_)
        fun ⟨used, lines, hsplit, hused, hlines⟩ => ?_
      · exact ⟨used, after, hsplit, (hvalue used.length).simple _ _ (Nat.le_succ _) hused, hend⟩
      · have hblock : Within (used.length + 1) (Block (StatementsAt depth))
            (Block Statements) := (statements_of_statementsAt depth used.length).block
        exact ⟨used, lines, hsplit, (hvalue used.length).compound
          (hblock.mono (Nat.le_succ _)) _ _ (Nat.le_succ _) hused, hlines⟩

end

/-- The items that are read go on with those read before. -/
theorem Sound.listed {α : Type} {item : Parser α} {itemPhrase : Phrase α} {n : Nat}
    (h : Sound item itemPhrase) {used taken rest : List Token} {items all : List α}
    (hitems : Listed itemPhrase used items.reverse)
    (hread : Parser.moreItems item n items (taken ++ rest) = .ok (all, rest)) :
    Listed itemPhrase (used ++ taken) all := by
  rcases Sound.moreItems h hread with ⟨rfl, hsplit⟩ | ⟨comma, us, more, hsplit, hcomma, rfl, hmore⟩
  · obtain rfl : taken = [] := List.append_cancel_right (hsplit.trans (List.nil_append rest).symm)
    rwa [List.append_nil]
  · obtain rfl : taken = comma :: us :=
      List.append_cancel_right (hsplit.trans (List.cons_append ..).symm)
    exact hitems.append hcomma hmore

namespace Predicts

variable {α : Type} {n : Nat} {isOp : TokenKind → Bool} {item : Parser α}
  {itemPhrase : Phrase α} {part value : Parser Expr} {operandPhrase valuePhrase : Phrase Expr}

/-! ## Expressions -/

theorem chain (h : Predicts part operandPhrase) (hend : isOp .endOfInput = false)
    {used : List Token} {left : Expr} (hleft : Joined isOp operandPhrase used left) :
    Looks (Opens (Joined isOp operandPhrase)) used (chain isOp part n left) := by
  induction n generalizing used left with
  | zero => exact .pure left
  | succ n ih =>
      refine Looks.peek_bind fun op => .ite (fun hop => ?_) fun _ => (Looks.pure left).looksAt op
      refine .advance_bind (by rintro heq; simp [heq, hend] at hop)
        (h.bind ?_ fun taken right hright => ?_)
      · rintro taken ⟨more, right, hright⟩
        exact ⟨more, _, by simpa using Joined.more hleft hop hright⟩
      · simpa using ih (.more hleft hop hright)

theorem leftAssociative (h : Predicts part operandPhrase) (hend : isOp .endOfInput = false) :
    Predicts (leftAssociative n isOp part) (Joined isOp operandPhrase) where
  sound := h.sound.leftAssociative hend
  looks := h.bind (fun _ hused => hused.mono fun _ _ => .single)
    fun _ _ hleft => h.chain hend (.single hleft)

theorem comparison (h : Predicts part operandPhrase) :
    Predicts (comparison part) (Compared operandPhrase) where
  sound := h.sound.comparison
  looks := by
    refine h.bind (fun _ hused => hused.mono fun _ _ => .single) fun used left hleft => ?_
    refine Looks.peek_bind fun op => .ite (fun hop => ?_) fun _ => (Looks.pure left).looksAt op
    refine .advance_bind (by rintro heq; simp [heq, TokenKind.isComparison] at hop)
      (h.bind ?_ fun _ _ _ => .pure _)
    rintro taken ⟨more, right, hright⟩
    exact ⟨more, _, by simpa using Compared.pair hleft hop hright⟩

theorem expressionOf (h : Predicts part operandPhrase) :
    Predicts (expressionOf n part) (Grammar.expressionOf operandPhrase) :=
  ((((h.leftAssociative rfl).leftAssociative rfl).comparison).leftAssociative rfl).leftAssociative
    rfl

theorem moreItems (h : Predicts item itemPhrase) {used : List Token} {items : List α}
    (hitems : Listed itemPhrase used items.reverse) :
    Looks (Opens (Listed itemPhrase)) used (moreItems item n items) := by
  induction n generalizing used items with
  | zero => exact .pure _
  | succ n ih =>
      refine .of_looksAt fun comma => .accept_bind (by decide) (fun hcomma => ?_) fun _ =>
        (Looks.pure items.reverse).looksAt comma
      refine h.bind ?_ fun taken next hnext => ?_
      · rintro taken ⟨more, next, hnext⟩
        exact ⟨more, _, by simpa using hitems.append hcomma (.one hnext)⟩
      · have hall := hitems.append hcomma (.one hnext)
        rw [← List.reverse_cons] at hall
        simpa using ih hall

theorem listOf (h : Predicts item itemPhrase) :
    Predicts (listOf n item) (Parenthesised itemPhrase) where
  sound := h.sound.listOf
  looks := by
    have hclose : TokenKind.rightParen.token.kind = .rightParen := rfl
    have hnone : Opens (Parenthesised itemPhrase) [] :=
      ⟨[TokenKind.leftParen.token, TokenKind.rightParen.token], [], .none rfl rfl⟩
    refine Looks.expect_bind (by decide) hnone fun l hl => .peek_bind fun t => ?_
    have hempty : Opens (Parenthesised itemPhrase) [l] :=
      ⟨[TokenKind.rightParen.token], [], .none hl rfl⟩
    have hinside (used : List Token) (hused : Opens (Listed itemPhrase) used) :
        Opens (Parenthesised itemPhrase) ([l] ++ used) := by
      obtain ⟨more, items, hitems⟩ := hused
      refine ⟨more ++ [TokenKind.rightParen.token], items, ?_⟩
      simpa using Parenthesised.some hl hitems hclose
    refine .ite (fun _ => Looks.looksAt ?_ t) fun _ => Looks.looksAt ?_ t
    · exact .expect_bind (by decide) hempty fun _ _ => .pure _
    · refine h.bind (fun used ⟨more, a, hitem⟩ => hinside used ⟨more, [a], .one hitem⟩)
        fun used first hfirst => ?_
      have hlisted : Listed itemPhrase used [first].reverse := .one hfirst
      refine ((h.moreItems hlisted).frame hinside).bind fun taken items rest hread =>
        Looks.looksAt ?_ _
      have hitems : Opens (Parenthesised itemPhrase) ([l] ++ (used ++ taken)) :=
        hinside _ (.of_phrase (h.sound.listed hlisted hread))
      exact .expect_bind (by decide) (by simpa using hitems) fun _ _ => .pure _

theorem primary (h : Predicts value valuePhrase) :
    Looks (Opens (OperandOf operandPhrase valuePhrase)) [] (primary n value) := by
  have hnone : Opens (OperandOf operandPhrase valuePhrase) [] :=
    ⟨[TokenKind.nullWord.token], .null, .null rfl⟩
  refine .of_looksAt fun t => ?_
  obtain ⟨kind, hkind⟩ : ∃ kind, t.kind = kind := ⟨_, rfl⟩
  unfold Parser.primary
  cases kind
  case number =>
    refine .advance_bind (by simp [hkind]) ?_
    rw [hkind]
    exact .numberLiteral t.value
  case string | trueWord | falseWord | nullWord =>
    refine .advance_bind (by simp [hkind]) ?_
    rw [hkind]
    exact .pure _
  case identifier =>
    refine .advance_bind (by simp [hkind]) ?_
    rw [hkind]
    refine Looks.peek_bind fun next => .ite (fun _ => ?_) fun _ => (Looks.pure _).looksAt next
    refine Looks.looksAt (h.listOf.bind ?_ fun _ _ _ => .pure _) next
    rintro used ⟨more, args, hargs⟩
    exact ⟨more, _, .call hkind hargs⟩
  case leftParen =>
    refine .advance_bind (by simp [hkind]) ?_
    rw [hkind]
    have hclose : TokenKind.rightParen.token.kind = .rightParen := rfl
    have hinside (used : List Token) (hused : Opens valuePhrase used) :
        Opens (OperandOf operandPhrase valuePhrase) ([t] ++ used) := by
      obtain ⟨more, e, he⟩ := hused
      refine ⟨more ++ [TokenKind.rightParen.token], e, ?_⟩
      simpa using OperandOf.parens hkind he hclose
    exact h.bind hinside fun used e he =>
      .expect_bind (by decide) (hinside used (.of_phrase he)) fun _ _ => .pure _
  all_goals
    refine .of_error (.noExpression t) (fun ts hts => ?_) (.token rfl (by simp)) hnone
    subst hts
    rw [bind_of_ok rfl, hkind]
    rfl

theorem operand (depth : Nat) : Predicts (operand Expr.negated n depth) Operand := by
  induction depth with
  | zero => exact ⟨sound_operand 0, .tooDeep⟩
  | succ depth ih =>
      refine ⟨sound_operand _, Looks.peek_bind fun t => ?_⟩
      split
      case h_1 ht =>
        refine .advance_bind (by simp [ht]) (ih.bind ?_ fun _ _ _ => .pure _)
        exact fun _ ⟨more, e, he⟩ => ⟨more, _, operand_iff.mpr (.not ht he)⟩
      case h_2 ht =>
        refine .advance_bind (by simp [ht]) (ih.bind ?_ fun _ _ _ => .pure _)
        exact fun _ ⟨more, e, he⟩ => ⟨more, _, operand_iff.mpr (.negated ht he)⟩
      case h_3 =>
        have hprimary : Looks (Opens (OperandOf Operand Expression)) []
          (Parser.primary n (Parser.expression Expr.negated n depth)) := ih.expressionOf.primary
        exact (hprimary.mono fun _ hused => hused.mono fun _ _ => operand_iff.mpr).looksAt t

theorem expression (depth : Nat) : Predicts (expression Expr.negated n depth) Expression :=
  (operand depth).expressionOf

end Predicts

/-! ## Statements -/

section

variable {n : Nat} {ends : TokenKind → Bool} {value : Parser Expr}
  {one : Parser Stmt} {body : Parser (List Stmt)} {valuePhrase : Phrase Expr}
  {blockPhrase : Phrase (List Stmt)} {simple compound : Phrase Stmt}

/-- A reader of statements that predicts them, and that refuses at once a token that closes the list
of statements. -/
structure PredictsStatement (p : Parser Stmt) (simple compound : Phrase Stmt) : Prop where
  sound : SoundStatement p simple compound
  looks : Looks (Opens (OneOf simple compound)) [] p
  refuses : p = tooDeep ∨ ∀ ts, (current ts).kind.closesList = true →
    p ts = .error (.error (.noStatement (current ts)))

/-- Tokens that any list of statements may stand after. -/
def Leads (simple compound : Phrase Stmt) (used : List Token) : Prop :=
  ∀ more rest, ListOf simple compound more rest →
    ∃ body, ListOf simple compound (used ++ more) body

namespace PredictsStatement

/-- Where the list of statements has to end, no more are read. -/
theorem statementsFrom_bind_of_closesList {β : Type} (h : PredictsStatement one simple compound)
    {hope : List Token → Prop} {used : List Token} (hused : hope used) {t : Token}
    (ht : t.kind.closesList = true) {next : List Stmt → Parser β} {read : List Stmt}
    (hnext : LooksAt hope used t (next read.reverse)) :
    LooksAt hope used t (statementsFrom one ends n read >>= next) := by
  cases n with
  | zero =>
      rw [Parser.statementsFrom, pure_bind]
      exact hnext
  | succ n =>
      rw [Parser.statementsFrom, bind_assoc]
      refine .peek_bind ?_
      by_cases hends : ends t.kind = true
      · rw [if_pos hends, pure_bind]
        exact hnext
      rw [if_neg hends, bind_assoc]
      refine .accept_bind (by decide) (fun hline => by simp [hline, TokenKind.closesList] at ht)
        fun _ => ?_
      rcases h.refuses with rfl | hrefuses
      · exact fun _ _ => trivial
      · refine .of_error (.noStatement t) (fun ts hts => ?_) (.token rfl (by simp)) hused
        subst hts
        change ((one >>= _) >>= next) ts = _
        rw [bind_apply, bind_apply, hrefuses ts ht]

/-- After a statement there may be any list of statements, or the list that it is in has to end. -/
theorem leads_or_closesList (h : PredictsStatement one simple compound)
    {used taken rest : List Token} {a : Stmt} (hleads : Leads simple compound used)
    (hread : one (taken ++ rest) = .ok (a, rest)) :
    Leads simple compound (used ++ taken) ∨
      Opens (ListOf simple compound) (used ++ taken) ∧ (current rest).kind.closesList = true := by
  rcases h.sound _ _ _ hread with
    ⟨first, after, hsplit, hfirst, hend⟩ | ⟨first, lines, hsplit, hfirst, hlines⟩
  · obtain ⟨hends, hafter⟩ := endStatement_eq_ok.mp hend
    by_cases hline : (current after).kind = .newline
    · rw [afterLineEnd_of_eq hline] at hafter
      rw [eq_cons_afterCurrent hline (by decide), ← hafter, List.append_cons] at hsplit
      obtain rfl : taken = first ++ [current after] := List.append_cancel_right hsplit
      refine .inl fun more rest hmore => ?_
      simpa using hleads _ _ (.simple hfirst hline hmore)
    · rw [afterLineEnd_of_ne hline] at hafter
      subst hafter
      obtain rfl : taken = first := List.append_cancel_right hsplit
      obtain ⟨all, hall⟩ := hleads _ _ (.last hfirst)
      exact .inr ⟨.of_phrase hall, by simpa [TokenKind.endsSimple, hline] using hends⟩
  · rw [← List.append_assoc] at hsplit
    obtain rfl : taken = first ++ lines := List.append_cancel_right hsplit
    refine .inl fun more rest hmore => ?_
    simpa using hleads _ _ (.compound hfirst (hmore.lineEnds hlines))

/-- What is read is a list of statements at any time, and any other list may follow it until it has
to end. -/
theorem statementsFrom (h : PredictsStatement one simple compound) {used : List Token}
    (hleads : Leads simple compound used) (read : List Stmt) :
    Looks (Opens (ListOf simple compound)) used (statementsFrom one ends n read) := by
  induction n generalizing used read with
  | zero => exact .pure _
  | succ n ih =>
      refine Looks.peek_bind fun t => .ite (fun _ => (Looks.pure _).looksAt t) fun _ => ?_
      refine .accept_bind (by decide) (fun hline => ?_) fun _ => ?_
      · refine ih (fun more rest hmore => ?_) read
        simpa using hleads _ rest (.lineEnd hline hmore)
      · have hone : Looks (Opens (ListOf simple compound)) (used ++ []) one := by
          refine h.looks.frame ?_
          rintro taken ⟨more, a, hfirst | hfirst⟩
          · obtain ⟨body, hbody⟩ := hleads _ _ (.last hfirst)
            exact ⟨more, body, by simpa using hbody⟩
          · obtain ⟨body, hbody⟩ := hleads _ _ (.compound hfirst .done)
            exact ⟨more, body, by simpa using hbody⟩
        rw [List.append_nil] at hone
        refine (hone.bind fun taken next rest hread => ?_).looksAt t
        rcases h.leads_or_closesList hleads hread with hleads | ⟨hall, hcloses⟩
        · exact (ih hleads _).looksAt _
        · rw [← bind_pure (Parser.statementsFrom one ends n (next :: read))]
          exact h.statementsFrom_bind_of_closesList hall hcloses ((Looks.pure _).looksAt _)

end PredictsStatement

namespace Predicts

theorem block (h : PredictsStatement one simple compound)
    (hsimple : Starts TokenKind.startsStatement simple)
    (hcompound : Starts TokenKind.startsStatement compound) :
    Predicts (block n one) (Block (ListOf simple compound)) where
  sound := Sound.block h.sound hsimple hcompound
  looks := by
    have hclose : TokenKind.rightBrace.token.kind = .rightBrace := rfl
    have hinside (l : Token) (hl : l.kind = .leftBrace) (used : List Token)
        (hused : Opens (ListOf simple compound) used) :
        Opens (Block (ListOf simple compound)) ([l] ++ used) := by
      obtain ⟨more, body, hbody⟩ := hused
      refine ⟨more ++ [TokenKind.rightBrace.token], body, ?_⟩
      simpa using Block.intro hl hbody hclose
    have hnone : Opens (Block (ListOf simple compound)) [] := by
      obtain ⟨more, body, hbody⟩ := hinside TokenKind.leftBrace.token rfl [] (.of_phrase .done)
      exact ⟨TokenKind.leftBrace.token :: more, body, hbody⟩
    refine Looks.expect_bind (by decide) hnone fun l hl => .skipLineEnd_bind fun line hline => ?_
    have hleads : Leads simple compound line :=
      fun more rest hmore => ⟨rest, hmore.lineEnds hline.isLineEnd⟩
    refine ((h.statementsFrom hleads []).frame (hinside l hl)).bind fun taken all rest hread =>
      Looks.looksAt ?_ _
    obtain ⟨used, body, hsplit, -, hused⟩ := Sound.statementsFrom h.sound hsimple hcompound hread
    obtain rfl : taken = used := List.append_cancel_right hsplit
    have hbody : Opens (Block (ListOf simple compound)) ([l] ++ (line ++ taken)) :=
      hinside l hl _ (.of_phrase (hused.lineEnds hline.isLineEnd))
    exact .expect_bind (by decide) (by simpa using hbody) fun _ _ => .pure _

section

variable (hvalue : Predicts value valuePhrase)
include hvalue

/-- The value of a binding, where there is hope before the sign between the name and the value, and
with every beginning of a value after it. -/
theorem binding {hope : List Token → Prop} {before : List Token} (hbefore : hope before)
    (hopens : ∀ is used, is.kind = .assign → Opens valuePhrase used →
      hope (before ++ is :: used)) :
    Looks hope before (binding value) := by
  refine Looks.expect_bind (by decide) hbefore fun is his => hvalue.bind (fun used hused => ?_)
    fun used e he => .endStatement_pure ?_
  · simpa using hopens is used his hused
  · simpa using hopens is used his (.of_phrase he)

variable (hbody : Predicts body blockPhrase) (hblock : Opens blockPhrase [])
include hbody hblock

theorem clause : Predicts (clause value body) (Clause valuePhrase blockPhrase) where
  sound := hvalue.sound.clause hbody.sound
  looks := by
    refine hvalue.bind ?_ fun test condition htest => .skipLineEnd_bind fun line hline =>
      hbody.bind ?_ fun _ _ _ => .pure _
    · rintro test ⟨more, condition, htest⟩
      obtain ⟨guarded, read, hguarded⟩ := hblock
      exact ⟨more ++ guarded, _, by simpa using Clause.intro htest .none hguarded⟩
    · rintro used ⟨more, read, hguarded⟩
      exact ⟨more, _, by simpa using Clause.intro htest hline hguarded⟩

/-- What follows the first block of an `ifThen`, where there is hope with every beginning of it. -/
theorem alternative {hope : List Token → Prop} {before : List Token}
    (hopens : ∀ used, Opens (AlternativeOf valuePhrase blockPhrase) used → hope (before ++ used))
    (clauses : List (Expr × List Stmt)) :
    Looks hope before (alternative value body n clauses) := by
  induction n generalizing before clauses with
  | zero => exact .pure _
  | succ n ih =>
      refine Looks.skipLineEnd_bind fun line hline => .of_looksAt fun word =>
        .accept_bind (by decide) (fun helseIf => ?_) fun _ => ?_
      · refine (hvalue.clause hbody hblock).bind ?_ fun test guarded hclause => ih ?_ _
        · rintro used ⟨more, guarded, hclause⟩
          have hopens' := hopens (line ++ word :: used)
            ⟨more, _, by simpa using AlternativeOf.elseIf hline helseIf hclause .nothing⟩
          simpa using hopens'
        · rintro used ⟨more, next, hnext⟩
          have hopens' := hopens (line ++ word :: (test ++ used))
            ⟨more, _, by simpa using AlternativeOf.elseIf hline helseIf hclause hnext⟩
          simpa using hopens'
      · refine .accept_bind (by decide) (fun helse => ?_) fun _ => (Looks.pure _).looksAt word
        refine Looks.skipLineEnd_bind fun after hafter => hbody.bind ?_ fun _ _ _ => .pure _
        rintro used ⟨more, read, hguarded⟩
        have hopens' := hopens (line ++ word :: (after ++ used))
          ⟨more, _, by simpa using AlternativeOf.otherwise hline helse hafter hguarded⟩
        simpa using hopens'

end

theorem parameter : Predicts (Token.value <$> expect .identifier) Parameter where
  sound := .parameter
  looks := by
    have heq : (Token.value <$> Parser.expect .identifier) =
        Parser.expect .identifier >>= fun t => Pure.pure t.value :=
      funext fun ts => map_apply Token.value (Parser.expect .identifier) ts
    rw [heq]
    exact .expect_bind (by decide) ⟨[TokenKind.identifier.token], _, .intro rfl⟩ fun _ _ => .pure _

end Predicts

/-! ### Statements one by one -/

theorem statementAfter_of_not_starts {t : Token} (ht : ¬ t.kind.startsStatement = true) :
    statementAfter n value body t = fail (.noStatement t) := by
  obtain ⟨kind, hkind⟩ : ∃ kind, t.kind = kind := ⟨_, rfl⟩
  rw [hkind] at ht
  unfold Parser.statementAfter
  rw [hkind]
  cases kind <;> first | rfl | exact absurd rfl ht

section

variable (hvalue : Predicts value valuePhrase) (hexpr : Opens valuePhrase [])
include hvalue

include hexpr in
/-- What follows the first token of a statement without a block. -/
theorem looks_simpleAfter {t : Token} (hstarts : t.kind.startsStatement = true)
    (hnot : ¬ (t.kind = .ifWord ∨ t.kind = .whileWord ∨ t.kind = .functionWord)) :
    Looks (Opens (Simple valuePhrase)) [t] (statementAfter n value body t) := by
  obtain ⟨kind, hkind⟩ : ∃ kind, t.kind = kind := ⟨_, rfl⟩
  rw [hkind] at hstarts hnot
  unfold Parser.statementAfter
  rw [hkind]
  cases kind <;> try contradiction
  case declare =>
    obtain ⟨more, e, he⟩ := hexpr
    refine .expect_bind (by decide) ?_ fun name hname =>
      (hvalue.binding ?_ ?_).bind fun _ _ _ _ => (Looks.pure _).looksAt _
    · exact ⟨TokenKind.identifier.token :: TokenKind.assign.token :: more, _,
        .declare hkind rfl rfl he⟩
    · exact ⟨TokenKind.assign.token :: more, _, .declare hkind hname rfl he⟩
    · rintro is used his ⟨more, e, he⟩
      exact ⟨more, _, .declare hkind hname his he⟩
  case identifier =>
    obtain ⟨more, e, he⟩ := hexpr
    have hname : Opens (Simple valuePhrase) [t] :=
      ⟨TokenKind.assign.token :: more, _, .assign hkind rfl he⟩
    refine .peek_bind fun next => .ite (fun hcall => .fail (.call rfl hcall) hname) fun _ => ?_
    refine ((hvalue.binding hname ?_).bind fun _ _ _ _ => (Looks.pure _).looksAt _).looksAt next
    rintro is used his ⟨more, e, he⟩
    exact ⟨more, _, .assign hkind his he⟩
  case print =>
    refine hvalue.bind ?_ fun used e he => .endStatement_pure (.of_phrase (.print hkind he))
    exact fun used ⟨more, e, he⟩ => ⟨more, _, .print hkind he⟩
  case breakWord => exact .endStatement_pure (.of_phrase (.breakLoop hkind))
  case continueWords => exact .endStatement_pure (.of_phrase (.continueLoop hkind))
  case returnWord =>
    refine .peek_bind fun next => .ite (fun _ => ?_) fun _ => Looks.looksAt ?_ next
    · refine Looks.looksAt (.skipLineEnd_bind fun _ _ => ?_) next
      exact .pure _
    · refine hvalue.bind ?_ fun used e he => .endStatement_pure (.of_phrase (.returnValue hkind he))
      exact fun used ⟨more, e, he⟩ => ⟨more, _, .returnValue hkind he⟩

variable (hbody : Predicts body blockPhrase) (hblock : Opens blockPhrase [])
include hbody hblock

/-- What follows the first token of a statement with a block. -/
theorem looks_compoundAfter {t : Token}
    (hkind : t.kind = .ifWord ∨ t.kind = .whileWord ∨ t.kind = .functionWord) :
    Looks (Opens (Compound valuePhrase blockPhrase)) [t] (statementAfter n value body t) := by
  obtain ⟨guarded, read, hguarded⟩ := hblock
  unfold Parser.statementAfter
  rcases hkind with hkind | hkind | hkind <;> rw [hkind]
  · refine (hvalue.clause hbody ⟨_, _, hguarded⟩).bind ?_ fun test clause hclause =>
      (hvalue.alternative hbody ⟨_, _, hguarded⟩ ?_ []).bind fun _ _ _ _ =>
        Looks.looksAt (.skipLineEnd_bind fun _ _ => ?_) _
    · rintro used ⟨more, clause, hclause⟩
      exact ⟨more, _, by simpa using Compound.ifThen hkind hclause .nothing⟩
    · rintro used ⟨more, next, hnext⟩
      exact ⟨more, _, by simpa using Compound.ifThen hkind hclause hnext⟩
    · exact .pure _
  · refine (hvalue.clause hbody ⟨_, _, hguarded⟩).bind ?_ fun _ _ _ =>
      .skipLineEnd_bind fun _ _ => ?_
    · exact fun used ⟨more, clause, hclause⟩ => ⟨more, _, .whileDo hkind hclause⟩
    · exact .pure _
  · have hnone : Parenthesised Parameter
        [TokenKind.leftParen.token, TokenKind.rightParen.token] [] := .none rfl rfl
    refine .expect_bind (by decide) ?_ fun name hname => Predicts.parameter.listOf.bind ?_
      fun params names hparams => .skipLineEnd_bind fun line hline => hbody.bind ?_
        fun _ _ _ => .skipLineEnd_bind fun _ _ => ?_
    · have hname : TokenKind.identifier.token.kind = .identifier := rfl
      have hall : Compound valuePhrase blockPhrase _ _ :=
        .function hkind hname hnone .none hguarded
      exact ⟨TokenKind.identifier.token :: TokenKind.leftParen.token ::
        TokenKind.rightParen.token :: guarded, _, by simpa using hall⟩
    · rintro used ⟨more, names, hparams⟩
      have hall : Compound valuePhrase blockPhrase _ _ :=
        .function hkind hname hparams .none hguarded
      exact ⟨more ++ guarded, _, by simpa using hall⟩
    · rintro used ⟨more, read, hguarded⟩
      exact ⟨more, _, by simpa using Compound.function hkind hname hparams hline hguarded⟩
    · exact .pure _

include hexpr

/-- A statement is refused at its first token, or after a beginning of a statement. -/
theorem looks_statementAfter :
    Looks (Opens (OneOf (Simple valuePhrase) (Compound valuePhrase blockPhrase))) []
      (advance >>= statementAfter n value body) := by
  refine .of_looksAt fun t => ?_
  by_cases hstarts : t.kind.startsStatement = true
  · refine .advance_bind (by rintro hend; simp [hend, TokenKind.startsStatement] at hstarts) ?_
    by_cases hkind : t.kind = .ifWord ∨ t.kind = .whileWord ∨ t.kind = .functionWord
    · exact (looks_compoundAfter hvalue hbody hblock hkind).mono
        fun _ hused => hused.mono fun _ _ => .inr
    · exact (looks_simpleAfter hvalue hexpr hstarts hkind).mono
        fun _ hused => hused.mono fun _ _ => .inl
  · refine .of_error (.noStatement t) (fun ts hts => ?_) (.token rfl (by simp))
      ⟨[TokenKind.breakWord.token], _, .inl (.breakLoop rfl)⟩
    subst hts
    rw [bind_of_ok rfl, statementAfter_of_not_starts hstarts]
    rfl

end

/-- The reader of statements predicts them. -/
theorem predicts_statement (depth : Nat) :
    PredictsStatement (statement Expr.negated n depth) (Simple Expression)
      (Compound Expression (Block Statements)) := by
  induction depth with
  | zero => exact ⟨sound_statement 0, .tooDeep, .inl rfl⟩
  | succ depth ih =>
      have hblock : Predicts (block n (statement Expr.negated n depth)) (Block Statements) := by
        rw [statements_eq_listOf]
        exact .block ih starts_simple starts_compound
      have hempty : Statements [] [] := statements_iff.mpr .done
      refine ⟨sound_statement _, looks_statementAfter (.expression depth) opens_expression
        hblock ⟨[TokenKind.leftBrace.token, TokenKind.rightBrace.token], [], .intro rfl hempty rfl⟩,
        .inr fun ts hcloses => ?_⟩
      rw [statement_succ_apply,
        statementAfter_of_not_starts (TokenKind.not_startsStatement_of_closesList hcloses)]
      rfl

end

/-! ## Programs -/

section

variable {n : Nat} {ends : TokenKind → Bool}

/-- No statement has the end of the input among its tokens. -/
theorem noEnd_of_statements {ts : List Token} {body : List Stmt} (h : Statements ts body) :
    ∀ t ∈ ts, t.kind ≠ .endOfInput := by
  have hat := statementsAt_of_statements ts.length ts body (Nat.le_refl _) h
  have hread : statementsFrom (statement Expr.negated ts.length ts.length) TokenKind.closesList
      ts.length [] (ts ++ [TokenKind.endOfInput.token]) =
        .ok (body, [TokenKind.endOfInput.token]) :=
    Complete.statements (fun _ hkind => hkind) hat (Nat.le_refl _) rfl
  obtain ⟨used, hsplit, hused⟩ :=
    ((Deepens.statement (Nat.le_refl _)).statementsFrom []).leaves hread
  rwa [List.append_cancel_right hsplit]

/-- Tokens that the input may begin with: with some others after them, up to the end of the input,
they are of the sort. -/
def Completes (phrase : Phrase Program) (used : List Token) : Prop :=
  ∃ more P, (∀ t ∈ used ++ more, t.kind ≠ .endOfInput) ∧
    phrase (used ++ more ++ [TokenKind.endOfInput.token]) P

/-- The list of statements in a program, after tokens that it may stand after. -/
theorem looks_statements {hope : List Token → Prop} {before : List Token}
    (hopens : ∀ used, Opens Statements used → hope (before ++ used)) (depth : Nat)
    {next : List Stmt → Parser Program}
    (hnext : ∀ used body, Statements used body → Looks hope (before ++ used) (next body)) :
    Looks hope before (statementsFrom (statement Expr.negated n depth) ends n [] >>= next) := by
  have hpredicts : Predicts (statementsFrom (statement Expr.negated n depth) ends n [])
      Statements := by
    have hleads : Leads (Simple Expression)
        (Compound Expression (Block Statements)) [] :=
      fun _ rest hrest => ⟨rest, hrest⟩
    rw [statements_eq_listOf]
    refine ⟨fun ts body rest hread => ?_, (predicts_statement depth).statementsFrom hleads []⟩
    obtain ⟨used, all, hsplit, rfl, hused⟩ :=
      Sound.statementsFrom (sound_statement depth) starts_simple starts_compound hread
    exact ⟨used, hsplit, hused⟩
  exact hpredicts.bind hopens hnext

theorem looks_program (depth : Nat) :
    Looks (Completes (Marked Statements)) [] (program Expr.negated n depth) := by
  have hstop : TokenKind.programEnd.token.kind = .programEnd := rfl
  have hempty (start : Token) (hstart : start.kind = .programStart) :
      Completes (Marked Statements) [start] :=
    ⟨[TokenKind.programEnd.token], _, by simp [hstart, hstop], .empty hstart hstop⟩
  have hnone : Completes (Marked Statements) [] := by
    obtain ⟨more, P, hmore, hmarked⟩ := hempty TokenKind.programStart.token rfl
    exact ⟨TokenKind.programStart.token :: more, P, hmore, hmarked⟩
  have hlines (start line : Token) (hstart : start.kind = .programStart)
      (hline : line.kind = .newline) (used : List Token) (hused : Opens Statements used) :
      Completes (Marked Statements) ([start, line] ++ used) := by
    obtain ⟨more, body, hbody⟩ := hused
    refine ⟨more ++ [TokenKind.programEnd.token], ⟨body⟩, ?_, ?_⟩
    · have hnoEnd := List.forall_mem_append.mp (noEnd_of_statements hbody)
      simpa [hstart, hline, hstop, or_imp, forall_and] using hnoEnd
    · simpa using Marked.intro hstart hline hbody hstop
  refine .expect_bind (by decide) hnone fun start hstart =>
    Looks.endStatement_bind (hempty start hstart) (fun line hline => ?_) fun t hcloses => ?_
  · refine looks_statements (hlines start line hstart hline) depth fun used body hbody => ?_
    exact .expect_bind (by decide) (hlines start line hstart hline used (.of_phrase hbody))
      fun _ _ => .pure _
  · refine (predicts_statement depth).statementsFrom_bind_of_closesList (hempty start hstart)
      hcloses ?_
    exact Looks.looksAt (.expect_bind (by decide) (hempty start hstart) fun _ _ => .pure _) t

theorem looks_fragment (depth : Nat) :
    Looks (Completes (Unmarked Statements)) [] (fragment Expr.negated n depth) := by
  have hopens (used : List Token) (hused : Opens Statements used) :
      Completes (Unmarked Statements) used := by
    obtain ⟨more, body, hbody⟩ := hused
    exact ⟨more, _, noEnd_of_statements hbody, .intro hbody rfl⟩
  exact looks_statements hopens depth fun used body hbody =>
    .expectEnd_pure (hopens used (.of_phrase hbody))

end

end Parser

end Bol
