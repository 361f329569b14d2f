/-
# What is read is a phrase

Whatever a reader returns is what the grammar makes of the tokens that it took. Every reader is
followed from its first token on, the readers of its parts being sound by assumption; the bound on
the depth carries the induction that ties them together.
-/

import Bol.Proofs.Program.Nesting
import Bol.Proofs.Program.Readers

namespace Bol

open Grammar

namespace Parser

/-- The tokens that the reader takes are always a phrase of the sort, and it returns what they
stand for. -/
def Sound {α : Type} (p : Parser α) (phrase : Phrase α) : Prop :=
  ∀ ts a rest, p ts = .ok (a, rest) → ∃ used, ts = used ++ rest ∧ phrase used a

namespace Sound

variable {α : Type} {n : Nat} {isOp : TokenKind → Bool} {item : Parser α}
  {itemPhrase : Phrase α} {part value : Parser Expr} {operandPhrase valuePhrase : Phrase Expr}

/-! ## Expressions -/

theorem chain (hoperand : Sound part operandPhrase) (hend : isOp .endOfInput = false) :
    ∀ {n used left ts e rest}, Joined isOp operandPhrase used left →
      Parser.chain isOp part n left ts = .ok (e, rest) →
      ∃ more, ts = more ++ rest ∧ Joined isOp operandPhrase (used ++ more) e := by
  intro n
  induction n with
  | zero =>
      intro used left ts e rest hleft h
      obtain ⟨rfl, rfl⟩ : left = e ∧ ts = rest := by simpa [Parser.chain, pure_apply] using h
      exact ⟨[], rfl, by simpa using hleft⟩
  | succ n ih =>
      intro used left ts e rest hleft h
      rw [chain_succ_apply] at h
      by_cases hop : isOp (current ts).kind = true
      · rw [if_pos hop] at h
        obtain ⟨right, middle, hright, h⟩ := bind_eq_ok.mp h
        obtain ⟨taken, htaken, hright⟩ := hoperand _ _ _ hright
        have hts : ts = current ts :: afterCurrent ts :=
          eq_cons_afterCurrent rfl (by rintro heq; simp [heq, hend] at hop)
        obtain ⟨more, hmore, hjoined⟩ := ih (.more hleft hop hright) h
        refine ⟨current ts :: (taken ++ more), ?_, by simpa using hjoined⟩
        rw [hts, htaken, hmore]
        simp
      · rw [if_neg hop] at h
        obtain ⟨rfl, rfl⟩ : left = e ∧ ts = rest := by simpa using h
        exact ⟨[], rfl, by simpa using hleft⟩

theorem leftAssociative (hoperand : Sound part operandPhrase)
    (hend : isOp .endOfInput = false) :
    Sound (leftAssociative n isOp part) (Joined isOp operandPhrase) := by
  intro ts e rest h
  obtain ⟨left, middle, hfirst, hchain⟩ := bind_eq_ok.mp h
  obtain ⟨used, rfl, hleft⟩ := hoperand _ _ _ hfirst
  obtain ⟨more, rfl, hjoined⟩ := chain hoperand hend (.single hleft) hchain
  exact ⟨used ++ more, by simp, hjoined⟩

theorem comparison (hoperand : Sound part operandPhrase) :
    Sound (comparison part) (Compared operandPhrase) := by
  intro ts e rest h
  rw [comparison_apply] at h
  obtain ⟨left, middle, hfirst, hmore⟩ := bind_eq_ok.mp h
  obtain ⟨used, rfl, hleft⟩ := hoperand _ _ _ hfirst
  by_cases hop : (current middle).kind.isComparison = true
  · rw [if_pos hop] at hmore
    obtain ⟨right, last, hsecond, hpair⟩ := bind_eq_ok.mp hmore
    obtain ⟨rfl, rfl⟩ : _ = e ∧ last = rest := by simpa [pure_apply] using hpair
    obtain ⟨taken, htaken, hright⟩ := hoperand _ _ _ hsecond
    have hmiddle : middle = current middle :: afterCurrent middle :=
      eq_cons_afterCurrent rfl (by rintro heq; simp [heq, TokenKind.isComparison] at hop)
    refine ⟨used ++ current middle :: taken, ?_, .pair hleft hop hright⟩
    rw [List.append_assoc, List.cons_append, ← htaken, ← hmiddle]
  · rw [if_neg hop] at hmore
    obtain ⟨rfl, rfl⟩ : left = e ∧ middle = rest := by simpa using hmore
    exact ⟨used, rfl, .single hleft⟩

theorem expressionOf (hoperand : Sound part operandPhrase) :
    Sound (expressionOf n part) (Grammar.expressionOf operandPhrase) :=
  leftAssociative (leftAssociative (comparison (leftAssociative (leftAssociative hoperand rfl) rfl))
    rfl) rfl

theorem moreItems (hitem : Sound item itemPhrase) :
    ∀ {n items ts as rest}, Parser.moreItems item n items ts = .ok (as, rest) →
      (as = items.reverse ∧ ts = rest) ∨ ∃ comma used more, ts = comma :: (used ++ rest) ∧
        comma.kind = .comma ∧ as = items.reverse ++ more ∧ Listed itemPhrase used more := by
  intro n
  induction n with
  | zero =>
      intro items ts as rest h
      obtain ⟨rfl, rfl⟩ : items.reverse = as ∧ ts = rest := by
        simpa [Parser.moreItems, pure_apply] using h
      exact .inl ⟨rfl, rfl⟩
  | succ n ih =>
      intro items ts as rest h
      rw [moreItems_succ_apply] at h
      by_cases hcomma : (current ts).kind = .comma
      · rw [if_pos hcomma] at h
        obtain ⟨next, middle, hfirst, h⟩ := bind_eq_ok.mp h
        obtain ⟨used, hused, hnext⟩ := hitem _ _ _ hfirst
        have hts := eq_cons_afterCurrent hcomma (by decide)
        right
        rcases ih h with ⟨rfl, rfl⟩ | ⟨comma, more, tail, rfl, hkind, rfl, htail⟩
        · exact ⟨current ts, used, [next], by rw [← hused, ← hts], hcomma, by simp, .one hnext⟩
        · refine ⟨current ts, used ++ comma :: more, next :: tail, ?_, hcomma, by simp,
            .more hnext hkind htail⟩
          rw [List.append_assoc, List.cons_append, ← hused, ← hts]
      · rw [if_neg hcomma] at h
        obtain ⟨rfl, rfl⟩ : items.reverse = as ∧ ts = rest := by simpa using h
        exact .inl ⟨rfl, rfl⟩

theorem listOf (hitem : Sound item itemPhrase) :
    Sound (listOf n item) (Parenthesised itemPhrase) := by
  intro ts as rest h
  rw [listOf_apply] at h
  obtain ⟨l, inside, hopen, hinside⟩ := bind_eq_ok.mp h
  obtain ⟨items, closing, hitems, hclosing⟩ := bind_eq_ok.mp hinside
  obtain ⟨r, last, hclose, hlast⟩ := bind_eq_ok.mp hclosing
  obtain ⟨rfl, rfl⟩ : items = as ∧ last = rest := by simpa [pure_apply] using hlast
  obtain ⟨rfl, hl⟩ := eq_cons_of_expect (by decide) hopen
  obtain ⟨rfl, hr⟩ := eq_cons_of_expect (by decide) hclose
  rw [itemsInside] at hitems
  by_cases hempty : (current inside).kind = .rightParen
  · rw [if_pos hempty] at hitems
    obtain ⟨rfl, rfl⟩ : [] = items ∧ inside = r :: last := by simpa using hitems
    exact ⟨[l, r], rfl, .none hl hr⟩
  · rw [if_neg hempty] at hitems
    obtain ⟨first, middle, hrun, hmore⟩ := bind_eq_ok.mp hitems
    obtain ⟨used, rfl, hfirst⟩ := hitem _ _ _ hrun
    rcases moreItems hitem hmore with ⟨rfl, rfl⟩ | ⟨comma, more, tail, rfl, hcomma, rfl, htail⟩
    · exact ⟨l :: (used ++ [r]), by simp, .some hl (.one hfirst) hr⟩
    · exact ⟨l :: (used ++ comma :: more ++ [r]), by simp, .some hl (.more hfirst hcomma htail) hr⟩

theorem primary (hvalue : Sound value valuePhrase) :
    Sound (primary n value) (OperandOf operandPhrase valuePhrase) := by
  intro ts e rest h
  rw [primary_apply] at h
  have hts : (current ts).kind ≠ .endOfInput → ts = current ts :: afterCurrent ts :=
    eq_cons_afterCurrent rfl
  generalize current ts = t at h hts
  generalize afterCurrent ts = us at h hts
  have hsingle {x : Expr} (hend : t.kind ≠ .endOfInput)
      (hx : OperandOf operandPhrase valuePhrase [t] x)
      (hpure : (pure x : Parser Expr) us = .ok (e, rest)) :
      ∃ used, ts = used ++ rest ∧ OperandOf operandPhrase valuePhrase used e := by
    obtain ⟨rfl, rfl⟩ : x = e ∧ us = rest := by simpa [pure_apply] using hpure
    exact ⟨[t], hts hend, hx⟩
  obtain ⟨kind, hkind⟩ : ∃ kind, t.kind = kind := ⟨_, rfl⟩
  rw [primaryAfter, hkind] at h
  cases kind
  case number =>
    change numberLiteral t.value us = _ at h
    cases hx : Number.ofText? t.value with
    | none =>
        rw [numberLiteral_of_eq_none hx] at h
        cases h
    | some x =>
        rw [numberLiteral_of_eq_some hx] at h
        exact hsingle (by simp [hkind]) (.number hkind hx) h
  case string => exact hsingle (by simp [hkind]) (.string hkind) h
  case trueWord => exact hsingle (by simp [hkind]) (.true hkind) h
  case falseWord => exact hsingle (by simp [hkind]) (.false hkind) h
  case nullWord => exact hsingle (by simp [hkind]) (.null hkind) h
  case identifier =>
    change nameOrCall n value t.value us = _ at h
    rw [nameOrCall] at h
    by_cases hcall : (current us).kind = .leftParen
    · rw [if_pos hcall] at h
      obtain ⟨args, last, hargs, hlast⟩ := bind_eq_ok.mp h
      obtain ⟨rfl, rfl⟩ : _ = e ∧ last = rest := by simpa [pure_apply] using hlast
      obtain ⟨used, rfl, hphrase⟩ := listOf hvalue _ _ _ hargs
      exact ⟨t :: used, hts (by simp [hkind]), .call hkind hphrase⟩
    · rw [if_neg hcall] at h
      exact hsingle (by simp [hkind]) (.name hkind) h
  case leftParen =>
    obtain ⟨inner, closing, hinner, hclosing⟩ := bind_eq_ok.mp h
    obtain ⟨r, last, hclose, hlast⟩ := bind_eq_ok.mp hclosing
    obtain ⟨rfl, rfl⟩ : inner = e ∧ last = rest := by simpa [pure_apply] using hlast
    obtain ⟨rfl, hr⟩ := eq_cons_of_expect (by decide) hclose
    obtain ⟨used, rfl, hphrase⟩ := hvalue _ _ _ hinner
    exact ⟨t :: (used ++ [r]), by simpa using hts (by simp [hkind]), .parens hkind hphrase hr⟩
  all_goals simp [fail] at h

theorem operand (depth : Nat) : Sound (operand Expr.negated n depth) (OperandAt depth) := by
  induction depth with
  | zero => exact fun ts e rest h => by simp [Parser.operand, tooDeep] at h
  | succ depth ih =>
      intro ts e rest h
      rw [operand_succ_apply] at h
      split at h
      case h_1 hkind =>
        obtain ⟨inner, last, hinner, hlast⟩ := bind_eq_ok.mp h
        obtain ⟨rfl, rfl⟩ : _ = e ∧ last = rest := by simpa [pure_apply] using hlast
        obtain ⟨used, hused, hphrase⟩ := ih _ _ _ hinner
        exact ⟨current ts :: used, by simpa [hused] using eq_cons_afterCurrent hkind (by decide),
          .not hkind hphrase⟩
      case h_2 hkind =>
        obtain ⟨inner, last, hinner, hlast⟩ := bind_eq_ok.mp h
        obtain ⟨rfl, rfl⟩ : _ = e ∧ last = rest := by simpa [pure_apply] using hlast
        obtain ⟨used, hused, hphrase⟩ := ih _ _ _ hinner
        exact ⟨current ts :: used, by simpa [hused] using eq_cons_afterCurrent hkind (by decide),
          .negated hkind hphrase⟩
      case h_3 => exact primary ih.expressionOf _ _ _ h

theorem expression (depth : Nat) :
    Sound (expression Expr.negated n depth) (ExpressionAt depth) := (operand depth).expressionOf

/-! ## Statements -/

end Sound

/-- What a reader of statements takes is a simple statement with its end, or a compound one with
the line ends after it. -/
def SoundStatement (p : Parser Stmt) (simple compound : Phrase Stmt) : Prop :=
  ∀ ts a rest, p ts = .ok (a, rest) →
    (∃ used after, ts = used ++ after ∧ simple used a ∧ endStatement after = .ok ((), rest)) ∨
    (∃ used lines, ts = used ++ (lines ++ rest) ∧ compound used a ∧
      ∀ t ∈ lines, t.kind = .newline)

namespace Sound

variable {n : Nat} {ends : TokenKind → Bool} {value : Parser Expr}
  {one : Parser Stmt} {body : Parser (List Stmt)} {valuePhrase : Phrase Expr}
  {blockPhrase : Phrase (List Stmt)}
  {simple compound : Phrase Stmt}

theorem statementsFrom (h : SoundStatement one simple compound)
    (hsimple : Starts TokenKind.startsStatement simple)
    (hcompound : Starts TokenKind.startsStatement compound) :
    ∀ {n read ts all rest}, Parser.statementsFrom one ends n read ts = .ok (all, rest) →
      ∃ used more, ts = used ++ rest ∧ all = read.reverse ++ more ∧
        ListOf simple compound used more := by
  intro n
  induction n with
  | zero =>
      intro read ts all rest hread
      obtain ⟨rfl, rfl⟩ : read.reverse = all ∧ ts = rest := by
        simpa [Parser.statementsFrom, pure_apply] using hread
      exact ⟨[], [], rfl, by simp, .done⟩
  | succ n ih =>
      intro read ts all rest hread
      rw [statementsFrom_succ_apply] at hread
      by_cases hends : ends (current ts).kind = true
      · rw [if_pos hends] at hread
        obtain ⟨rfl, rfl⟩ : read.reverse = all ∧ ts = rest := by simpa using hread
        exact ⟨[], [], rfl, by simp, .done⟩
      rw [if_neg hends] at hread
      by_cases hline : (current ts).kind = .newline
      · rw [if_pos hline] at hread
        obtain ⟨used, more, hused, rfl, hlist⟩ := ih hread
        exact ⟨current ts :: used, more,
          by simpa [hused] using eq_cons_afterCurrent hline (by decide), rfl, .lineEnd hline hlist⟩
      rw [if_neg hline] at hread
      obtain ⟨next, middle, hnext, hmore⟩ := bind_eq_ok.mp hread
      obtain ⟨used, more, rfl, rfl, hlist⟩ := ih hmore
      rcases h _ _ _ hnext with
        ⟨first, after, rfl, hfirst, hend⟩ | ⟨first, lines, rfl, hfirst, hlines⟩
      · obtain ⟨hend, hafter⟩ := endStatement_eq_ok.mp hend
        by_cases hnewline : (current after).kind = .newline
        · rw [afterLineEnd_of_eq hnewline] at hafter
          have hsplit := eq_cons_afterCurrent hnewline (by decide)
          rw [← hafter] at hsplit
          refine ⟨first ++ current after :: used, next :: more, ?_, by simp,
            .simple hfirst hnewline hlist⟩
          rw [List.append_assoc, List.cons_append, ← hsplit]
        · -- The statement stands before the end of the list, so nothing more was read.
          rw [afterLineEnd_of_ne hnewline] at hafter
          subst hafter
          have hcloses : (current (used ++ rest)).kind.closesList = true := by
            simpa [TokenKind.endsSimple, hnewline] using hend
          obtain ⟨rfl, rfl⟩ := hlist.eq_nil_of_closesList hsimple hcompound hcloses
          exact ⟨first, [next], rfl, by simp, .last hfirst⟩
      · exact ⟨first ++ (lines ++ used), next :: more, by simp, by simp,
          .compound hfirst (hlist.lineEnds hlines)⟩

theorem block (h : SoundStatement one simple compound)
    (hsimple : Starts TokenKind.startsStatement simple)
    (hcompound : Starts TokenKind.startsStatement compound) :
    Sound (block n one) (Block (ListOf simple compound)) := by
  intro ts read rest hread
  rw [block_apply] at hread
  obtain ⟨l, inside, hopen, hinside⟩ := bind_eq_ok.mp hread
  obtain ⟨all, closing, hall, hclosing⟩ := bind_eq_ok.mp hinside
  obtain ⟨r, last, hclose, hlast⟩ := bind_eq_ok.mp hclosing
  obtain ⟨rfl, rfl⟩ : all = read ∧ last = rest := by simpa [pure_apply] using hlast
  obtain ⟨rfl, hl⟩ := eq_cons_of_expect (by decide) hopen
  obtain ⟨rfl, hr⟩ := eq_cons_of_expect (by decide) hclose
  obtain ⟨used, more, hused, rfl, hlist⟩ := statementsFrom h hsimple hcompound hall
  obtain ⟨line, hline, hbreak⟩ := exists_break inside
  rw [hline, hused]
  cases hbreak with
  | none => exact ⟨l :: (used ++ [r]), by simp, .intro hl hlist hr⟩
  | @one t ht => exact ⟨l :: (t :: used ++ [r]), by simp, .intro hl (.lineEnd ht hlist) hr⟩

theorem clause (hvalue : Sound value valuePhrase) (hbody : Sound body blockPhrase) :
    Sound (clause value body) (Clause valuePhrase blockPhrase) := by
  intro ts read rest h
  rw [clause_apply] at h
  obtain ⟨test, middle, htest, hafter⟩ := bind_eq_ok.mp h
  obtain ⟨block, last, hblock, hlast⟩ := bind_eq_ok.mp hafter
  obtain ⟨rfl, rfl⟩ : (test, block) = read ∧ last = rest := by simpa [pure_apply] using hlast
  obtain ⟨used, rfl, hcondition⟩ := hvalue _ _ _ htest
  obtain ⟨taken, htaken, hguarded⟩ := hbody _ _ _ hblock
  obtain ⟨line, hline, hbreak⟩ := exists_break middle
  rw [hline, htaken]
  exact ⟨used ++ (line ++ taken), by simp, .intro hcondition hbreak hguarded⟩

theorem alternative (hvalue : Sound value valuePhrase) (hbody : Sound body blockPhrase) :
    ∀ {n clauses ts read rest}, Parser.alternative value body n clauses ts = .ok (read, rest) →
      ∃ used line next, ts = used ++ (line ++ rest) ∧ Break line ∧
        read = .afterClauses clauses.reverse next ∧
        AlternativeOf valuePhrase blockPhrase used next := by
  intro n
  induction n with
  | zero =>
      intro clauses ts read rest h
      obtain ⟨rfl, rfl⟩ : _ = read ∧ ts = rest := by
        simpa [Parser.alternative, pure_apply] using h
      exact ⟨[], [], .nothing, rfl, .none, rfl, .nothing⟩
  | succ n ih =>
      intro clauses ts read rest h
      rw [alternative_succ_apply] at h
      obtain ⟨before, hbefore, hbreak⟩ := exists_break ts
      by_cases helseIf : (current (afterLineEnd ts)).kind = .elseIf
      · rw [if_pos helseIf] at h
        obtain ⟨guarded, middle, hguarded, hmore⟩ := bind_eq_ok.mp h
        obtain ⟨used, hused, hclause⟩ := clause hvalue hbody _ _ _ hguarded
        obtain ⟨more, line, next, rfl, hline, rfl, hnext⟩ := ih hmore
        have hsplit := eq_cons_afterCurrent helseIf (by decide)
        refine ⟨before ++ current (afterLineEnd ts) :: (used ++ more), line, _, ?_, hline,
          Alternative.afterClauses_reverse_cons _ _ _, .elseIf hbreak helseIf hclause hnext⟩
        rw [List.append_assoc, List.cons_append, List.append_assoc, ← hused, ← hsplit]
        exact hbefore
      rw [if_neg helseIf] at h
      by_cases helse : (current (afterLineEnd ts)).kind = .elseWord
      · rw [if_pos helse] at h
        obtain ⟨block, last, hblock, hlast⟩ := bind_eq_ok.mp h
        obtain ⟨rfl, rfl⟩ : _ = read ∧ last = rest := by simpa [pure_apply] using hlast
        obtain ⟨used, hused, hphrase⟩ := hbody _ _ _ hblock
        obtain ⟨after, hafter, hline⟩ := exists_break (afterCurrent (afterLineEnd ts))
        have hsplit := eq_cons_afterCurrent helse (by decide)
        refine ⟨before ++ current (afterLineEnd ts) :: (after ++ used), [], _, ?_, .none, rfl,
          .otherwise hbreak helse hline hphrase⟩
        rw [List.nil_append, List.append_assoc, List.cons_append, List.append_assoc, ← hused,
          ← hafter, ← hsplit]
        exact hbefore
      · rw [if_neg helse] at h
        obtain ⟨rfl, rfl⟩ : _ = read ∧ afterLineEnd ts = rest := by simpa using h
        exact ⟨[], before, .nothing, hbefore, hbreak, rfl, .nothing⟩

theorem binding (hvalue : Sound value valuePhrase) {ts rest : List Token} {e : Expr}
    (h : binding value ts = .ok (e, rest)) :
    ∃ is used after, ts = is :: (used ++ after) ∧ is.kind = .assign ∧ valuePhrase used e ∧
      endStatement after = .ok ((), rest) := by
  obtain ⟨is, middle, hfirst, hmore⟩ := bind_eq_ok.mp h
  obtain ⟨bound, after, hbound, hafter⟩ := bind_eq_ok.mp hmore
  obtain ⟨_, last, hend, hlast⟩ := bind_eq_ok.mp hafter
  obtain ⟨rfl, rfl⟩ : bound = e ∧ last = rest := by simpa [pure_apply] using hlast
  obtain ⟨rfl, his⟩ := eq_cons_of_expect (by decide) hfirst
  obtain ⟨used, rfl, hphrase⟩ := hvalue _ _ _ hbound
  exact ⟨is, used, after, rfl, his, hphrase, hend⟩

theorem parameter : Sound (Token.value <$> expect .identifier) Parameter := by
  intro ts name rest h
  rw [map_apply] at h
  obtain ⟨t, last, ht, hlast⟩ := bind_eq_ok.mp h
  obtain ⟨rfl, rfl⟩ : t.value = name ∧ last = rest := by simpa [pure_apply] using hlast
  obtain ⟨rfl, hkind⟩ := eq_cons_of_expect (by decide) ht
  exact ⟨[t], rfl, .intro hkind⟩

/-- A keyword that a block belongs to begins a statement with a block, and the line ends after it
are taken with it. -/
theorem compoundAfter (hvalue : Sound value valuePhrase) (hbody : Sound body blockPhrase)
    {t : Token} {ts rest : List Token} {a : Stmt}
    (hkind : t.kind = .ifWord ∨ t.kind = .whileWord ∨ t.kind = .functionWord)
    (h : statementAfter n value body t ts = .ok (a, rest)) :
    ∃ used lines, t :: ts = used ++ (lines ++ rest) ∧ Compound valuePhrase blockPhrase used a ∧
      ∀ t ∈ lines, t.kind = .newline := by
  unfold Parser.statementAfter at h
  rcases hkind with hkind | hkind | hkind <;> rw [hkind] at h
  · obtain ⟨⟨condition, block⟩, middle, hguarded, hmore⟩ := bind_eq_ok.mp h
    obtain ⟨otherwise, after, hotherwise, hline⟩ := bind_eq_ok.mp hmore
    rw [skipLineEnd_bind_apply] at hline
    obtain ⟨rfl, rfl⟩ : _ = a ∧ afterLineEnd after = rest := by simpa [pure_apply] using hline
    obtain ⟨used, rfl, hclause⟩ := clause hvalue hbody _ _ _ hguarded
    obtain ⟨more, line, next, rfl, hbreak, rfl, hnext⟩ := alternative hvalue hbody hotherwise
    obtain ⟨last, hlast, hbreak'⟩ := exists_break after
    refine ⟨t :: (used ++ more), line ++ last, ?_, .ifThen hkind hclause hnext, ?_⟩
    · rw [List.append_assoc, ← hlast]
      simp
    · intro t ht
      rcases List.mem_append.mp ht with ht | ht
      · exact hbreak.isLineEnd t ht
      · exact hbreak'.isLineEnd t ht
  · obtain ⟨⟨condition, block⟩, after, hguarded, hline⟩ := bind_eq_ok.mp h
    change (skipLineEnd >>= _) _ = _ at hline
    rw [skipLineEnd_bind_apply] at hline
    obtain ⟨rfl, rfl⟩ : _ = a ∧ afterLineEnd after = rest := by simpa [pure_apply] using hline
    obtain ⟨used, rfl, hclause⟩ := clause hvalue hbody _ _ _ hguarded
    obtain ⟨last, hlast, hbreak⟩ := exists_break after
    refine ⟨t :: used, last, ?_, .whileDo hkind hclause, hbreak.isLineEnd⟩
    rw [← hlast]
    rfl
  · obtain ⟨name, middle, hfirst, hmore⟩ := bind_eq_ok.mp h
    obtain ⟨params, inside, hparams, hinside⟩ := bind_eq_ok.mp hmore
    rw [skipLineEnd_bind_apply] at hinside
    obtain ⟨block, after, hblock, hline⟩ := bind_eq_ok.mp hinside
    rw [skipLineEnd_bind_apply] at hline
    obtain ⟨rfl, rfl⟩ : _ = a ∧ afterLineEnd after = rest := by simpa [pure_apply] using hline
    obtain ⟨rfl, hname⟩ := eq_cons_of_expect (by decide) hfirst
    obtain ⟨used, rfl, hlisted⟩ := listOf parameter _ _ _ hparams
    obtain ⟨taken, htaken, hphrase⟩ := hbody _ _ _ hblock
    obtain ⟨line, hinside, hbreak⟩ := exists_break inside
    obtain ⟨last, hlast, hbreak'⟩ := exists_break after
    refine ⟨t :: name :: (used ++ (line ++ taken)), last, ?_,
      .function hkind hname hlisted hbreak hphrase, hbreak'.isLineEnd⟩
    rw [← hlast, hinside, htaken]
    simp

/-- Any other token begins a statement without a block or none, and its end is taken with it. -/
theorem simpleAfter (hvalue : Sound value valuePhrase) {t : Token} {ts rest : List Token}
    {a : Stmt} (hnot : ¬ (t.kind = .ifWord ∨ t.kind = .whileWord ∨ t.kind = .functionWord))
    (h : statementAfter n value body t ts = .ok (a, rest)) :
    ∃ used after, t :: ts = used ++ after ∧ Simple valuePhrase used a ∧
      endStatement after = .ok ((), rest) := by
  obtain ⟨kind, hkind⟩ : ∃ kind, t.kind = kind := ⟨_, rfl⟩
  unfold Parser.statementAfter at h
  rw [hkind] at h hnot
  cases kind
  case declare =>
    obtain ⟨name, middle, hfirst, hmore⟩ := bind_eq_ok.mp h
    obtain ⟨e, last, hbinding, hlast⟩ := bind_eq_ok.mp hmore
    obtain ⟨rfl, rfl⟩ : _ = a ∧ last = rest := by simpa [pure_apply] using hlast
    obtain ⟨rfl, hname⟩ := eq_cons_of_expect (by decide) hfirst
    obtain ⟨is, used, after, rfl, his, hphrase, hend⟩ := binding hvalue hbinding
    exact ⟨t :: name :: is :: used, after, rfl, .declare hkind hname his hphrase, hend⟩
  case identifier =>
    obtain ⟨next, middle, hpeek, hmore⟩ := bind_eq_ok.mp h
    obtain ⟨rfl, rfl⟩ : current ts = next ∧ ts = middle := by simpa [peek] using hpeek
    by_cases hcall : (current ts).kind = .leftParen
    · rw [if_pos hcall] at hmore
      simp [fail] at hmore
    · rw [if_neg hcall] at hmore
      obtain ⟨e, last, hbinding, hlast⟩ := bind_eq_ok.mp hmore
      obtain ⟨rfl, rfl⟩ : _ = a ∧ last = rest := by simpa [pure_apply] using hlast
      obtain ⟨is, used, after, rfl, his, hphrase, hend⟩ := binding hvalue hbinding
      exact ⟨t :: is :: used, after, rfl, .assign hkind his hphrase, hend⟩
  case print =>
    obtain ⟨e, after, hshown, hmore⟩ := bind_eq_ok.mp h
    obtain ⟨_, last, hend, hlast⟩ := bind_eq_ok.mp hmore
    obtain ⟨rfl, rfl⟩ : _ = a ∧ last = rest := by simpa [pure_apply] using hlast
    obtain ⟨used, rfl, hphrase⟩ := hvalue _ _ _ hshown
    exact ⟨t :: used, after, rfl, .print hkind hphrase, hend⟩
  case breakWord =>
    obtain ⟨_, last, hend, hlast⟩ := bind_eq_ok.mp h
    obtain ⟨rfl, rfl⟩ : _ = a ∧ last = rest := by simpa [pure_apply] using hlast
    exact ⟨[t], ts, rfl, .breakLoop hkind, hend⟩
  case continueWords =>
    obtain ⟨_, last, hend, hlast⟩ := bind_eq_ok.mp h
    obtain ⟨rfl, rfl⟩ : _ = a ∧ last = rest := by simpa [pure_apply] using hlast
    exact ⟨[t], ts, rfl, .continueLoop hkind, hend⟩
  case returnWord =>
    obtain ⟨next, middle, hpeek, hmore⟩ := bind_eq_ok.mp h
    obtain ⟨rfl, rfl⟩ : current ts = next ∧ ts = middle := by simpa [peek] using hpeek
    by_cases hnothing : (current ts).kind = .newline ∨ (current ts).kind.closesList = true
    · rw [if_pos hnothing, skipLineEnd_bind_apply] at hmore
      obtain ⟨rfl, rfl⟩ : _ = a ∧ afterLineEnd ts = rest := by simpa [pure_apply] using hmore
      exact ⟨[t], ts, rfl, .returnNothing hkind,
        endStatement_eq_ok.mpr ⟨by simpa [TokenKind.endsSimple] using hnothing, rfl⟩⟩
    · rw [if_neg hnothing] at hmore
      obtain ⟨e, after, hresult, hmore⟩ := bind_eq_ok.mp hmore
      obtain ⟨_, last, hend, hlast⟩ := bind_eq_ok.mp hmore
      obtain ⟨rfl, rfl⟩ : _ = a ∧ last = rest := by simpa [pure_apply] using hlast
      obtain ⟨used, rfl, hphrase⟩ := hvalue _ _ _ hresult
      exact ⟨t :: used, after, rfl, .returnValue hkind hphrase, hend⟩
  case ifWord | whileWord | functionWord => simp at hnot
  all_goals simp [fail] at h

/-- What is read after the first token of a statement, and its end. -/
theorem statementAfter (hvalue : Sound value valuePhrase) (hbody : Sound body blockPhrase)
    {t : Token} {ts rest : List Token} {a : Stmt}
    (h : statementAfter n value body t ts = .ok (a, rest)) :
    (∃ used after, t :: ts = used ++ after ∧ Simple valuePhrase used a ∧
      endStatement after = .ok ((), rest)) ∨
    (∃ used lines, t :: ts = used ++ (lines ++ rest) ∧ Compound valuePhrase blockPhrase used a ∧
      ∀ t ∈ lines, t.kind = .newline) := by
  by_cases hkind : t.kind = .ifWord ∨ t.kind = .whileWord ∨ t.kind = .functionWord
  · exact .inr (compoundAfter hvalue hbody hkind h)
  · exact .inl (simpleAfter hvalue hkind h)

theorem statement (depth : Nat) :
    SoundStatement (Parser.statement Expr.negated n depth) (SimpleAt depth)
      (CompoundAt depth) := by
  induction depth with
  | zero => exact fun ts a rest h => by simp [Parser.statement, tooDeep] at h
  | succ depth ih =>
      intro ts a rest h
      rw [statement_succ_apply] at h
      have hend : (current ts).kind ≠ .endOfInput := by
        intro hend
        simp [Parser.statementAfter, hend, fail] at h
      rw [eq_cons_afterCurrent rfl hend]
      exact statementAfter (expression depth)
        (block ih (starts_simpleAt depth) (starts_compoundAt depth)) h

theorem statements {depth : Nat} {ts rest : List Token} {all : List Stmt}
    (h : Parser.statementsFrom (Parser.statement Expr.negated n depth) ends n [] ts =
      .ok (all, rest)) :
    ∃ used, ts = used ++ rest ∧ StatementsAt depth used all := by
  obtain ⟨used, more, rfl, rfl, hphrase⟩ :=
    statementsFrom (statement depth) (starts_simpleAt depth) (starts_compoundAt depth) h
  exact ⟨used, rfl, hphrase⟩

/-- A program that is read stands at the front of the tokens, and what follows it is free. -/
theorem program {depth : Nat} {ts rest : List Token} {P : Program}
    (h : program Expr.negated n depth ts = .ok (P, rest)) : Marked (StatementsAt depth) ts P := by
  obtain ⟨start, body, hfirst, hbody⟩ := bind_eq_ok.mp h
  obtain ⟨_, inside, hend, hinside⟩ := bind_eq_ok.mp hbody
  obtain ⟨all, closing, hall, hclosing⟩ := bind_eq_ok.mp hinside
  obtain ⟨stop, last, hclose, hlast⟩ := bind_eq_ok.mp hclosing
  obtain ⟨rfl, rfl⟩ : _ = P ∧ last = rest := by simpa [pure_apply] using hlast
  obtain ⟨rfl, hstart⟩ := eq_cons_of_expect (by decide) hfirst
  obtain ⟨rfl, hstop⟩ := eq_cons_of_expect (by decide) hclose
  obtain ⟨used, rfl, hphrase⟩ := statements hall
  obtain ⟨hends, hafter⟩ := endStatement_eq_ok.mp hend
  by_cases hline : (current body).kind = .newline
  · rw [afterLineEnd_of_eq hline] at hafter
    rw [eq_cons_afterCurrent hline (by decide), ← hafter]
    exact .intro hstart hline hphrase hstop
  · -- The closing marker is all that is left to stand here.
    rw [afterLineEnd_of_ne hline] at hafter
    subst hafter
    obtain ⟨rfl, rfl⟩ := hphrase.eq_nil_of_closesList (starts_simpleAt depth)
      (starts_compoundAt depth) (by simpa [TokenKind.endsSimple, hline] using hends)
    exact .empty hstart hstop

/-- A fragment that is read takes all tokens up to an end of the input. -/
theorem fragment {depth : Nat} {ts rest : List Token} {P : Program}
    (h : fragment Expr.negated n depth ts = .ok (P, rest)) :
    ∃ used, ts = used ++ rest ∧ (current rest).kind = .endOfInput ∧
      StatementsAt depth used P.statements := by
  obtain ⟨all, closing, hall, hclosing⟩ := bind_eq_ok.mp h
  obtain ⟨stop, last, hstop, hlast⟩ := bind_eq_ok.mp hclosing
  obtain ⟨rfl, rfl⟩ : _ = P ∧ last = rest := by simpa [pure_apply] using hlast
  obtain ⟨used, rfl, hphrase⟩ := statements hall
  obtain ⟨hend, -, rfl⟩ := expect_eq_ok.mp hstop
  rw [afterCurrent_of_end hend]
  exact ⟨used, rfl, hend, hphrase⟩

end Sound

end Parser

end Bol
