/-
# What is printed derives the tree

Tokens for the words that a tree is written as are a phrase of the grammar, and the phrase stands
for the tree. The parentheses that are written are those that the precedences of the grammar ask
for, and the nesting of what is written bounds how deeply its derivation is nested.
-/

import Bol.Proofs.Program.Nesting
import Bol.Proofs.Source.Print

namespace Bol

open Grammar

variable {spell : Float → Numeral} {depth : Nat} {ts : List Token}

/-! ## Precedence -/

namespace Grammar

variable {operand : Phrase Expr} {e : Expr}

/-- The phrases of a precedence and above, over the given operands. -/
def atLevel (operand : Phrase Expr) : (level : Nat) → Phrase Expr
  | 0 | 1 => expressionOf operand
  | 2 =>
    Joined (· == .andWord) <| Compared <| Joined TokenKind.isAdditive <|
      Joined TokenKind.isMultiplicative operand
  | 3 => Compared <| Joined TokenKind.isAdditive <| Joined TokenKind.isMultiplicative operand
  | 4 => Joined TokenKind.isAdditive <| Joined TokenKind.isMultiplicative operand
  | 5 => Joined TokenKind.isMultiplicative operand
  | _ => operand

theorem atLevel_of_succ {level : Nat} (h : atLevel operand (level + 1) ts e) :
    atLevel operand level ts e :=
  match level with
  | 0 => h
  | 1 | 2 | 3 | 4 | 5 => .single h
  | _ + 6 => h

/-- An expression of a higher precedence may stand where a lower one is asked for. -/
theorem atLevel_of_le {level level' : Nat} (hle : level ≤ level')
    (h : atLevel operand level' ts e) : atLevel operand level ts e := by
  induction hle with
  | refl => exact h
  | step _ ih => exact ih (atLevel_of_succ h)

theorem atLevel_of_operand (level : Nat) (h : operand ts e) : atLevel operand level ts e :=
  atLevel_of_le (Nat.le_add_right level 6) h

/-- An operation of two operands is a phrase of its precedence. -/
theorem atLevel_binary {op : BinaryOp} (hop : op ∈ BinaryOp.all) {left right : List Token}
    {t : Token} {a b : Expr} (hleft : atLevel operand op.leftLevel left a)
    (ht : t.word = op.word) (hright : atLevel operand (op.level + 1) right b) :
    atLevel operand op.level (left ++ t :: right) (.binary op a b) := by
  have hkind : t.kind = op.kind := congrArg Word.kind ht
  suffices h : atLevel operand op.level (left ++ t :: right) (.binary (.ofSpelling t.value) a b) by
    rwa [BinaryOp.ofSpelling_value hop ht] at h
  cases op with
  | or | and | add | sub | mul | div => exact .more hleft (by rw [hkind]; rfl) hright
  | equal | notEqual | less | greater | lessEqual | greaterEqual =>
      exact .pair hleft (by rw [hkind]; rfl) hright
  | other spelling => simp [BinaryOp.all] at hop

end Grammar

/-! ## Expressions -/

/-- Minus signs and digits are an operand, which stands for the number they spell. -/
theorem Numeral.derives {numeral : Numeral} {value : Float} (hvalue : numeral.Spells value)
    (hdepth : numeral.signs + 1 ≤ depth) (hts : ts.map Token.word = numeral.words) :
    OperandAt depth ts (.number value) := by
  obtain ⟨signs, digits⟩ := numeral
  obtain ⟨-, y, hy, rfl⟩ := hvalue
  rw [Numeral.words] at hts
  dsimp only at hdepth hts hy ⊢
  induction signs generalizing depth ts with
  | zero =>
      obtain ⟨depth, rfl⟩ := Nat.exists_eq_add_of_le' hdepth
      obtain ⟨t, rfl, ht⟩ := List.map_eq_singleton_iff.mp hts
      obtain rfl : t.value = digits := congrArg Word.value ht
      exact .number (congrArg Word.kind ht) hy
  | succ signs ih =>
      obtain ⟨depth, rfl⟩ := Nat.exists_eq_add_of_le' (Nat.le_of_add_left_le hdepth)
      obtain ⟨t, ts, rfl, ht, hts⟩ := List.map_eq_cons_iff.mp hts
      exact .minusNumber (congrArg Word.kind ht) (ih (by omega) hts)

namespace Expr

/-- Tokens for the words of the expression are a phrase of its precedence. -/
def Derives (spell : Float → Numeral) (e : Expr) : Prop :=
  ∀ depth ts, e.nesting spell ≤ depth → ts.map Token.word = e.words spell →
    atLevel (OperandAt depth) e.level ts e

theorem Derives.wrapped {e : Expr} (h : e.Derives spell) (level : Nat)
    (hdepth : wrappedNesting level e.level (e.nesting spell) ≤ depth)
    (hts : ts.map Token.word = wrapped level e.level (e.words spell)) :
    atLevel (OperandAt depth) level ts e := by
  unfold Bol.wrapped at hts
  unfold wrappedNesting at hdepth
  split at hts
  next hloose =>
    rw [if_pos hloose] at hdepth
    obtain ⟨depth, rfl⟩ := Nat.exists_eq_add_of_le' (Nat.le_of_add_left_le hdepth)
    obtain ⟨l, rest, rfl, hl, hrest⟩ := List.map_eq_cons_iff.mp hts
    obtain ⟨us, last, rfl, hus, hlast⟩ := List.map_eq_append_iff.mp hrest
    obtain ⟨r, rfl, hr⟩ := List.map_eq_singleton_iff.mp hlast
    have hinner := atLevel_of_le (Nat.zero_le _) (h depth us (by omega) hus)
    exact atLevel_of_operand level
      (.parens (congrArg Word.kind hl) hinner (congrArg Word.kind hr))
  next htight =>
    rw [if_neg htight] at hdepth
    exact atLevel_of_le (Nat.le_of_not_lt htight) (h depth ts hdepth hts)

theorem Derives.expression {e : Expr} (h : e.Derives spell) (hdepth : e.nesting spell ≤ depth)
    (hts : ts.map Token.word = e.words spell) : ExpressionAt depth ts e :=
  atLevel_of_le (Nat.zero_le _) (h depth ts hdepth hts)

theorem Derives.listed {e : Expr} {rest : List Expr}
    (h : ∀ arg ∈ e :: rest, arg.Derives spell)
    (hdepth : listNesting spell (e :: rest) ≤ depth)
    (hts : ts.map Token.word = listWords spell (e :: rest)) :
    Listed (ExpressionAt depth) ts (e :: rest) := by
  induction rest generalizing e ts with
  | nil =>
      simp only [listNesting, Nat.max_zero] at hdepth
      exact .one ((h e List.mem_cons_self).expression hdepth hts)
  | cons other rest ih =>
      rw [List.forall_mem_cons] at h
      rw [listNesting, Nat.max_le] at hdepth
      obtain ⟨us, vs, rfl, hus, hvs⟩ := List.map_eq_append_iff.mp hts
      obtain ⟨comma, vs, rfl, hcomma, hvs⟩ := List.map_eq_cons_iff.mp hvs
      exact .more (h.1.expression hdepth.1 hus) (congrArg Word.kind hcomma) (ih h.2 hdepth.2 hvs)

theorem Printable.derives (hspell : IsSpelling spell) {e : Expr} (h : e.Printable) :
    e.Derives spell := by
  induction h with
  | number h => exact fun depth ts hdepth hts => Numeral.derives (hspell _ h) hdepth hts
  | @string value _ =>
      intro depth ts hdepth hts
      obtain ⟨depth, rfl⟩ := Nat.exists_eq_add_of_le' hdepth
      obtain ⟨t, rfl, ht⟩ := List.map_eq_singleton_iff.mp hts
      obtain rfl : t.value = value := congrArg Word.value ht
      exact .string (congrArg Word.kind ht)
  | @name name _ =>
      intro depth ts hdepth hts
      obtain ⟨depth, rfl⟩ := Nat.exists_eq_add_of_le' hdepth
      obtain ⟨t, rfl, ht⟩ := List.map_eq_singleton_iff.mp hts
      obtain rfl : t.value = name := congrArg Word.value ht
      exact .name (congrArg Word.kind ht)
  | null =>
      intro depth ts hdepth hts
      obtain ⟨depth, rfl⟩ := Nat.exists_eq_add_of_le' hdepth
      obtain ⟨t, rfl, ht⟩ := List.map_eq_singleton_iff.mp hts
      exact .null (congrArg Word.kind ht)
  | @boolean value =>
      intro depth ts hdepth hts
      obtain ⟨depth, rfl⟩ := Nat.exists_eq_add_of_le' hdepth
      obtain ⟨t, rfl, ht⟩ := List.map_eq_singleton_iff.mp hts
      cases value with
      | true => exact .true (congrArg Word.kind ht)
      | false => exact .false (congrArg Word.kind ht)
  | @binary op left right hop _ _ hleft hright =>
      intro depth ts hdepth hts
      rw [nesting, Nat.max_le] at hdepth
      obtain ⟨us, vs, rfl, hus, hvs⟩ := List.map_eq_append_iff.mp hts
      obtain ⟨t, vs, rfl, ht, hvs⟩ := List.map_eq_cons_iff.mp hvs
      exact atLevel_binary hop (hleft.wrapped _ hdepth.1 hus) ht (hright.wrapped _ hdepth.2 hvs)
  | @negate operand hnumber _ h =>
      intro depth ts hdepth hts
      obtain ⟨depth, rfl⟩ := Nat.exists_eq_add_of_le' (Nat.le_of_add_left_le hdepth)
      obtain ⟨t, us, rfl, ht, hus⟩ := List.map_eq_cons_iff.mp hts
      rw [nesting] at hdepth
      exact .minus (congrArg Word.kind ht) (h.wrapped 6 (by omega) hus) hnumber
  | not _ h =>
      intro depth ts hdepth hts
      obtain ⟨depth, rfl⟩ := Nat.exists_eq_add_of_le' (Nat.le_of_add_left_le hdepth)
      obtain ⟨t, us, rfl, ht, hus⟩ := List.map_eq_cons_iff.mp hts
      rw [nesting] at hdepth
      show OperandAt (depth + 1) (t :: us) (.unary .not _)
      rw [← UnaryOp.ofSpelling_value ht]
      exact .not (congrArg Word.kind ht) (h.wrapped 6 (by omega) hus)
  | @call callee args _ _ hargs =>
      intro depth ts hdepth hts
      obtain ⟨depth, rfl⟩ := Nat.exists_eq_add_of_le' (Nat.le_of_add_left_le hdepth)
      obtain ⟨t, vs, rfl, ht, hvs⟩ := List.map_eq_cons_iff.mp hts
      obtain ⟨l, vs, rfl, hl, hvs⟩ := List.map_eq_cons_iff.mp hvs
      obtain ⟨us, last, rfl, hus, hlast⟩ := List.map_eq_append_iff.mp hvs
      obtain ⟨r, rfl, hr⟩ := List.map_eq_singleton_iff.mp hlast
      obtain rfl : t.value = callee := congrArg Word.value ht
      apply OperandOf.call (congrArg Word.kind ht)
      cases args with
      | nil =>
          obtain rfl := List.map_eq_nil_iff.mp hus
          exact .none (congrArg Word.kind hl) (congrArg Word.kind hr)
      | cons e rest =>
          rw [nesting] at hdepth
          exact .some (congrArg Word.kind hl) (Derives.listed hargs (by omega) hus)
            (congrArg Word.kind hr)

end Expr

/-! ## Statements -/

/-- Tokens for the names of parameters in parentheses are a list of parameters. -/
theorem derives_nameWords {params : List String} {l r : Token} (hl : l.kind = .leftParen)
    (hr : r.kind = .rightParen) (hts : ts.map Token.word = nameWords params) :
    Parenthesised Parameter (l :: (ts ++ [r])) params := by
  cases params with
  | nil =>
      obtain rfl := List.map_eq_nil_iff.mp hts
      exact .none hl hr
  | cons name rest =>
      apply Parenthesised.some hl _ hr
      induction rest generalizing name ts with
      | nil =>
          obtain ⟨t, rfl, ht⟩ := List.map_eq_singleton_iff.mp hts
          obtain rfl : t.value = name := congrArg Word.value ht
          exact .one (.intro (congrArg Word.kind ht))
      | cons other rest ih =>
          obtain ⟨t, us, rfl, ht, hus⟩ := List.map_eq_cons_iff.mp hts
          obtain ⟨comma, us, rfl, hcomma, hus⟩ := List.map_eq_cons_iff.mp hus
          obtain rfl : t.value = name := congrArg Word.value ht
          have hfirst : Parameter [t] t.value := .intro (congrArg Word.kind ht)
          exact .more hfirst (congrArg Word.kind hcomma) (ih other hus)

namespace Stmt

/-- Tokens for the words of the statement are a statement and the end of its line. Only the lines
of the statement are not written. -/
def Derives (spell : Float → Numeral) (stmt : Stmt) : Prop :=
  ∀ depth ts, stmt.nesting spell ≤ depth → ts.map Token.word = stmt.words spell →
    ∃ us t found, ts = us ++ [t] ∧ t.kind = .newline ∧
      (SimpleAt depth us found ∨ CompoundAt depth us found) ∧
      found.withoutLines = stmt.withoutLines

theorem Derives.list {body : List Stmt} (h : ∀ stmt ∈ body, stmt.Derives spell)
    (hdepth : listNesting spell body ≤ depth)
    (hts : ts.map Token.word = listWords spell body) :
    ∃ found, StatementsAt depth ts found ∧
      listWithoutLines found = listWithoutLines body := by
  induction body generalizing ts with
  | nil =>
      obtain rfl := List.map_eq_nil_iff.mp hts
      exact ⟨[], .done, rfl⟩
  | cons stmt rest ih =>
      rw [List.forall_mem_cons] at h
      rw [listNesting, Nat.max_le] at hdepth
      obtain ⟨first, vs, rfl, hfirst, hvs⟩ := List.map_eq_append_iff.mp hts
      obtain ⟨others, hothers, hrest⟩ := ih h.2 hdepth.2 hvs
      obtain ⟨us, t, found, rfl, ht, hfound, hsame⟩ := h.1 depth first hdepth.1 hfirst
      refine ⟨found :: others, ?_, by rw [listWithoutLines, listWithoutLines, hsame, hrest]⟩
      rw [List.append_assoc]
      rcases hfound with hsimple | hcompound
      · exact .simple hsimple ht hothers
      · exact .compound hcompound (.lineEnd ht hothers)

theorem Derives.braced {body : List Stmt} (h : ∀ stmt ∈ body, stmt.Derives spell)
    (hdepth : listNesting spell body ≤ depth)
    (hts : ts.map Token.word = braced (listWords spell body)) :
    ∃ found, Block (StatementsAt depth) ts found ∧
      listWithoutLines found = listWithoutLines body := by
  obtain ⟨l, vs, rfl, hl, hvs⟩ := List.map_eq_cons_iff.mp hts
  obtain ⟨line, vs, rfl, hline, hvs⟩ := List.map_eq_cons_iff.mp hvs
  obtain ⟨us, last, rfl, hus, hlast⟩ := List.map_eq_append_iff.mp hvs
  obtain ⟨r, rfl, hr⟩ := List.map_eq_singleton_iff.mp hlast
  obtain ⟨found, hfound, hsame⟩ := Derives.list h hdepth hus
  have hlined := ListOf.lineEnd (congrArg Word.kind hline) hfound
  exact ⟨found, .intro (congrArg Word.kind hl) hlined (congrArg Word.kind hr), hsame⟩

end Stmt

/-- Tokens for the words of the alternative are an alternative and the end of the last line. -/
def Alternative.Derives (spell : Float → Numeral) (alternative : Alternative) : Prop :=
  ∀ depth ts, alternative.nesting spell ≤ depth → ts.map Token.word = alternative.words spell →
    ∃ us t found, ts = us ++ [t] ∧ t.kind = .newline ∧
      AlternativeOf (ExpressionAt depth) (Block (StatementsAt depth)) us
        found ∧
      found.withoutLines = alternative.withoutLines

/-- Tokens for the words of a condition and of the block that it guards are a clause, whatever is
written after it. -/
theorem derives_clause {condition : Expr} {body : List Stmt} {words : List Word}
    (hcondition : condition.Derives spell) (hbody : ∀ stmt ∈ body, stmt.Derives spell)
    (hdepth : max (condition.nesting spell) (Stmt.listNesting spell body) ≤ depth)
    (hts : ts.map Token.word =
      condition.words spell ++ (braced (Stmt.listWords spell body) ++ words)) :
    ∃ us vs found, ts = us ++ vs ∧ vs.map Token.word = words ∧
      Clause (ExpressionAt depth) (Block (StatementsAt depth)) us
        (condition, found) ∧
      Stmt.listWithoutLines found = Stmt.listWithoutLines body := by
  rw [Nat.max_le] at hdepth
  obtain ⟨test, rest, rfl, htest, hrest⟩ := List.map_eq_append_iff.mp hts
  obtain ⟨block, vs, rfl, hblock, hvs⟩ := List.map_eq_append_iff.mp hrest
  obtain ⟨found, hfound, hsame⟩ := Stmt.Derives.braced hbody hdepth.2 hblock
  have htest' := hcondition.expression hdepth.1 htest
  refine ⟨test ++ block, vs, found, (List.append_assoc ..).symm, hvs, ?_, hsame⟩
  exact .intro htest' .none hfound

/-- Tokens for the words of an expression and of the end of its line are an expression and a line
end. -/
theorem derives_line {value : Expr} (h : value.Derives spell)
    (hdepth : value.nesting spell ≤ depth)
    (hts : ts.map Token.word = value.words spell ++ [TokenKind.newline.word]) :
    ∃ us t, ts = us ++ [t] ∧ t.kind = .newline ∧ ExpressionAt depth us value := by
  obtain ⟨us, line, rfl, hus, hline⟩ := List.map_eq_append_iff.mp hts
  obtain ⟨t, rfl, ht⟩ := List.map_eq_singleton_iff.mp hline
  exact ⟨us, t, rfl, congrArg Word.kind ht, h.expression hdepth hus⟩

mutual

theorem Stmt.Printable.derives (hspell : IsSpelling spell) {stmt : Stmt} (h : stmt.Printable) :
    stmt.Derives spell := by
  intro depth ts hdepth hts
  obtain ⟨depth, rfl⟩ : ∃ n, depth = n + 1 := by
    apply Nat.exists_eq_add_of_le'
    cases h <;> simp only [Stmt.nesting] at hdepth <;> omega
  cases h with
  | @declare name value line _ h =>
      obtain ⟨t, vs, rfl, ht, hvs⟩ := List.map_eq_cons_iff.mp hts
      obtain ⟨text, vs, rfl, htext, hvs⟩ := List.map_eq_cons_iff.mp hvs
      obtain ⟨is, vs, rfl, his, hvs⟩ := List.map_eq_cons_iff.mp hvs
      obtain ⟨us, last, rfl, hlast, hvalue⟩ :=
        derives_line (h.derives hspell) (Nat.le_of_succ_le_succ hdepth) hvs
      obtain rfl : text.value = name := congrArg Word.value htext
      have hsimple := Simple.declare (congrArg Word.kind ht) (congrArg Word.kind htext)
        (congrArg Word.kind his) hvalue
      exact ⟨_, last, _, rfl, hlast, .inl hsimple, rfl⟩
  | @assign name value line _ h =>
      obtain ⟨text, vs, rfl, htext, hvs⟩ := List.map_eq_cons_iff.mp hts
      obtain ⟨is, vs, rfl, his, hvs⟩ := List.map_eq_cons_iff.mp hvs
      obtain ⟨us, last, rfl, hlast, hvalue⟩ :=
        derives_line (h.derives hspell) (Nat.le_of_succ_le_succ hdepth) hvs
      obtain rfl : text.value = name := congrArg Word.value htext
      have hsimple := Simple.assign (congrArg Word.kind htext) (congrArg Word.kind his) hvalue
      exact ⟨_, last, _, rfl, hlast, .inl hsimple, rfl⟩
  | print h =>
      obtain ⟨t, vs, rfl, ht, hvs⟩ := List.map_eq_cons_iff.mp hts
      obtain ⟨us, last, rfl, hlast, hvalue⟩ :=
        derives_line (h.derives hspell) (Nat.le_of_succ_le_succ hdepth) hvs
      exact ⟨_, last, _, rfl, hlast, .inl (Simple.print (congrArg Word.kind ht) hvalue), rfl⟩
  | ifThen hcondition hbody halternative =>
      simp only [Stmt.nesting, Nat.add_le_add_iff_right, ← Nat.max_assoc, Nat.max_le] at hdepth
      obtain ⟨t, vs, rfl, ht, hvs⟩ := List.map_eq_cons_iff.mp hts
      obtain ⟨clause, vs, found, rfl, hvs, hclause, hsame⟩ :=
        derives_clause (hcondition.derives hspell)
          (fun stmt hstmt => (hbody stmt hstmt).derives hspell) (Nat.max_le.mpr hdepth.1) hvs
      obtain ⟨us, last, next, rfl, hlast, hnext, hother⟩ :=
        halternative.derives hspell depth vs hdepth.2 hvs
      have hcompound := Compound.ifThen (congrArg Word.kind ht) hclause hnext
      refine ⟨t :: (clause ++ us), last, _, by simp, hlast, .inr hcompound, ?_⟩
      rw [Stmt.withoutLines, Stmt.withoutLines, hsame, hother]
  | whileDo hcondition hbody =>
      obtain ⟨t, vs, rfl, ht, hvs⟩ := List.map_eq_cons_iff.mp hts
      obtain ⟨clause, vs, found, rfl, hline, hclause, hsame⟩ :=
        derives_clause (hcondition.derives hspell)
          (fun stmt hstmt => (hbody stmt hstmt).derives hspell) (Nat.le_of_succ_le_succ hdepth) hvs
      obtain ⟨last, rfl, hlast⟩ := List.map_eq_singleton_iff.mp hline
      have hcompound := Compound.whileDo (congrArg Word.kind ht) hclause
      refine ⟨t :: clause, last, _, rfl, congrArg Word.kind hlast, .inr hcompound, ?_⟩
      rw [Stmt.withoutLines, Stmt.withoutLines, hsame]
  | @function name params body line _ _ hbody =>
      obtain ⟨t, vs, rfl, ht, hvs⟩ := List.map_eq_cons_iff.mp hts
      obtain ⟨text, vs, rfl, htext, hvs⟩ := List.map_eq_cons_iff.mp hvs
      obtain ⟨l, vs, rfl, hl, hvs⟩ := List.map_eq_cons_iff.mp hvs
      obtain ⟨names, vs, rfl, hnames, hvs⟩ := List.map_eq_append_iff.mp hvs
      obtain ⟨r, vs, rfl, hr, hvs⟩ := List.map_eq_cons_iff.mp hvs
      obtain ⟨block, line, rfl, hblock, hline⟩ := List.map_eq_append_iff.mp hvs
      obtain ⟨last, rfl, hlast⟩ := List.map_eq_singleton_iff.mp hline
      obtain rfl : text.value = name := congrArg Word.value htext
      obtain ⟨found, hfound, hsame⟩ := Stmt.Derives.braced
        (fun stmt hstmt => (hbody stmt hstmt).derives hspell) (Nat.le_of_succ_le_succ hdepth) hblock
      have hparams := derives_nameWords (congrArg Word.kind hl) (congrArg Word.kind hr) hnames
      have hcompound : CompoundAt (depth + 1) _ _ :=
        .function (congrArg Word.kind ht) (congrArg Word.kind htext) hparams .none hfound
      refine ⟨_, last, _, ?_, congrArg Word.kind hlast, .inr hcompound, ?_⟩
      · simp
      · rw [Stmt.withoutLines, Stmt.withoutLines, hsame]
  | breakLoop =>
      obtain ⟨t, vs, rfl, ht, hline⟩ := List.map_eq_cons_iff.mp hts
      obtain ⟨last, rfl, hlast⟩ := List.map_eq_singleton_iff.mp hline
      have hsimple : SimpleAt (depth + 1) [t] _ :=
        .breakLoop (congrArg Word.kind ht)
      exact ⟨[t], last, _, rfl, congrArg Word.kind hlast, .inl hsimple, rfl⟩
  | continueLoop =>
      obtain ⟨t, vs, rfl, ht, hline⟩ := List.map_eq_cons_iff.mp hts
      obtain ⟨last, rfl, hlast⟩ := List.map_eq_singleton_iff.mp hline
      have hsimple : SimpleAt (depth + 1) [t] _ :=
        .continueLoop (congrArg Word.kind ht)
      exact ⟨[t], last, _, rfl, congrArg Word.kind hlast, .inl hsimple, rfl⟩
  | returnNothing =>
      obtain ⟨t, vs, rfl, ht, hline⟩ := List.map_eq_cons_iff.mp hts
      obtain ⟨last, rfl, hlast⟩ := List.map_eq_singleton_iff.mp hline
      have hsimple : SimpleAt (depth + 1) [t] _ :=
        .returnNothing (congrArg Word.kind ht)
      exact ⟨[t], last, _, rfl, congrArg Word.kind hlast, .inl hsimple, rfl⟩
  | returnValue h =>
      obtain ⟨t, vs, rfl, ht, hvs⟩ := List.map_eq_cons_iff.mp hts
      obtain ⟨us, last, rfl, hlast, hvalue⟩ :=
        derives_line (h.derives hspell) (Nat.le_of_succ_le_succ hdepth) hvs
      have hsimple := Simple.returnValue (congrArg Word.kind ht) hvalue
      exact ⟨t :: us, last, _, rfl, hlast, .inl hsimple, rfl⟩

theorem Alternative.Printable.derives (hspell : IsSpelling spell) {alternative : Alternative}
    (h : alternative.Printable) : alternative.Derives spell := by
  intro depth ts hdepth hts
  cases h with
  | nothing =>
      obtain ⟨t, rfl, ht⟩ := List.map_eq_singleton_iff.mp hts
      exact ⟨[], t, _, rfl, congrArg Word.kind ht, .nothing, rfl⟩
  | otherwise hbody =>
      obtain ⟨t, vs, rfl, ht, hvs⟩ := List.map_eq_cons_iff.mp hts
      obtain ⟨block, line, rfl, hblock, hline⟩ := List.map_eq_append_iff.mp hvs
      obtain ⟨last, rfl, hlast⟩ := List.map_eq_singleton_iff.mp hline
      obtain ⟨found, hfound, hsame⟩ := Stmt.Derives.braced
        (fun stmt hstmt => (hbody stmt hstmt).derives hspell) hdepth hblock
      have hother : AlternativeOf (ExpressionAt depth) _ _ _ :=
        .otherwise .none (congrArg Word.kind ht) .none hfound
      refine ⟨t :: block, last, _, rfl, congrArg Word.kind hlast, hother, ?_⟩
      rw [Alternative.withoutLines, Alternative.withoutLines, hsame]
  | elseIf hcondition hbody hnext =>
      simp only [Alternative.nesting, ← Nat.max_assoc] at hdepth
      rw [Nat.max_le] at hdepth
      obtain ⟨t, vs, rfl, ht, hvs⟩ := List.map_eq_cons_iff.mp hts
      obtain ⟨clause, vs, found, rfl, hvs, hclause, hsame⟩ :=
        derives_clause (hcondition.derives hspell)
          (fun stmt hstmt => (hbody stmt hstmt).derives hspell) hdepth.1 hvs
      obtain ⟨us, last, next, rfl, hlast, hnext', hother⟩ :=
        hnext.derives hspell depth vs hdepth.2 hvs
      have helse := AlternativeOf.elseIf .none (congrArg Word.kind ht) hclause hnext'
      refine ⟨t :: (clause ++ us), last, _, by simp, hlast, helse, ?_⟩
      rw [Alternative.withoutLines, Alternative.withoutLines, hsame, hother]

end

/-! ## Programs -/

/-- Tokens for the words of the program are a program that differs in the lines only, whatever
stands after them. -/
theorem Program.Printable.derives (hspell : IsSpelling spell) {P : Program} (h : P.Printable)
    (hdepth : P.nesting spell ≤ depth) (hts : ts.map Token.word = P.words spell)
    (after : List Token) :
    ∃ found, Marked (StatementsAt depth) (ts ++ after) found ∧
      found.withoutLines = P.withoutLines := by
  obtain ⟨start, vs, rfl, hstart, hvs⟩ := List.map_eq_cons_iff.mp hts
  obtain ⟨line, vs, rfl, hline, hvs⟩ := List.map_eq_cons_iff.mp hvs
  obtain ⟨us, last, rfl, hus, hlast⟩ := List.map_eq_append_iff.mp hvs
  obtain ⟨stop, rfl, hstop⟩ := List.map_eq_singleton_iff.mp hlast
  obtain ⟨body, hbody, hsame⟩ :=
    Stmt.Derives.list (fun stmt hstmt => (h stmt hstmt).derives hspell) hdepth hus
  refine ⟨⟨body⟩, ?_, congrArg Program.mk hsame⟩
  rw [List.cons_append, List.cons_append, List.append_assoc, List.singleton_append]
  exact .intro (congrArg Word.kind hstart) (congrArg Word.kind hline) hbody
    (congrArg Word.kind hstop)

end Bol
