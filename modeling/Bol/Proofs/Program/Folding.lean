/-
# Signs of number literals

A reader takes a minus sign before a number literal into the literal, and it does so whatever the
literal came of: another sign, or parentheses. Doing that afterwards, to a whole tree from its
leaves upwards, is `fold`. So a reader that leaves all signs where they are reads trees whose folds
are what is read. The one sign that a reader leaves is a `nahi` that was made by hand and is spelled
as a minus sign.
-/

import Bol.Proofs.Program.Translation

namespace Bol

mutual

/-- The expression with each minus sign before a number literal taken into the literal. -/
def Expr.fold : Expr → Expr
  | .binary op left right => .binary op left.fold right.fold
  | .unary .negate operand => operand.fold.negated
  | .unary op operand => .unary op operand.fold
  | .call callee args => .call callee (Expr.listFold args)
  | .number value => .number value
  | .string value => .string value
  | .boolean value => .boolean value
  | .null => .null
  | .name used => .name used
  | .misplaced sort => .misplaced sort

def Expr.listFold : List Expr → List Expr
  | [] => []
  | expr :: rest => expr.fold :: Expr.listFold rest

end

mutual

/-- The statement with all its expressions folded, and those of the statements inside. -/
def Stmt.fold : Stmt → Stmt
  | .declare name value line => .declare name value.fold line
  | .assign name value line => .assign name value.fold line
  | .print value line => .print value.fold line
  | .ifThen condition body alternative line =>
    .ifThen condition.fold (Stmt.listFold body) alternative.fold line
  | .whileDo condition body line => .whileDo condition.fold (Stmt.listFold body) line
  | .breakLoop line => .breakLoop line
  | .continueLoop line => .continueLoop line
  | .function name params body line => .function name params (Stmt.listFold body) line
  | .returnValue value line => .returnValue (value.map Expr.fold) line
  | .misplaced sort => .misplaced sort

def Stmt.listFold : List Stmt → List Stmt
  | [] => []
  | stmt :: rest => stmt.fold :: Stmt.listFold rest

def Alternative.fold : Alternative → Alternative
  | .nothing => .nothing
  | .otherwise body => .otherwise (Stmt.listFold body)
  | .elseIf condition body next => .elseIf condition.fold (Stmt.listFold body) next.fold

end

theorem Expr.listFold_eq_map (args : List Expr) : Expr.listFold args = args.map Expr.fold := by
  induction args with
  | nil => rfl
  | cons expr rest ih => rw [listFold, ih, List.map_cons]

theorem Stmt.listFold_eq_map (body : List Stmt) : Stmt.listFold body = body.map Stmt.fold := by
  induction body with
  | nil => rfl
  | cons stmt rest ih => rw [listFold, ih, List.map_cons]

/-- The program with all its expressions folded. -/
def Program.fold (P : Program) : Program := ⟨P.statements.map Stmt.fold⟩

theorem Expr.fold_unary {op : UnaryOp} (hop : op ≠ .negate) (operand : Expr) :
    (Expr.unary op operand).fold = .unary op operand.fold := by
  cases op with
  | negate => exact absurd rfl hop
  | not | other spelling => rfl

theorem UnaryOp.ofSpelling_ne_negate {spelling : String} (h : spelling ≠ "-") :
    UnaryOp.ofSpelling spelling ≠ .negate := by
  have hnegate : (negate.spelling == spelling) = false := beq_eq_false_iff_ne.mpr h.symm
  rw [ofSpelling, List.find?_cons, hnegate, List.find?_singleton]
  cases not.spelling == spelling <;> nofun

theorem Alternative.fold_ofClauses (clauses : List (Expr × List Stmt))
    (last : Option (List Stmt)) :
    (ofClauses clauses last).fold =
      ofClauses (clauses.map (Prod.map Expr.fold Stmt.listFold)) (last.map Stmt.listFold) := by
  unfold ofClauses
  induction clauses with
  | nil => cases last <;> rfl
  | cons clause rest ih =>
      rw [List.foldr_cons, fold, ih]
      rfl

/-- Not a `nahi` that is spelled as a minus sign. -/
def Token.KeepsSpelling (t : Token) : Prop := t.kind = .notWord → t.value ≠ "-"

instance (t : Token) : Decidable t.KeepsSpelling :=
  inferInstanceAs (Decidable (t.kind = .notWord → t.value ≠ "-"))

/-- Signs that are left where they are read, and signs that are taken into number literals. -/
def Translation.folding : Translation (.unary .negate) Expr.negated where
  token := id
  admits := Token.KeepsSpelling
  expr := Expr.fold
  stmt := Stmt.fold
  alternative := Alternative.fold
  token_kind _ := rfl
  token_value _ := rfl
  token_end := rfl
  admits_end := nofun
  expr_number _ := rfl
  expr_string _ := rfl
  expr_boolean _ := rfl
  expr_null := rfl
  expr_name _ := rfl
  expr_binary _ _ _ := rfl
  expr_call _ args := by rw [← Expr.listFold_eq_map]; rfl
  expr_not t e ht hkind := Expr.fold_unary (UnaryOp.ofSpelling_ne_negate (ht hkind)) e
  expr_minus _ := rfl
  stmt_declare _ _ _ := rfl
  stmt_assign _ _ _ := rfl
  stmt_print _ _ := rfl
  stmt_ifThen _ body _ _ := by rw [← Stmt.listFold_eq_map]; rfl
  stmt_whileDo _ body _ := by rw [← Stmt.listFold_eq_map]; rfl
  stmt_breakLoop _ := rfl
  stmt_continueLoop _ := rfl
  stmt_function _ _ body _ := by rw [← Stmt.listFold_eq_map]; rfl
  stmt_returnValue _ _ := rfl
  alternative_ofClauses clauses last := by
    rw [← funext Stmt.listFold_eq_map]
    exact Alternative.fold_ofClauses clauses last

namespace Program

/-- The program that tokens spell if minus signs are left where they are. -/
def parseUnfoldedWithin (depth : Nat) (tokens : List Token) : Except ParseStop Program :=
  (Parser.program (.unary .negate) tokens.length depth).run' tokens

/-- The statements that tokens spell without program markers if minus signs are left where they
are. -/
def parseFragmentUnfoldedWithin (depth : Nat) (tokens : List Token) : Except ParseStop Program :=
  (Parser.fragment (.unary .negate) tokens.length depth).run' tokens

variable {ts : List Token}

theorem read_folding (found : Except ParseStop Program) :
    Translation.folding.read found = found.map fold := by
  rcases found with (error | _ | text) | P
  · cases error <;> rfl
  · rfl
  · rfl
  · rfl

/-- What is read is the fold of what is read with all signs left where they are. -/
theorem parseWithin_eq_map_fold (depth : Nat) (hts : ∀ t ∈ ts, t.KeepsSpelling) :
    parseWithin depth ts = (parseUnfoldedWithin depth ts).map fold := by
  have hread := Translation.run'_eq_read (T := .folding) (.program (n := ts.length) depth) hts
  rwa [read_folding, show ts.map Translation.folding.token = ts from List.map_id ts] at hread

theorem parseFragmentWithin_eq_map_fold (depth : Nat) (hts : ∀ t ∈ ts, t.KeepsSpelling) :
    parseFragmentWithin depth ts = (parseFragmentUnfoldedWithin depth ts).map fold := by
  have hread := Translation.run'_eq_read (T := .folding) (.fragment (n := ts.length) depth) hts
  rwa [read_folding, show ts.map Translation.folding.token = ts from List.map_id ts] at hread

end Program

end Bol
