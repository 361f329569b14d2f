/-
# Readers and the lines of tokens

Readers look at the kinds and the values of tokens. The lines of tokens go into the lines of
statements and of errors, and nowhere else: where tokens stand on other lines, the same statements
are read, on other lines, or the same error is found, on another line.
-/

import Bol.Proofs.Program.Relocation
import Bol.Proofs.Program.Translation

namespace Bol

theorem Stmt.listMapLines_eq_map (g : Int → Int) (body : List Stmt) :
    Stmt.listMapLines g body = body.map (Stmt.mapLines g) := by
  induction body with
  | nil => rfl
  | cons stmt rest ih => rw [listMapLines, ih, List.map_cons]

theorem Alternative.mapLines_ofClauses (g : Int → Int) (clauses : List (Expr × List Stmt))
    (last : Option (List Stmt)) :
    (ofClauses clauses last).mapLines g =
      ofClauses (clauses.map (Prod.map id (Stmt.listMapLines g)))
        (last.map (Stmt.listMapLines g)) := by
  unfold ofClauses
  induction clauses with
  | nil => cases last <;> rfl
  | cons clause rest ih =>
      rw [List.foldr_cons, mapLines, ih]
      rfl

/-- A program with all its lines changed. -/
def Program.mapLines (g : Int → Int) (program : Program) : Program :=
  ⟨Stmt.listMapLines g program.statements⟩

/-- The same error for the same token on another line. -/
def ParseError.mapLine (g : Int → Int) : ParseError → ParseError := ParseError.map (Token.mapLine g)

/-- Neither the message nor the text of an error tells its line. -/
theorem ParseError.mapLine_diagnostic (g : Int → Int) (error : ParseError) :
    (error.mapLine g).message = error.message ∧ (error.mapLine g).text? = error.text? := by
  cases error <;> exact ⟨rfl, rfl⟩

/-- Tokens on other lines: the statements are on other lines likewise. -/
def Translation.lines (minus : Expr → Expr) {g : Int → Int} (hzero : g 0 = 0) :
    Translation minus minus where
  token := Token.mapLine g
  admits _ := True
  expr := id
  stmt := Stmt.mapLines g
  alternative := Alternative.mapLines g
  token_kind _ := rfl
  token_value _ := rfl
  token_end := by rw [Parser.current, Token.mapLine, hzero]
  admits_end := trivial
  expr_number _ := rfl
  expr_string _ := rfl
  expr_boolean _ := rfl
  expr_null := rfl
  expr_name _ := rfl
  expr_binary _ _ _ := rfl
  expr_call _ args := by rw [List.map_id]; rfl
  expr_not _ _ _ _ := rfl
  expr_minus _ := rfl
  stmt_declare _ _ _ := rfl
  stmt_assign _ _ _ := rfl
  stmt_print _ _ := rfl
  stmt_ifThen _ body _ _ := by rw [← Stmt.listMapLines_eq_map]; rfl
  stmt_whileDo _ body _ := by rw [← Stmt.listMapLines_eq_map]; rfl
  stmt_breakLoop _ := rfl
  stmt_continueLoop _ := rfl
  stmt_function _ _ body _ := by rw [← Stmt.listMapLines_eq_map]; rfl
  stmt_returnValue value _ := by rw [Option.map_id]; rfl
  alternative_ofClauses clauses last := by
    rw [← funext (Stmt.listMapLines_eq_map g)]
    exact Alternative.mapLines_ofClauses g clauses last

namespace Program

open Bol.Parser

/-- What is read where the tokens stand on other lines. -/
def moveRead (g : Int → Int) : Except ParseStop Program → Except ParseStop Program
  | .ok program => .ok (program.mapLines g)
  | .error (.error error) => .error (.error (error.mapLine g))
  | .error .tooDeep => .error .tooDeep
  | .error (.notNumber text) => .error (.notNumber text)

theorem read_lines {g : Int → Int} (hzero : g 0 = 0) (found : Except ParseStop Program) :
    (Translation.lines Expr.negated hzero).read found = moveRead g found := by
  rcases found with (error | _ | text) | P
  · rfl
  · rfl
  · rfl
  · rw [moveRead, mapLines, Stmt.listMapLines_eq_map]
    rfl

/-- Reading a program from tokens on other lines. -/
theorem parse_map_mapLine {g : Int → Int} (hzero : g 0 = 0) (ts : List Token) :
    parse (ts.map (Token.mapLine g)) = moveRead g (parse ts) := by
  rw [← read_lines hzero, parse, parseWithin, parseWithin, List.length_map]
  exact Translation.run'_eq_read (T := .lines Expr.negated hzero) (.program depthLimit)
    fun _ _ => trivial

/-- Reading statements without markers from tokens on other lines. -/
theorem parseFragment_map_mapLine {g : Int → Int} (hzero : g 0 = 0) (ts : List Token) :
    parseFragment (ts.map (Token.mapLine g)) = moveRead g (parseFragment ts) := by
  rw [← read_lines hzero, parseFragment, parseFragmentWithin, parseFragmentWithin, List.length_map]
  exact Translation.run'_eq_read (T := .lines Expr.negated hzero) (.fragment depthLimit)
    fun _ _ => trivial

end Program

end Bol
