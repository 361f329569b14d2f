/-
# Sources and programs

Scanning and reading the source of a program gives the program back, apart from the lines that its
statements start on. Every program that is read from a source has a source, which can be read
within the bound on the depth that sufficed for the first one.
-/

import Bol.Proofs.Program.Derivation
import Bol.Proofs.Source.Derive
import Bol.Proofs.Source.Layout
import Bol.Proofs.Source.Written

namespace Bol

open Grammar

namespace Program

variable {depth : Nat} {ts : List Token} {P : Program} {spell : Float → Numeral}

theorem parseWithin_of_marked (h : Marked (StatementsAt depth) ts P) :
    parseWithin depth ts = .ok P := by
  obtain ⟨rest, hread⟩ := Parser.Complete.program h (Nat.le_refl _)
  rw [parseWithin, Parser.run'_apply, hread]
  rfl

theorem marked_of_parseWithin (h : parseWithin depth ts = .ok P) :
    Marked (StatementsAt depth) ts P := by
  rw [parseWithin, Parser.run'_apply] at h
  rcases hread : Parser.program Expr.negated ts.length depth ts with stop | ⟨found, rest⟩ <;>
    rw [hread] at h
  · contradiction
  · obtain rfl : found = P := Except.ok.inj h
    exact Parser.Sound.program hread

theorem marked_statements (h : Marked (StatementsAt depth) ts P) :
    Marked Statements ts P :=
  (statements_of_statementsAt depth ts.length).marked ts P (Nat.le_refl _) h

/-- Reading the source gives the program, apart from the lines that its statements start on. A
bound on the depth can only make reading give up, and none from `depth` on does. -/
def ReadsAs (source : String) (depth : Nat) (P : Program) : Prop :=
  ∃ tokens found, Token.scan source = .ok tokens ∧ found.withoutLines = P.withoutLines ∧
    (∀ bound, depth ≤ bound → parseWithin bound tokens = .ok found) ∧
    ∀ bound, parseWithin bound tokens = .ok found ∨ parseWithin bound tokens = .error .tooDeep

/-- The source of a program is read as the program. -/
theorem Printable.readsAs (hspell : IsSpelling spell) (h : P.Printable)
    (hdepth : P.nesting spell ≤ depth) : ReadsAs (P.source spell) depth P := by
  obtain ⟨tokens, line, hscan, htokens⟩ :=
    Word.scan_render (h.renderable hspell) (by simp [Program.words])
  have hderives {bound} (hle : depth ≤ bound) :=
    h.derives hspell (Nat.le_trans hdepth hle) htokens [⟨.endOfInput, "", line⟩]
  have hdecides : Decides _ _ (tokens ++ [⟨.endOfInput, "", line⟩]) := parseWithin_decides rfl
  obtain ⟨found, hfound, hsame⟩ := hderives (Nat.le_refl depth)
  have hderived := marked_statements hfound
  refine ⟨_, found, hscan, hsame, fun bound hle => ?_, fun bound => ?_⟩
  · obtain ⟨other, hother, -⟩ := hderives hle
    obtain rfl := hdecides.unique found other hderived (marked_statements hother)
    exact parseWithin_of_marked hother
  · by_cases hstop : parseWithin bound (tokens ++ [⟨.endOfInput, "", line⟩]) = .error .tooDeep
    · exact .inr hstop
    · exact .inl ((hdecides.eq_ok_iff bound found hstop).mpr hderived)

example (spell : Float → Numeral) :
    source spell ⟨[.print (.binary .sub (.name "x") (.binary .sub (.name "y") (.name "z"))) none]⟩ =
      "bola saheb\nhe bol x - ( y - z )\nyeto saheb" :=
  rfl

/-- The source of a program that can be written is read as the program, and a program that is read
from a source can be written, with a source that is read as the program within the same depth. -/
theorem source_round_trip :
    (∀ spell P, IsSpelling spell → P.Printable → ReadsAs (P.source spell) (P.nesting spell) P) ∧
      ∀ source tokens depth P, Token.scan source = .ok tokens → parseWithin depth tokens = .ok P →
        P.Printable ∧ (∀ spell, IsSpelling spell → ReadsAs (P.source spell) (P.nesting spell) P) ∧
          ∃ spell, IsSpelling spell ∧ ReadsAs (P.source spell) depth P := by
  refine ⟨fun spell P hspell h => h.readsAs hspell (Nat.le_refl _),
    fun source tokens depth P hscan hread => ?_⟩
  obtain ⟨least, hleast⟩ := exists_isLeastSpelling
  obtain ⟨hprintable, hdepth⟩ :=
    printable_of_marked hleast (Word.isLexed_of_scan hscan) (marked_of_parseWithin hread)
  refine ⟨hprintable, fun spell hspell => ?_, least, hleast.isSpelling, ?_⟩
  · exact hprintable.readsAs hspell (Nat.le_refl _)
  · exact hprintable.readsAs hleast.isSpelling hdepth

/-- The program that prints `x` less the difference of `y` and a number, 5 negated twice. -/
def printDifference : Program :=
  ⟨[.print (.binary .sub (.name "x")
    (.binary .sub (.name "y")
      (.number (Numeral.negated 2 (Number.ofDecimal false ⟨5, 0⟩))))) (some 2)]⟩

theorem printable_printDifference : printDifference.Printable := by
  have hdigits : Lexeme.IsNumber "5".toList := .inl ⟨by decide, List.all_eq_true.mp rfl⟩
  have hnumber : Numeral.Spells ⟨2, "5"⟩ (Numeral.negated 2 (Number.ofDecimal false ⟨5, 0⟩)) :=
    ⟨hdigits, _, rfl, rfl⟩
  have hx : Expr.Printable (.name "x") := .name ⟨⟨'x', [], rfl, rfl, List.forall_mem_nil _⟩, rfl⟩
  have hy : Expr.Printable (.name "y") := .name ⟨⟨'y', [], rfl, rfl, List.forall_mem_nil _⟩, rfl⟩
  have hsub : BinaryOp.sub ∈ BinaryOp.all := by decide
  intro stmt hstmt
  obtain rfl := List.mem_singleton.mp hstmt
  exact .print (.binary hsub hx (.binary hsub hy (.number ⟨_, hnumber⟩)))

/-- A program with parentheses and signs is read from its source, and so is what is read. -/
theorem source_round_trip_printDifference :
    ∃ spell tokens found, IsSpelling spell ∧
      Token.scan (printDifference.source spell) = .ok tokens ∧
      parseWithin (printDifference.nesting spell) tokens = .ok found ∧
      found.withoutLines = printDifference.withoutLines ∧ found.Printable := by
  obtain ⟨hwritten, hread⟩ := source_round_trip
  obtain ⟨spell, hspell⟩ := exists_isLeastSpelling
  obtain ⟨tokens, found, hscan, hsame, hparse, -⟩ :=
    hwritten spell printDifference hspell.isSpelling printable_printDifference
  have hfound := hparse (printDifference.nesting spell) (Nat.le_refl _)
  exact ⟨spell, tokens, found, hspell.isSpelling, hscan, hfound, hsame,
    (hread _ tokens _ found hscan hfound).1⟩

end Program

end Bol
