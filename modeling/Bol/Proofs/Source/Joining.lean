/-
# Fragments joined by a line end

What two texts spell without program markers, their join spells one after the other, within the
same bound on the depth. The statements of the second text stand on later lines.
-/

import Bol.Proofs.Program.Complete
import Bol.Proofs.Program.Depth
import Bol.Proofs.Program.Derivation
import Bol.Proofs.Program.Joining
import Bol.Proofs.Program.Sound
import Bol.Source

namespace Bol

open Grammar

namespace Program

open Bol.Parser

/-- A fragment is read from the tokens of a list of statements of bounded nesting. -/
theorem parseFragment_eq_ok_iff {body : List Token} {stop : Token} {P : Program}
    (hbody : ∀ t ∈ body, t.kind ≠ .endOfInput) (hstop : stop.kind = .endOfInput) :
    parseFragment (body ++ [stop]) = .ok P ↔
      StatementsAt depthLimit body P.statements := by
  constructor
  · intro h
    unfold parseFragment parseFragmentWithin at h
    rw [run'_apply] at h
    rcases hread : Parser.fragment Expr.negated (body ++ [stop]).length depthLimit (body ++ [stop])
      with error | ⟨P', rest⟩ <;> rw [hread] at h
    · cases h
    · cases h
      obtain ⟨used, hsplit, hend, hstatements⟩ := Sound.fragment hread
      obtain ⟨used', hsplit', hused⟩ := (Deepens.fragment (Nat.le_refl depthLimit)).leaves hread
      obtain rfl : used = used' := List.append_cancel_right (hsplit.symm.trans hsplit')
      obtain ⟨rfl, -⟩ := eq_of_append_stop hbody hstop hsplit hused hend
      exact hstatements
  · intro h
    obtain ⟨rest, hread⟩ := Complete.fragment (Unmarked.intro h hstop) (Nat.le_refl _)
    unfold parseFragment parseFragmentWithin
    rw [run'_apply, hread]
    rfl

end Program

namespace Source

/-- The line of a text, in the join of `a`, a line end and that text. -/
def below (a : String) (line : Int) : Int := line + (a.toList.count '\n' + 1 : Nat)

/-- A fragment that can be read: its tokens, without the end of the input, spell its
statements. -/
theorem fragment_eq_ok_iff {source : String} {P : Program} :
    fragment source = .ok P ↔ ∃ body stop, Token.scan source = .ok (body ++ [stop]) ∧
      stop.kind = .endOfInput ∧ (∀ t ∈ body, t.kind ≠ .endOfInput) ∧
        StatementsAt depthLimit body P.statements := by
  constructor
  · intro h
    obtain ⟨tokens, hscan, hparse⟩ := read_eq_ok_iff.mp h
    obtain ⟨body, stop, rfl, hstop, hbody⟩ := Token.exists_body_of_scan hscan
    exact ⟨body, stop, hscan, hstop, hbody, (Program.parseFragment_eq_ok_iff hbody hstop).mp hparse⟩
  · rintro ⟨body, stop, hscan, hstop, hbody, hstatements⟩
    exact read_eq_ok_iff.mpr
      ⟨_, hscan, (Program.parseFragment_eq_ok_iff hbody hstop).mpr hstatements⟩

/-- The join of two fragments is a fragment. Its statements are those of the first and then those
of the second, on the lines below the first. -/
theorem fragment_joined {a b : String} {P Q : Program} (ha : fragment a = .ok P)
    (hb : fragment b = .ok Q) :
    fragment (a ++ "\n" ++ b) =
      .ok ⟨P.statements ++ Stmt.listMapLines (below a) Q.statements⟩ := by
  obtain ⟨first, stop, hscan, -, hfirst, hstatements⟩ := fragment_eq_ok_iff.mp ha
  obtain ⟨second, stop', hscan', hstop', hsecond, hstatements'⟩ := fragment_eq_ok_iff.mp hb
  have hjoined := Token.scan_joined hscan hscan'
  rw [List.map_append, ← List.append_assoc] at hjoined
  refine fragment_eq_ok_iff.mpr ⟨_, _, hjoined, hstop', ?_, ?_⟩
  · refine List.forall_mem_append.mpr ⟨fun t ht => ?_, fun t ht => ?_⟩
    · obtain ⟨hsame, -⟩ | ⟨line, hline, hmore⟩ := Piece.closed_cases a.toList first
      · exact hfirst t (hsame ▸ ht)
      · rw [hmore] at ht
        obtain ht | ht := List.mem_append.mp ht
        · exact hfirst t ht
        · simp [List.mem_singleton.mp ht, hline]
    · obtain ⟨t', ht', rfl⟩ := List.mem_map.mp ht
      exact hsecond t' ht'
  · exact statementsAt_joined a.toList hstatements
      (Relocates.statementsAt depthLimit _ _ hstatements')

end Source

end Bol
