/-
# Fragments that come apart at a line end

Where two texts joined by a line end are a fragment, each of them is a fragment if as many braces
close as open in the first one and the second one does not start with a token that continues a
statement. So the converse of joining fragments holds, and braces are all that has to be counted for
it.
-/

import Bol.Proofs.Program.Braces
import Bol.Proofs.Source.Joining
import Bol.Proofs.Source.Lines
import Bol.Proofs.Token.Joining
import Bol.Shell

namespace Bol.Source

open Grammar Token

/-- A text that can be read, its tokens without the end of the input, and no brace that is not one
of them. -/
structure Spells (source : String) (body : List Token) : Prop where
  scan : ∃ stop, Token.scan source = .ok (body ++ [stop])
  level_eq : Token.level body = level source

variable {a b source : String} {us vs body : List Token} {P : Program}

namespace Spells

/-- A text spells one list of tokens. -/
theorem unique (h : Spells source us) (h' : Spells source vs) : us = vs := by
  obtain ⟨stop, hscan⟩ := h.scan
  obtain ⟨stop', hscan'⟩ := h'.scan
  exact (List.append_inj' (Except.ok.inj (hscan.symm.trans hscan')) rfl).1

theorem joined (ha : Spells a us) (hb : Spells b vs) :
    Spells (a ++ "\n" ++ b) (Piece.closed a.toList us ++
      vs.map (mapLine (· + (a.toList.count '\n' + 1 : Nat)))) := by
  obtain ⟨stop, hscan⟩ := ha.scan
  obtain ⟨stop', hscan'⟩ := hb.scan
  refine ⟨⟨stop'.mapLine (· + (a.toList.count '\n' + 1 : Nat)), ?_⟩, ?_⟩
  · rw [scan_joined hscan hscan', List.map_append, List.append_assoc]
    rfl
  · have hclosed : Token.level (Piece.closed a.toList us) = Token.level us := by
      obtain ⟨hsame, -⟩ | ⟨t, ht, hmore⟩ := Piece.closed_cases a.toList us
      · rw [hsame]
      · simp [hmore, ht, TokenKind.brace]
    rw [level_append, level_map_mapLine, hclosed, ha.level_eq, hb.level_eq, level_joined]

/-- The end of the input is not among the tokens that are spelled. -/
theorem exists_stop (h : Spells source body) :
    ∃ stop, Token.scan source = .ok (body ++ [stop]) ∧ stop.kind = .endOfInput ∧
      ∀ t ∈ body, t.kind ≠ .endOfInput := by
  obtain ⟨stop, hscan⟩ := h.scan
  obtain ⟨body', stop', hsame, hstop, hbody⟩ := exists_body_of_scan hscan
  obtain ⟨rfl, hlast⟩ := List.append_inj' hsame rfl
  exact ⟨stop', hlast ▸ hscan, hstop, hbody⟩

theorem fragment_iff (h : Spells source body) :
    fragment source = .ok P ↔ StatementsAt depthLimit body P.statements := by
  rw [fragment_eq_ok_iff]
  constructor
  · rintro ⟨body', stop', hscan', -, -, hstatements⟩
    obtain ⟨stop, hscan⟩ := h.scan
    have hsame := List.append_inj' (Except.ok.inj (hscan.symm.trans hscan')) rfl
    rwa [hsame.1]
  · intro hstatements
    obtain ⟨stop, hscan, hstop, hbody⟩ := h.exists_stop
    exact ⟨body, stop, hscan, hstop, hbody, hstatements⟩

/-- In a fragment no brace closes that is not open. -/
theorem level_nonneg (ha : Spells a us) (hb : Spells b vs) (h : fragment (a ++ "\n" ++ b) = .ok P) :
    0 ≤ level a := by
  have hnested := areNested_statementsAt _ _ _ ((ha.joined hb).fragment_iff.mp h)
  obtain ⟨more, hmore⟩ : us <+: Piece.closed a.toList us := List.prefix_append _ _
  rw [← ha.level_eq]
  apply hnested.level_nonneg us
  rw [← hmore, List.append_assoc]

/-- In a fragment as many braces close as open. -/
theorem level_eq_zero (h : Spells source body) (hread : fragment source = .ok P) :
    level source = 0 := by
  rw [← h.level_eq]
  exact (areNested_statementsAt _ _ _ (h.fragment_iff.mp hread)).level_eq

/-- A fragment comes apart outside of all braces, at a line end before a token that does not
continue a statement. -/
theorem fragment_split (ha : Spells a us) (hb : Spells b vs)
    (h : fragment (a ++ "\n" ++ b) = .ok P) (hlevel : level a = 0) (hanew : StartAnew vs) :
    ∃ Q R, fragment a = .ok Q ∧ fragment b = .ok R ∧
      P.withoutLines.statements = Q.withoutLines.statements ++ R.withoutLines.statements := by
  have hstatements := (ha.joined hb).fragment_iff.mp h
  obtain ⟨first, second, hsplit, hfirst, hsecond⟩ :=
    statementsAt_of_joined a.toList hstatements (ha.level_eq.trans hlevel) (hanew.map_mapLine _)
  -- The second half stands on its own lines where nothing comes before it.
  have hback := Relocates.statementsAt (f := (· - (a.toList.count '\n' + 1 : Nat))) _ _ _ hsecond
  have hsame : (vs.map (mapLine (· + (a.toList.count '\n' + 1 : Nat)))).map
      (mapLine (· - (a.toList.count '\n' + 1 : Nat))) = vs := by
    simp [Function.comp_def, mapLine]
  rw [hsame] at hback
  refine ⟨⟨first⟩, ⟨_⟩, ha.fragment_iff.mpr hfirst, hb.fragment_iff.mpr hback, ?_⟩
  rw [Program.withoutLines, Program.withoutLines, Program.withoutLines,
    Stmt.listWithoutLines_listMapLines, hsplit, Stmt.listWithoutLines_append]

end Spells

/-! ## Lines -/

/-- How many more braces open in lines than close. -/
def levels : List String → Int
  | [] => 0
  | line :: rest => level line + levels rest

/-- Lines that can be read one by one, and in which no brace is hidden. -/
def Legible (lines : List String) : Prop := ∀ line ∈ lines, ∃ body, Spells line body

open Shell (joined)

variable {lines front back : List String}

@[simp]
theorem levels_nil : levels [] = 0 := rfl

@[simp]
theorem levels_append (front back : List String) :
    levels (front ++ back) = levels front + levels back := by
  induction front with
  | nil => simp
  | cons line rest ih => simp [levels, ih, Int.add_assoc]

theorem joined_cons (line : String) {rest : List String} (hrest : rest ≠ []) :
    joined (line :: rest) = line ++ "\n" ++ joined rest :=
  String.intercalate_cons_of_ne_nil hrest

theorem joined_append (hfront : front ≠ []) (hback : back ≠ []) :
    joined (front ++ back) = joined front ++ "\n" ++ joined back :=
  String.intercalate_append_of_ne_nil hfront hback

theorem spells_empty : Spells "" [] := ⟨⟨⟨.endOfInput, "", 1⟩, by decide +kernel⟩, rfl⟩

theorem fragment_joined_nil : fragment (joined []) = .ok ⟨[]⟩ := spells_empty.fragment_iff.mpr .done

theorem level_joined_lines (lines : List String) : level (joined lines) = levels lines := by
  induction lines with
  | nil => rfl
  | cons line rest ih =>
      by_cases hrest : rest = []
      · subst hrest
        simp [joined, levels]
      · rw [joined_cons line hrest, level_joined, ih, levels]

theorem Legible.exists_spells (h : Legible lines) : ∃ body, Spells (joined lines) body := by
  induction lines with
  | nil => exact ⟨[], spells_empty⟩
  | cons line rest ih =>
      obtain ⟨⟨us, hus⟩, hmore⟩ := List.forall_mem_cons.mp h
      by_cases hrest : rest = []
      · subst hrest
        exact ⟨us, hus⟩
      · obtain ⟨vs, hvs⟩ := ih hmore
        exact ⟨_, joined_cons line hrest ▸ hus.joined hvs⟩

/-- Lines can be read one by one if they can be read together. -/
theorem legible_of_joined {found : List Token} (hscan : Token.scan (joined lines) = .ok found)
    (h : HidesNoBrace (joined lines)) : Legible lines := by
  have hspells {source : String} {all : List Token} (hall : Token.scan source = .ok all)
      (hnone : HidesNoBrace source) : ∃ body, Spells source body := by
    obtain ⟨body, stop, rfl, -, -⟩ := exists_body_of_scan hall
    exact ⟨body, ⟨stop, hall⟩, hnone.level_eq hall⟩
  induction lines generalizing found with
  | nil => exact List.forall_mem_nil _
  | cons line rest ih =>
      by_cases hrest : rest = []
      · subst hrest
        exact List.forall_mem_singleton.mpr (hspells hscan h)
      · rw [joined_cons line hrest] at hscan h
        cases hline : Token.scan line with
        | error error =>
            rw [scan_joined_of_error hline] at hscan
            cases hscan
        | ok first =>
            obtain ⟨us, stop, rfl, -, -⟩ := exists_body_of_scan hline
            cases hmore : Token.scan (joined rest) with
            | error error =>
                rw [scan_joined_eq_error hline hmore] at hscan
                cases hscan
            | ok second =>
                obtain ⟨hfirst, hsecond⟩ := h.of_joined hline hmore
                exact List.forall_mem_cons.mpr ⟨hspells hline hfirst, ih hmore hsecond⟩

/-! ## Lines that come apart -/

/-- Whether a line starts with a token that continues a statement: an opening brace, `nahitr jr` or
`nahitr`. -/
def continues (line : String) : Bool :=
  match Token.scan line with
  | .ok (t :: _) => t.kind.continuesStatement
  | _ => false

/-- No line outside of all braces continues a statement. The number is that of the braces that are
open where the lines start. -/
def NoneContinues : Int → List String → Prop
  | _, [] => True
  | opened, line :: rest =>
    (opened = 0 → continues line = false) ∧ NoneContinues (opened + level line) rest

instance decidableNoneContinues (opened : Int) (lines : List String) :
    Decidable (NoneContinues opened lines) :=
  match lines with
  | [] => .isTrue trivial
  | line :: rest =>
    have := decidableNoneContinues (opened + level line) rest
    inferInstanceAs (Decidable (_ ∧ _))

theorem Spells.continues_eq (h : Spells source body) :
    continues source = body.head?.any fun t => t.kind.continuesStatement := by
  obtain ⟨stop, hscan, hstop, -⟩ := h.exists_stop
  unfold continues
  rw [hscan]
  cases body with
  | nil => simp [hstop, TokenKind.continuesStatement]
  | cons t body => rfl

theorem continues_joined_nil : continues (joined []) = false := spells_empty.continues_eq

theorem Spells.startAnew_iff (h : Spells source body) :
    StartAnew body ↔ continues source = false := by
  rw [h.continues_eq]
  cases body <;> simp [StartAnew]

/-- No fragment starts with a token that continues a statement. -/
theorem Spells.continues_of_fragment (h : Spells source body) (hread : fragment source = .ok P) :
    continues source = false := by
  have hstatements := h.fragment_iff.mp hread
  rw [← h.startAnew_iff]
  cases body with
  | nil => exact .nil
  | cons t body =>
      rintro _ ⟨⟩
      have hkind := ListOf.first (starts_simpleAt _) (starts_compoundAt _) hstatements
      revert hkind
      cases t.kind <;> simp [TokenKind.startsStatement, TokenKind.continuesStatement]

/-- Lines start with the first of their tokens, in whatever line it is. -/
theorem Legible.continues_append (h : Legible (front ++ back)) (hfront : Spells (joined front) us) :
    continues (joined (front ++ back)) =
      if us = [] then continues (joined back) else continues (joined front) := by
  by_cases hnone : front = []
  · subst hnone
    rw [hfront.unique spells_empty]
    rfl
  by_cases hall : back = []
  · subst hall
    rw [List.append_nil, continues_joined_nil, hfront.continues_eq]
    cases us <;> rfl
  · obtain ⟨vs, hvs⟩ := Legible.exists_spells (List.forall_mem_append.mp h).2
    rw [joined_append hnone hall, (hfront.joined hvs).continues_eq, hfront.continues_eq,
      hvs.continues_eq]
    cases us with
    | nil => cases vs <;> rfl
    | cons t us => rfl

/-- Lines do not start with a token that continues a statement, if none of them does so outside of
all braces. -/
theorem Legible.continues_eq_false (h : Legible lines) (hnone : NoneContinues 0 lines) :
    continues (joined lines) = false := by
  induction lines with
  | nil => exact continues_joined_nil
  | cons line rest ih =>
      obtain ⟨⟨us, hus⟩, hmore⟩ := List.forall_mem_cons.mp h
      have hfirst : Spells (joined [line]) us := hus
      rw [← List.singleton_append] at h ⊢
      rw [Legible.continues_append h hfirst]
      split
      · -- A line without tokens leaves it to the lines after it.
        rename_i hempty
        have hzero : 0 + level line = 0 := by rw [← hus.level_eq, hempty]; rfl
        exact ih hmore (hzero ▸ hnone.2)
      · exact hnone.1 rfl

/-- In a fragment no brace closes in the first lines that they do not open. -/
theorem Legible.levels_nonneg (h : Legible (front ++ back))
    (hread : fragment (joined (front ++ back)) = .ok P) : 0 ≤ levels front := by
  obtain ⟨hfront, hback⟩ := List.forall_mem_append.mp h
  obtain ⟨us, hus⟩ := Legible.exists_spells hfront
  obtain ⟨vs, hvs⟩ := Legible.exists_spells hback
  rw [← level_joined_lines]
  by_cases hnone : front = []
  · subst hnone
    exact Int.le_refl 0
  by_cases hall : back = []
  · rw [hall, List.append_nil] at hread
    exact Int.le_of_eq (hus.level_eq_zero hread).symm
  · rw [joined_append hnone hall] at hread
    exact hus.level_nonneg hvs hread

/-- A fragment comes apart between two of its lines, outside of all braces, where what follows does
not continue a statement. -/
theorem Legible.fragment_split (h : Legible (front ++ back))
    (hread : fragment (joined (front ++ back)) = .ok P) (hlevel : levels front = 0)
    (hanew : continues (joined back) = false) :
    ∃ Q R, fragment (joined front) = .ok Q ∧ fragment (joined back) = .ok R ∧
      P.withoutLines.statements = Q.withoutLines.statements ++ R.withoutLines.statements := by
  obtain ⟨hfront, hback⟩ := List.forall_mem_append.mp h
  obtain ⟨us, hus⟩ := Legible.exists_spells hfront
  obtain ⟨vs, hvs⟩ := Legible.exists_spells hback
  by_cases hfirst : front = []
  · subst hfirst
    exact ⟨⟨[]⟩, P, fragment_joined_nil, hread, rfl⟩
  by_cases hsecond : back = []
  · subst hsecond
    rw [List.append_nil] at hread
    exact ⟨P, ⟨[]⟩, hread, fragment_joined_nil, (List.append_nil _).symm⟩
  · rw [joined_append hfirst hsecond] at hread
    rw [← level_joined_lines] at hlevel
    exact hus.fragment_split hvs hread hlevel (hvs.startAnew_iff.mpr hanew)

/-! ## Blank lines -/

/-- Texts that have the same tokens, kind by kind and value by value, and hide no braces. -/
def SameWords (a b : String) : Prop :=
  ∃ us vs, Spells a us ∧ Spells b vs ∧ us.map Token.word = vs.map Token.word

namespace SameWords

theorem symm (h : SameWords a b) : SameWords b a := by
  obtain ⟨us, vs, hus, hvs, hwords⟩ := h
  exact ⟨vs, us, hvs, hus, hwords.symm⟩

theorem trans (h : SameWords a b) (h' : SameWords b source) : SameWords a source := by
  obtain ⟨us, vs, hus, hvs, hwords⟩ := h
  obtain ⟨vs', ws, hvs', hws, hwords'⟩ := h'
  obtain rfl := hvs.unique hvs'
  exact ⟨us, ws, hus, hws, hwords.trans hwords'⟩

theorem after (h : SameWords a b) (hfront : Spells source body) :
    SameWords (source ++ "\n" ++ a) (source ++ "\n" ++ b) := by
  obtain ⟨us, vs, hus, hvs, hwords⟩ := h
  refine ⟨_, _, hfront.joined hus, hfront.joined hvs, ?_⟩
  simpa [Function.comp_def] using hwords

theorem continues_eq (h : SameWords a b) : continues a = continues b := by
  obtain ⟨us, vs, hus, hvs, hwords⟩ := h
  have hkinds : ∀ ts : List Token, (ts.head?.any fun t => t.kind.continuesStatement) =
      (ts.map Token.word).head?.any fun word => word.kind.continuesStatement := by
    intro ts
    cases ts <;> rfl
  rw [hus.continues_eq, hvs.continues_eq, hkinds, hwords, ← hkinds]

/-- They hold the same statements, lines aside. -/
theorem fragment (h : SameWords a b) (hread : Source.fragment a = .ok P) :
    ∃ Q, Source.fragment b = .ok Q ∧ Q.withoutLines = P.withoutLines := by
  obtain ⟨us, vs, ha, hb, hwords⟩ := h
  obtain ⟨stop, -, hstop, hus⟩ := ha.exists_stop
  obtain ⟨-, -, -, hvs⟩ := hb.exists_stop
  have hparse := (Program.parseFragment_eq_ok_iff hus hstop).mpr (ha.fragment_iff.mp hread)
  have hwords' : (us ++ [stop]).map Token.word = (vs ++ [stop]).map Token.word := by
    rw [List.map_append, hwords, List.map_append]
  have hmoved := congrArg Program.parseFragment (map_mapLine_eq hwords' 0)
  rw [Program.parseFragment_map_mapLine rfl, Program.parseFragment_map_mapLine rfl,
    hparse] at hmoved
  rcases hfound : Program.parseFragment (vs ++ [stop]) with (error | _ | text) | Q <;>
    rw [hfound] at hmoved <;> simp only [Program.moveRead, reduceCtorEq, Except.ok.injEq] at hmoved
  exact ⟨Q, hb.fragment_iff.mpr ((Program.parseFragment_eq_ok_iff hvs hstop).mp hfound),
    (Program.withoutLines_eq hmoved).symm⟩

end SameWords

theorem Spells.eq_nil_of_blank (h : Spells source body) (hblank : Text.trim source.toList = []) :
    body = [] := by
  obtain ⟨stop, hscan⟩ := h.scan
  exact Token.eq_nil_of_blank hscan hblank

variable {line : String}

/-- A blank line in front adds no words to the lines after it. -/
theorem Legible.sameWords_tail (h : Legible (line :: lines)) (hblank : Text.trim line.toList = []) :
    SameWords (joined (line :: lines)) (joined lines) := by
  obtain ⟨⟨body, hline⟩, hmore⟩ := List.forall_mem_cons.mp h
  obtain rfl := hline.eq_nil_of_blank hblank
  by_cases hnone : lines = []
  · subst hnone
    exact ⟨[], [], hline, spells_empty, rfl⟩
  · obtain ⟨vs, hvs⟩ := Legible.exists_spells hmore
    refine ⟨_, vs, joined_cons line hnone ▸ hline.joined hvs, hvs, ?_⟩
    simp [Piece.closed, Piece.added, Function.comp_def]

theorem Legible.blank (h : Legible (front ++ line :: back)) : Legible (front ++ "" :: back) := by
  obtain ⟨hfront, hmore⟩ := List.forall_mem_append.mp h
  exact List.forall_mem_append.mpr ⟨hfront,
    List.forall_mem_cons.mpr ⟨⟨[], spells_empty⟩, (List.forall_mem_cons.mp hmore).2⟩⟩

/-- The words of lines stay the same if the blanks of a blank line are dropped. -/
theorem Legible.sameWords_blank (h : Legible (front ++ line :: back))
    (hblank : Text.trim line.toList = []) :
    SameWords (joined (front ++ line :: back)) (joined (front ++ "" :: back)) := by
  obtain ⟨hfront, hmore⟩ := List.forall_mem_append.mp h
  have hempty : Legible ("" :: back) := (List.forall_mem_append.mp h.blank).2
  have hback : SameWords (joined (line :: back)) (joined ("" :: back)) :=
    (Legible.sameWords_tail hmore hblank).trans (hempty.sameWords_tail (by decide)).symm
  by_cases hnone : front = []
  · subst hnone
    exact hback
  · obtain ⟨first, hfirst⟩ := Legible.exists_spells hfront
    rw [joined_append hnone (List.cons_ne_nil _ _), joined_append hnone (List.cons_ne_nil _ _)]
    exact hback.after hfirst

end Bol.Source
