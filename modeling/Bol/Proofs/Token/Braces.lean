/-
# Braces and blanks of a source

What shows in a text that nobody has read. Outside of strings and comments every brace is a token,
so where strings and comments have no braces in them, braces may be counted without reading. And a
text of nothing but blanks has no tokens.
-/

import Bol.Proofs.Token.Seam
import Bol.Text.Lines

namespace Bol

/-- What a kind adds to the number of braces that are open. -/
def TokenKind.brace : TokenKind → Int
  | leftBrace => 1
  | rightBrace => -1
  | _ => 0

namespace Token

/-- How many more braces open in tokens than close. -/
def level : List Token → Int
  | [] => 0
  | t :: ts => t.kind.brace + level ts

@[simp]
theorem level_nil : level [] = 0 := rfl

@[simp]
theorem level_cons (t : Token) (ts : List Token) : level (t :: ts) = t.kind.brace + level ts := rfl

@[simp]
theorem level_append (ts us : List Token) : level (ts ++ us) = level ts + level us := by
  induction ts with
  | nil => simp
  | cons t ts ih => simp [ih, Int.add_assoc]

@[simp]
theorem level_map_mapLine (f : Int → Int) (ts : List Token) :
    level (ts.map (mapLine f)) = level ts := by
  induction ts with
  | nil => rfl
  | cons t ts ih => simp [ih]

/-- How many tokens are of a kind. -/
def count (kind : TokenKind) (ts : List Token) : Nat := ts.countP (·.kind = kind)

@[simp]
theorem count_append (kind : TokenKind) (ts us : List Token) :
    count kind (ts ++ us) = count kind ts + count kind us := List.countP_append

theorem level_eq_count (ts : List Token) :
    level ts = count .leftBrace ts - count .rightBrace ts := by
  induction ts with
  | nil => rfl
  | cons t ts ih =>
      rw [level_cons, ih, count, count, count, count, List.countP_cons, List.countP_cons]
      cases t.kind <;> simp [TokenKind.brace] <;> omega

end Token

/-- A brace, and the kind of its token. -/
inductive IsBrace : Char → TokenKind → Prop
  | left : IsBrace '\x7b' .leftBrace
  | right : IsBrace '\x7d' .rightBrace

namespace IsBrace

variable {c : Char} {kind : TokenKind} {text : List Char}

theorem notMem_of_isWord (h : IsBrace c kind) (htext : Lexeme.IsWord text) : c ∉ text := by
  intro hmem
  have hc := htext.all_isWordChar _ hmem
  cases h <;> exact absurd hc (by decide)

theorem notMem_of_isNumber (h : IsBrace c kind) (htext : Lexeme.IsNumber text) : c ∉ text := by
  apply htext.notMem <;> cases h <;> decide

theorem notMem_of_isGap (h : IsBrace c kind) (htext : Lexeme.IsGap text) : c ∉ text := by
  intro hmem
  have hc := htext.2 _ hmem
  cases h <;> exact absurd hc (by decide)

theorem ne_ofWord (h : IsBrace c kind) (word : String) : TokenKind.ofWord word ≠ kind := by
  rintro rfl
  rcases TokenKind.ofWord_eq_iff.mp rfl with ⟨hmem, -⟩ | ⟨hname, -⟩
  · generalize TokenKind.ofWord word = kind at h hmem
    cases h <;> exact absurd hmem (by decide)
  · rw [hname] at h
    cases h

theorem ne_ofWords? (h : IsBrace c kind) {first second : String} {found : TokenKind}
    (hfound : TokenKind.ofWords? first second = some found) : found ≠ kind := by
  rintro rfl
  have hmem := (TokenKind.ofWords?_eq_some_iff.mp hfound).1
  cases h <;> exact absurd hmem (by decide)

end IsBrace

/-- The text of a token that is no string is a brace, or it has no brace in it. -/
theorem Lexeme.Selects.count_brace {c : Char} {kind found : TokenKind} {value : String}
    {text rest : List Char} (h : Selects (.token found value) text rest) (hbrace : IsBrace c kind)
    (hstring : found ≠ .string) : text.count c = if found = kind then 1 else 0 := by
  cases h with
  | string => exact absurd rfl hstring
  | number htext =>
      have hkind : TokenKind.number ≠ kind := by cases hbrace <;> decide
      rw [if_neg hkind, List.count_eq_zero]
      exact hbrace.notMem_of_isNumber htext.1
  | compound hfirst hgap hsecond hkind =>
      rw [if_neg (hbrace.ne_ofWords? hkind), List.count_eq_zero]
      simp [hbrace.notMem_of_isWord hfirst.1, hbrace.notMem_of_isGap hgap,
        hbrace.notMem_of_isWord hsecond.1]
  | word htext =>
      rw [if_neg (hbrace.ne_ofWord _), List.count_eq_zero]
      exact hbrace.notMem_of_isWord htext.1
  | pair hkind =>
      unfold TokenKind.ofPair? at hkind
      split at hkind <;> cases hkind <;> cases hbrace <;> decide
  | symbol hkind =>
      unfold TokenKind.ofSymbol? at hkind
      split at hkind <;> cases hkind <;> cases hbrace <;> decide

/-! ## Where braces are hidden -/

namespace Piece

/-- The text of a piece that may have any text: of a blank or a comment, which are silent, and of a
string. -/
def freeText (piece : Piece) : List Char :=
  match piece.lexeme with
  | .silent | .token .string _ => piece.text
  | _ => []

variable {c : Char} {kind : TokenKind}

/-- A brace of a piece is a token, or the piece hides it. -/
theorem count_added {lexeme : Lexeme} {text rest : List Char}
    (h : Lexeme.Selects lexeme text rest) (hbrace : IsBrace c kind) (found : List Token)
    (line : Int) :
    Token.count kind (added found line lexeme) + (freeText ⟨lexeme, text⟩).count c =
      text.count c := by
  cases lexeme with
  | silent => simp [added, Token.count, freeText]
  | lineEnd =>
      cases h
      simp only [added]
      split
      · cases hbrace <;> rfl
      · cases hbrace <;> rfl
  | token found value =>
      by_cases hstring : found = .string
      · subst hstring
        cases hbrace <;> simp [added, Token.count, freeText]
      · have hfree : freeText ⟨.token found value, text⟩ = [] := by
          unfold freeText
          split <;> simp_all
        rw [h.count_brace hbrace hstring, hfree]
        simp [added, Token.count, List.countP_cons]

/-- A brace of a source is a token, or a piece hides it. -/
theorem count_tokensAfter {source rest : List Char} {pieces : List Piece}
    (h : Cut source pieces rest) (hbrace : IsBrace c kind) (before : List Char)
    (found : List Token) :
    Token.count kind (tokensAfter before found pieces) + (pieces.flatMap freeText).count c =
      Token.count kind found + (texts pieces).count c := by
  induction h generalizing before found with
  | done => simp [tokensAfter, texts]
  | @piece lexeme text _ pieces _ hselects _ ih =>
      have hpiece := count_added hselects hbrace found (lineAfter before)
      have hmore := ih (before ++ text) (found ++ added found (lineAfter before) lexeme)
      rw [Token.count_append] at hmore
      rw [tokensAfter, List.flatMap_cons, List.count_append, texts, List.flatMap_cons,
        List.count_append, ← texts]
      dsimp only
      omega

end Piece

namespace Source

/-- No brace is in a string or in a comment. -/
def HidesNoBrace (source : String) : Prop :=
  ∀ pieces, Piece.Cut source.toList pieces [] →
    ∀ piece ∈ pieces, '\x7b' ∉ piece.freeText ∧ '\x7d' ∉ piece.freeText

/-- How many more braces open in a text than close. -/
def level (source : String) : Int := source.toList.count '\x7b' - source.toList.count '\x7d'

variable {source : String} {body : List Token} {stop : Token} {c : Char} {kind : TokenKind}

theorem count_of_cut {pieces : List Piece} (hcut : Piece.Cut source.toList pieces [])
    (hscan : Token.scan source = .ok (body ++ [stop])) (hbrace : IsBrace c kind) :
    Token.count kind body + (pieces.flatMap Piece.freeText).count c = source.toList.count c := by
  have htokens := Except.ok.inj (hscan.symm.trans (Token.scan_of_complete_cut hcut))
  have htexts : Piece.texts pieces = source.toList := by simpa using hcut.texts_append
  rw [(List.append_inj' htokens rfl).1, Piece.count_tokensAfter hcut hbrace, htexts]
  exact Nat.zero_add _

/-- No brace is hidden exactly if there are no more of them than tokens for them. -/
theorem hidesNoBrace_iff (hscan : Token.scan source = .ok (body ++ [stop])) :
    HidesNoBrace source ↔
      ∀ c kind, IsBrace c kind → source.toList.count c = Token.count kind body := by
  have hfree {pieces : List Piece} (hcut : Piece.Cut source.toList pieces []) {c : Char}
      {kind : TokenKind} (hbrace : IsBrace c kind) :
      source.toList.count c = Token.count kind body ↔ ∀ piece ∈ pieces, c ∉ piece.freeText := by
    have hcount := count_of_cut hcut hscan hbrace
    have hzero : (pieces.flatMap Piece.freeText).count c = 0 ↔
        ∀ piece ∈ pieces, c ∉ piece.freeText := by
      simp [List.count_eq_zero]
    rw [← hzero]
    omega
  constructor
  · intro hnone c kind hbrace
    obtain ⟨pieces, hcut, -⟩ := Token.exists_cut_of_scan hscan
    refine (hfree hcut hbrace).mpr fun piece hpiece => ?_
    cases hbrace with
    | left => exact (hnone pieces hcut piece hpiece).1
    | right => exact (hnone pieces hcut piece hpiece).2
  · intro hall pieces hcut piece hpiece
    exact ⟨(hfree hcut .left).mp (hall _ _ .left) piece hpiece,
      (hfree hcut .right).mp (hall _ _ .right) piece hpiece⟩

/-- The braces of a text that hides none are those of its tokens. -/
theorem HidesNoBrace.level_eq (h : HidesNoBrace source)
    (hscan : Token.scan source = .ok (body ++ [stop])) : Token.level body = level source := by
  rw [hidesNoBrace_iff hscan] at h
  rw [Token.level_eq_count, level, h _ _ .left, h _ _ .right]

/-- Where a line end joins two texts, a brace that one of them hides is hidden. -/
theorem HidesNoBrace.of_joined {a b : String} {found more : List Token}
    (h : HidesNoBrace (a ++ "\n" ++ b)) (ha : Token.scan a = .ok found)
    (hb : Token.scan b = .ok more) : HidesNoBrace a ∧ HidesNoBrace b := by
  obtain ⟨first, hfirst, -⟩ := Token.exists_cut_of_scan ha
  obtain ⟨second, hsecond, -⟩ := Token.exists_cut_of_scan hb
  constructor
  · intro pieces hcut piece hpiece
    exact h _ (Token.cut_joined hcut hsecond) piece (by simp [hpiece])
  · intro pieces hcut piece hpiece
    exact h _ (Token.cut_joined hfirst hcut) piece (by simp [hpiece])

theorem level_joined (a b : String) : level (a ++ "\n" ++ b) = level a + level b := by
  simp [level, List.count_append]
  omega

end Source

/-! ## Blank texts -/

/-- Nothing is left of a text without the blanks at its ends if it has nothing but blanks. -/
theorem Text.trim_eq_nil {text : List Char} (h : trim text = []) :
    ∀ c ∈ text, isBlank c = true := by
  unfold trim trimEnd at h
  rw [List.reverse_eq_nil_iff, List.dropWhile_eq_nil_iff] at h
  have hdrop : text.dropWhile isBlank = [] := by
    by_contra hne
    have hhead := List.head_dropWhile_not (p := isBlank) hne
    rw [h _ (List.mem_reverse.mpr (List.head_mem hne))] at hhead
    cases hhead
  exact List.dropWhile_eq_nil_iff.mp hdrop

namespace Lexeme

theorem isBlank_of_isWordChar {c : Char} (h : isWordChar c = true) : Text.isBlank c = false := by
  have hchar : isWordChar c =
      (((decide (65 ≤ c.val ∧ c.val ≤ 90) || decide (97 ≤ c.val) && decide (c.val ≤ 122)) ||
        decide (48 ≤ c.val) && decide (c.val ≤ 57)) || c == '_') := rfl
  have hnat : 48 ≤ c.toNat ∧ c.toNat ≤ 122 := by
    simp only [hchar, Bool.or_eq_true, Bool.and_eq_true, decide_eq_true_eq,
      UInt32.le_iff_toNat_le, beq_iff_eq] at h
    rcases h with ((h | h) | h) | rfl
    · exact ⟨Nat.le_trans (by decide) h.1, Nat.le_trans h.2 (by decide)⟩
    · exact ⟨Nat.le_trans (by decide) h.1, h.2⟩
    · exact ⟨h.1, Nat.le_trans h.2 (by decide)⟩
    · decide
  unfold Text.isBlank
  simp only [Bool.or_eq_false_iff, Bool.and_eq_false_iff, decide_eq_false_iff_not,
    beq_eq_false_iff_ne]
  omega

theorem exists_last_of_isWordChar {text : List Char} (hne : text ≠ [])
    (hall : ∀ c ∈ text, isWordChar c = true) :
    ∃ init last, text = init ++ [last] ∧ Text.isBlank last = false :=
  ⟨_, _, (List.dropLast_concat_getLast hne).symm,
    isBlank_of_isWordChar (hall _ (List.getLast_mem hne))⟩

theorem IsDigits.exists_last {text : List Char} (h : IsDigits text) :
    ∃ init last, text = init ++ [last] ∧ Text.isBlank last = false :=
  exists_last_of_isWordChar h.1 fun c hc => isWordChar_of_isDigit (h.2 c hc)

theorem IsWord.exists_last {text : List Char} (h : IsWord text) :
    ∃ init last, text = init ++ [last] ∧ Text.isBlank last = false := by
  refine exists_last_of_isWordChar ?_ h.all_isWordChar
  obtain ⟨c, more, rfl, -⟩ := h
  exact List.cons_ne_nil c more

/-- The text of a token does not end with a blank. -/
theorem Selects.exists_last {kind : TokenKind} {value : String} {text rest : List Char}
    (h : Selects (.token kind value) text rest) :
    ∃ init last, text = init ++ [last] ∧ Text.isBlank last = false := by
  cases h with
  | @string body => exact ⟨'"' :: body, '"', rfl, by decide⟩
  | number htext =>
      obtain htext | ⟨whole, fraction, rfl, -, hfraction⟩ := htext.1
      · exact htext.exists_last
      · obtain ⟨init, last, rfl, hlast⟩ := hfraction.exists_last
        exact ⟨whole ++ '.' :: init, last, by simp, hlast⟩
  | @compound first gap _ _ _ _ _ hsecond =>
      obtain ⟨init, last, rfl, hlast⟩ := hsecond.1.exists_last
      exact ⟨first ++ gap ++ init, last, by simp, hlast⟩
  | word htext => exact htext.1.exists_last
  | pair hkind =>
      unfold TokenKind.ofPair? at hkind
      split at hkind <;> cases hkind <;> exact ⟨[_], _, rfl, by decide⟩
  | symbol hkind =>
      unfold TokenKind.ofSymbol? at hkind
      split at hkind <;> cases hkind <;> exact ⟨[], _, rfl, by decide⟩

end Lexeme

theorem Piece.tokensAfter_of_blank {source rest : List Char} {pieces : List Piece}
    (h : Cut source pieces rest) (hblank : ∀ c ∈ source, Text.isBlank c = true)
    (before : List Char) : tokensAfter before [] pieces = [] := by
  induction h generalizing before with
  | done => rfl
  | @piece lexeme text _ _ _ hselects _ ih =>
      rw [List.forall_mem_append] at hblank
      have hnone : added [] (lineAfter before) lexeme = [] := by
        cases lexeme with
        | lineEnd | silent => rfl
        | token kind value =>
            obtain ⟨init, last, rfl, hlast⟩ := hselects.exists_last
            rw [hblank.1 last (List.mem_append_right init List.mem_cons_self)] at hlast
            cases hlast
      rw [tokensAfter, List.nil_append, hnone]
      exact ih hblank.2 _

/-- A blank text that can be read has no tokens. -/
theorem Token.eq_nil_of_blank {source : String} {body : List Token} {stop : Token}
    (hscan : scan source = .ok (body ++ [stop])) (hblank : Text.trim source.toList = []) :
    body = [] := by
  obtain ⟨pieces, hcut, htokens⟩ := exists_cut_of_scan hscan
  rw [(List.append_inj' htokens rfl).1]
  exact Piece.tokensAfter_of_blank hcut (Text.trim_eq_nil hblank) []

end Bol
