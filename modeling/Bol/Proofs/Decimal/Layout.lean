/-
# How digits are laid out

Digits times a power of ten are laid out with the point in its place or with an exponent. There are
three ways to put the point in its place: zeros after the digits, a point between them, and a point
and zeros in front of them. `Decimal.Positional` has a rule for each, and what holds of such a text
is shown rule by rule. Laid out either way, the text denotes the digits times the power of ten, and
it is the size of the number alone that decides which way is taken.
-/

import Bol.Proofs.Decimal.Denotation
import Bol.Proofs.Source.Render
import Bol.Proofs.Token.Seam

namespace Bol.Decimal

open Lexeme (IsDigits IsNumber)

/-- The digits of a positive number, without a zero in front or at the end. -/
structure IsNormal (digits : List Char) : Prop where
  isDigits : IsDigits digits
  front : digits.head? ≠ some '0'
  back : digits.getLast? ≠ some '0'

/-- The ways to write digits times `10 ^ exponent` with the point in its place. -/
inductive Positional (digits : List Char) : (exponent : Int) → (text : List Char) → Prop
  | whole {zeros : Nat} : Positional digits zeros (digits ++ List.replicate zeros '0')
  | inside {whole fraction : List Char} (hsplit : whole ++ fraction = digits) (hwhole : whole ≠ [])
      (hfraction : fraction ≠ []) :
      Positional digits (-fraction.length) (whole ++ '.' :: fraction)
  | small {zeros : Nat} :
      Positional digits (-(zeros + digits.length))
        (['0'] ++ '.' :: (List.replicate zeros '0' ++ digits))

variable {digits part text : List Char} {exponent : Int}

/-! ## Which way is taken -/

/-- Where the point stands not too far from the digits, it is written in its place. -/
theorem positional_layout (hdigits : digits ≠ [])
    (hpoint : -6 < exponent + digits.length ∧ exponent + digits.length ≤ 21) :
    Positional digits exponent (layout digits exponent) := by
  have hlength := List.length_pos_of_ne_nil hdigits
  have hmax : maxPoint = 21 := rfl
  have hmin : minZeros = 6 := rfl
  unfold layout
  dsimp only
  by_cases hwhole : digits.length ≤ exponent + digits.length ∧ exponent + digits.length ≤ maxPoint
  · obtain ⟨zeros, rfl⟩ := Int.eq_ofNat_of_zero_le (a := exponent) (by omega)
    rw [if_pos hwhole, Int.add_sub_cancel]
    exact .whole
  rw [if_neg hwhole]
  by_cases hinside : 0 < exponent + digits.length ∧ exponent + digits.length ≤ maxPoint
  · obtain ⟨place, hplace⟩ := Int.eq_ofNat_of_zero_le (Int.le_of_lt hinside.1)
    have hexponent : exponent = -((digits.drop place).length : Int) := by
      rw [List.length_drop]
      omega
    rw [if_pos hinside, hplace, Int.toNat_natCast, hexponent]
    refine .inside (List.take_append_drop place digits) ?_ ?_
    · rw [List.ne_nil_iff_length_pos, List.length_take]
      omega
    · rw [List.ne_nil_iff_length_pos, List.length_drop]
      omega
  rw [if_neg hinside, if_pos (by omega)]
  obtain ⟨zeros, hzeros⟩ := Int.eq_ofNat_of_zero_le (a := -(exponent + digits.length)) (by omega)
  have hexponent : exponent = -(zeros + digits.length : Int) := by omega
  rw [hzeros, Int.toNat_natCast, hexponent]
  exact .small

/-- Otherwise the number has an exponent. -/
theorem layout_eq_scientific
    (hpoint : exponent + digits.length ≤ -6 ∨ 21 < exponent + digits.length) :
    layout digits exponent =
      mantissa digits ++ 'e' :: signed (exponent + digits.length - 1) := by
  have hmax : maxPoint = 21 := rfl
  have hmin : minZeros = 6 := rfl
  unfold layout
  dsimp only
  rw [if_neg (by omega), if_neg (by omega), if_neg (by omega)]

/-! ## A text without an exponent -/

theorem isDigits_of_mem (h : IsDigits digits) (hpart : part ≠ [])
    (hmem : ∀ c ∈ part, c = '0' ∨ c ∈ digits) : IsDigits part := by
  refine ⟨hpart, fun c hc => ?_⟩
  rcases hmem c hc with rfl | hc
  · rfl
  · exact h.2 c hc

theorem isDigits_zeros_append (h : IsDigits digits) (zeros : Nat) :
    IsDigits (List.replicate zeros '0' ++ digits) :=
  isDigits_of_mem h (by simp [h.1]) fun c hc =>
    (List.mem_append.mp hc).imp_left List.eq_of_mem_replicate

theorem isDigits_append_zeros (h : IsDigits digits) (zeros : Nat) :
    IsDigits (digits ++ List.replicate zeros '0') :=
  isDigits_of_mem h (by simp [h.1]) fun c hc =>
    (List.mem_append.mp hc).symm.imp_left List.eq_of_mem_replicate

theorem Positional.isNumber (h : Positional digits exponent text) (hdigits : IsDigits digits) :
    IsNumber text := by
  cases h with
  | @whole zeros => exact .inl (isDigits_append_zeros hdigits zeros)
  | inside hsplit hwhole hfraction =>
      subst hsplit
      exact .inr ⟨_, _, rfl, isDigits_of_mem hdigits hwhole (by simp +contextual),
        isDigits_of_mem hdigits hfraction (by simp +contextual)⟩
  | @small zeros =>
      exact .inr ⟨_, _, rfl, ⟨by simp, by simp⟩, isDigits_zeros_append hdigits zeros⟩

/-- A text with the point in its place denotes the digits times the power of ten. -/
theorem Positional.denotes (h : Positional digits exponent text) (hdigits : IsDigits digits) :
    positional? text = some ((Number.ofDigits digits : ℚ) * 10 ^ exponent) := by
  cases h with
  | @whole zeros =>
      rw [positional?_of_isDigits (isDigits_append_zeros hdigits zeros), Number.ofDigits_append]
      simp [mul_comm]
  | @inside whole fraction hsplit hwhole hfraction =>
      subst hsplit
      rw [positional?_point (isDigits_of_mem hdigits hwhole (by simp +contextual))
        (isDigits_of_mem hdigits hfraction (by simp +contextual)), zpow_neg, zpow_natCast,
        div_eq_mul_inv]
  | @small zeros =>
      have hlength : (zeros + digits.length : Int) =
          ((List.replicate zeros '0' ++ digits).length : Nat) := by simp
      have hzero : Number.ofDigits ['0'] = 0 := rfl
      rw [positional?_point ⟨by simp, by simp⟩ (isDigits_zeros_append hdigits zeros), hlength,
        zpow_neg, zpow_natCast, div_eq_mul_inv, Number.ofDigits_append, Number.ofDigits_append,
        hzero, Number.ofDigits_zeros]
      simp

/-- No zero of a text with the point in its place could be left out: one comes first only in front
of the point, and none comes last after the point. -/
structure HasNoSpareZero (text : List Char) : Prop where
  front : text.head? = some '0' → text.tail.head? = some '.'
  back : '.' ∈ text → text.getLast? ≠ some '0'

theorem getLast?_after_point (hpart : part ≠ []) (front : List Char) :
    (front ++ '.' :: part).getLast? = part.getLast? := by
  rw [List.append_cons]
  exact List.getLast?_append_of_ne_nil _ hpart

theorem Positional.hasNoSpareZero (h : Positional digits exponent text)
    (hdigits : IsNormal digits) : HasNoSpareZero text := by
  have hne := hdigits.isDigits.1
  cases h with
  | @whole zeros =>
      refine ⟨fun hhead => ?_, fun hpoint => ?_⟩
      · rw [List.head?_append_of_ne_nil _ hne] at hhead
        exact absurd hhead hdigits.front
      · exact absurd hpoint ((isDigits_append_zeros hdigits.isDigits zeros).notMem (by decide))
  | @inside whole fraction hsplit hwhole hfraction =>
      subst hsplit
      refine ⟨fun hhead => ?_, fun _ => ?_⟩
      · rw [List.head?_append_of_ne_nil _ hwhole, ← List.head?_append_of_ne_nil _ hwhole] at hhead
        exact absurd hhead hdigits.front
      · rw [getLast?_after_point hfraction, ← List.getLast?_append_of_ne_nil whole hfraction]
        exact hdigits.back
  | @small zeros =>
      refine ⟨fun _ => rfl, fun _ => ?_⟩
      rw [getLast?_after_point (isDigits_zeros_append hdigits.isDigits zeros).1,
        List.getLast?_append_of_ne_nil _ hne]
      exact hdigits.back

/-! ## A text with an exponent -/

theorem isNumber_mantissa (h : IsDigits digits) : IsNumber (mantissa digits) := by
  match digits, h with
  | [c], h => exact .inl h
  | c :: d :: rest, h =>
      have hfirst : IsDigits [c] := isDigits_of_mem h (by simp) (by simp +contextual)
      have hrest : IsDigits (d :: rest) := isDigits_of_mem h (by simp) (by simp +contextual)
      exact .inr ⟨[c], d :: rest, rfl, hfirst, hrest⟩

theorem mantissa_denotes (h : IsDigits digits) :
    positional? (mantissa digits) =
      some ((Number.ofDigits digits : ℚ) / 10 ^ (digits.length - 1)) := by
  match digits, h with
  | [c], h =>
      rw [mantissa, positional?_of_isDigits h]
      · simp
      · simp
  | c :: d :: rest, h =>
      have hfirst : IsDigits [c] := isDigits_of_mem h (by simp) (by simp +contextual)
      have hrest : IsDigits (d :: rest) := isDigits_of_mem h (by simp) (by simp +contextual)
      exact positional?_point hfirst hrest

/-! ## All texts -/

/-- The text denotes the digits times the power of ten. -/
theorem unsigned?_layout (h : IsDigits digits) (exponent : Int) :
    unsigned? (layout digits exponent) = some ((Number.ofDigits digits : ℚ) * 10 ^ exponent) := by
  by_cases hpoint : -6 < exponent + digits.length ∧ exponent + digits.length ≤ 21
  · have hlaid := positional_layout h.1 hpoint
    rw [unsigned?_of_notMem ((hlaid.isNumber h).notMem (by decide) (by decide)), hlaid.denotes h]
  · have hlength : ((digits.length - 1 : Nat) : Int) = digits.length - 1 := by
      have := List.length_pos_of_ne_nil h.1
      omega
    rw [layout_eq_scientific (by omega), unsigned?_scientific
      ((isNumber_mantissa h).notMem (by decide) (by decide)) (mantissa_denotes h)]
    rw [Int.add_sub_assoc, zpow_add₀ (by norm_num), ← hlength, zpow_natCast]
    field_simp

/-- Whether there is an exponent depends on the place of the point. -/
theorem e_mem_layout_iff (h : IsDigits digits) :
    'e' ∈ layout digits exponent ↔
      exponent + digits.length ≤ -6 ∨ 21 < exponent + digits.length := by
  by_cases hpoint : -6 < exponent + digits.length ∧ exponent + digits.length ≤ 21
  · have hnumber := (positional_layout h.1 hpoint).isNumber h
    exact iff_of_false (hnumber.notMem (by decide) (by decide)) (by omega)
  · have hfar : exponent + digits.length ≤ -6 ∨ 21 < exponent + digits.length := by omega
    rw [layout_eq_scientific hfar]
    exact iff_of_true (by simp) hfar

/-- The text starts with a digit. -/
theorem head?_layout (h : IsDigits digits) (exponent : Int) :
    (layout digits exponent).head? ≠ some '-' := by
  have hnumber : ∃ number rest, IsNumber number ∧ layout digits exponent = number ++ rest := by
    by_cases hpoint : -6 < exponent + digits.length ∧ exponent + digits.length ≤ 21
    · exact ⟨_, [], (positional_layout h.1 hpoint).isNumber h, (List.append_nil _).symm⟩
    · exact ⟨_, _, isNumber_mantissa h, layout_eq_scientific (by omega)⟩
  obtain ⟨number, rest, hnumber, hlayout⟩ := hnumber
  obtain ⟨c, more, rfl, hdigit⟩ := hnumber.exists_cons
  rw [hlayout]
  rintro hhead
  obtain rfl : c = '-' := Option.some.inj hhead
  contradiction

/-- The place of the point is the order of magnitude. -/
theorem size_bounds (h : IsNormal digits) (exponent : Int) :
    (10 : ℚ) ^ (exponent + digits.length - 1) ≤ (Number.ofDigits digits : ℚ) * 10 ^ exponent ∧
      (Number.ofDigits digits : ℚ) * 10 ^ exponent < 10 ^ (exponent + digits.length) := by
  obtain ⟨c, rest, rfl⟩ := List.exists_cons_of_ne_nil h.isDigits.1
  have hfirst := h.isDigits.2 c List.mem_cons_self
  have hpower : (0 : ℚ) < 10 ^ exponent := zpow_pos (by norm_num) exponent
  have hlow : (10 : ℚ) ^ rest.length ≤ Number.ofDigits (c :: rest) := by
    exact_mod_cast Number.le_ofDigits hfirst fun heq => h.front (congrArg some heq)
  have hhigh : (Number.ofDigits (c :: rest) : ℚ) < 10 ^ (c :: rest).length := by
    exact_mod_cast Number.ofDigits_lt h.isDigits.2
  constructor
  · have hplace : exponent + (c :: rest).length - 1 = rest.length + exponent := by
      rw [List.length_cons]
      omega
    rw [hplace, zpow_add₀ (by norm_num), zpow_natCast]
    exact mul_le_mul_of_nonneg_right hlow hpower.le
  · rw [Int.add_comm, zpow_add₀ (by norm_num), zpow_natCast]
    exact mul_lt_mul_of_pos_right hhigh hpower

/-- The point stands that far exactly in numbers below a millionth and from `10 ^ 21` on. -/
theorem far_iff (h : IsNormal digits) :
    exponent + digits.length ≤ -6 ∨ 21 < exponent + digits.length ↔
      (Number.ofDigits digits : ℚ) * 10 ^ exponent < 10 ^ (-6 : Int) ∨
        10 ^ (21 : Int) ≤ (Number.ofDigits digits : ℚ) * 10 ^ exponent := by
  have hten : (1 : ℚ) < 10 := by norm_num
  obtain ⟨hlow, hhigh⟩ := size_bounds h exponent
  constructor
  · rintro (hpoint | hpoint)
    · exact .inl (hhigh.trans_le (zpow_le_zpow_right₀ hten.le hpoint))
    · exact .inr ((zpow_le_zpow_right₀ hten.le (by omega)).trans hlow)
  · rintro (hsize | hsize)
    · have hpoint := (zpow_lt_zpow_iff_right₀ hten).mp (hlow.trans_lt hsize)
      exact .inl (by omega)
    · exact .inr ((zpow_lt_zpow_iff_right₀ hten).mp (hsize.trans_lt hhigh))

/-! ## Signs -/

/-- A text with a minus in front of it if the number is negative. -/
def withSign (negative : Bool) (text : List Char) : List Char :=
  if negative then '-' :: text else text

/-- The factor of a sign. -/
def sign (negative : Bool) : ℚ := if negative then -1 else 1

theorem e_mem_withSign_iff (negative : Bool) : 'e' ∈ withSign negative text ↔ 'e' ∈ text := by
  cases negative <;> simp [withSign]

theorem denoted?_withSign {size : ℚ} (hsize : unsigned? text = some size)
    (hhead : text.head? ≠ some '-') (negative : Bool) :
    denoted? (withSign negative text) = some (sign negative * size) := by
  cases negative with
  | false =>
      rw [withSign, if_neg (by decide), denoted?_of_head? hhead, hsize, sign, if_neg (by decide),
        one_mul]
  | true =>
      rw [withSign, if_pos rfl, denoted?_minus hsize, sign, if_pos rfl, neg_one_mul]

/-- The tokens of a number with its sign. -/
def numberTokens (negative : Bool) (text : List Char) : List Token :=
  (if negative then [⟨.minus, "-", 1⟩] else []) ++
    [⟨.number, String.ofList text, 1⟩, ⟨.endOfInput, "", 1⟩]

theorem cut_number (h : IsNumber text) :
    Piece.Cut text [⟨.token .number (String.ofList text), text⟩] [] := by
  simpa using Piece.Cut.piece (@Word.selects_number text [] h (by simp [Word.IsBreak])) .done

theorem selects_minus (h : IsNumber text) :
    Lexeme.Selects (.token .minus "-") ['-'] text := by
  obtain ⟨c, more, rfl, hdigit⟩ := h.exists_cons
  refine .symbol rfl (fun d _ => ?_) fun _ d hd => ?_
  · unfold TokenKind.ofPair?
    split <;> simp_all
  · obtain rfl : c = d := Option.some.inj hd
    rintro rfl
    exact absurd hdigit (by decide)

/-- The text of a number is read as one token, after a minus if there is one. -/
theorem scan_withSign (h : IsNumber text) (negative : Bool) :
    Token.scan (String.ofList (withSign negative text)) = .ok (numberTokens negative text) := by
  have hlines : text.count '\n' = 0 :=
    List.count_eq_zero.mpr (h.notMem (by decide) (by decide))
  cases negative with
  | false =>
      have hcut := cut_number h
      rw [← @String.toList_ofList text] at hcut
      rw [withSign, if_neg (by decide), Token.scan_of_complete_cut hcut]
      simp [Piece.tokens, Piece.tokensAfter, Piece.added, Piece.lineAfter, Piece.texts,
        numberTokens, hlines]
  | true =>
      have hcut : Piece.Cut ('-' :: text) _ [] := .piece (selects_minus h) (cut_number h)
      rw [← @String.toList_ofList ('-' :: text)] at hcut
      rw [withSign, if_pos rfl, Token.scan_of_complete_cut hcut]
      simp [Piece.tokens, Piece.tokensAfter, Piece.added, Piece.lineAfter, Piece.texts,
        numberTokens, hlines]

end Bol.Decimal
