/-
# What the text of a number denotes

A number may be written with digits alone, with a point between digits, or as either of these times
a power of ten, whose exponent stands after an `e` with its sign. A minus stands in front of a
negative number. `Decimal.denoted?` is the rational number that a text denotes in this way, and
there is none if the text is written in no such way. It does not mention how numbers are laid out.
-/

import Mathlib.Algebra.Order.Field.Power
import Mathlib.Algebra.Order.Field.Rat
import Mathlib.Tactic.FieldSimp
import Mathlib.Tactic.Ring
import Bol.Number
import Bol.Proofs.Lexeme.Rules

namespace Bol

open Lexeme (IsDigits)

/-! ## Digits -/

namespace Number

variable {digits : List Char}

theorem ofDigits_cons (c : Char) (digits : List Char) :
    ofDigits (c :: digits) = 10 ^ digits.length * (c.toNat - '0'.toNat) + ofDigits digits := by
  change Nat.ofDigitChars 10 (c :: digits) 0 = _
  rw [Nat.ofDigitChars_cons, Nat.ofDigitChars_eq_ofDigitChars_zero, Nat.mul_zero, Nat.zero_add]
  rfl

theorem ofDigits_append (front back : List Char) :
    ofDigits (front ++ back) = 10 ^ back.length * ofDigits front + ofDigits back := by
  change Nat.ofDigitChars 10 (front ++ back) 0 = _
  rw [Nat.ofDigitChars_append, Nat.ofDigitChars_eq_ofDigitChars_zero]
  rfl

@[simp]
theorem ofDigits_zeros (count : Nat) : ofDigits (List.replicate count '0') = 0 :=
  Nat.ofDigitChars_replicate_zero

@[simp]
theorem ofDigits_toDigits (n : Nat) : ofDigits (Nat.toDigits 10 n) = n :=
  Nat.ofDigitChars_ten_toDigits

theorem isDigits_toDigits (n : Nat) : IsDigits (Nat.toDigits 10 n) :=
  ⟨Nat.toDigits_ne_nil, fun _ => Nat.isDigit_of_mem_toDigits (by decide) (by decide)⟩

theorem digit_bounds {c : Char} (h : c.isDigit = true) :
    '0'.toNat ≤ c.toNat ∧ c.toNat ≤ '9'.toNat := by
  simp only [Char.isDigit, Bool.and_eq_true, decide_eq_true_eq] at h
  exact h

/-- A number has no more digits than are written. -/
theorem ofDigits_lt (h : ∀ c ∈ digits, c.isDigit = true) :
    ofDigits digits < 10 ^ digits.length := by
  induction digits with
  | nil => decide
  | cons c digits ih =>
      obtain ⟨hc, hdigits⟩ := List.forall_mem_cons.mp h
      have hdigit : c.toNat - '0'.toNat ≤ 9 := Nat.sub_le_of_le_add (digit_bounds hc).2
      calc ofDigits (c :: digits)
          = 10 ^ digits.length * (c.toNat - '0'.toNat) + ofDigits digits := ofDigits_cons c digits
        _ < 10 ^ digits.length * 9 + 10 ^ digits.length :=
            Nat.add_lt_add_of_le_of_lt (Nat.mul_le_mul_left _ hdigit) (ih hdigits)
        _ = 10 ^ (digits.length + 1) := (Nat.mul_succ _ 9).symm

/-- A number whose first digit is not zero has as many digits as are written. -/
theorem le_ofDigits {c : Char} (hc : c.isDigit = true) (hzero : c ≠ '0') :
    10 ^ digits.length ≤ ofDigits (c :: digits) := by
  have hdigit : 0 < c.toNat - '0'.toNat := by
    refine Nat.sub_pos_of_lt (Nat.lt_of_le_of_ne (digit_bounds hc).1 fun heq => hzero ?_)
    exact Char.toNat_inj.mp heq.symm
  rw [ofDigits_cons]
  exact Nat.le_add_right_of_le (Nat.le_mul_of_pos_right _ hdigit)

end Number

/-! ## Texts -/

namespace Decimal

/-- The number that digits alone denote. -/
def natural? (text : List Char) : Option Nat :=
  if text ≠ [] ∧ text.all Char.isDigit then some (Number.ofDigits text) else none

/-- The number that digits denote, or digits with a point between them. -/
def positional? (text : List Char) : Option ℚ :=
  match text.dropWhile (· != '.') with
  | [] => do
    let whole ← natural? text
    return whole
  | _ :: fraction => do
    let whole ← natural? (text.takeWhile (· != '.'))
    let part ← natural? fraction
    return whole + part / 10 ^ fraction.length

/-- The exponent that a sign with digits after it denotes. -/
def exponent? : List Char → Option Int
  | '+' :: digits => do
    let n ← natural? digits
    return n
  | '-' :: digits => do
    let n ← natural? digits
    return -n
  | _ => none

/-- The number that a text without a sign denotes. -/
def unsigned? (text : List Char) : Option ℚ :=
  match text.dropWhile (· != 'e') with
  | [] => positional? text
  | _ :: power => do
    let mantissa ← positional? (text.takeWhile (· != 'e'))
    let exponent ← exponent? power
    return mantissa * 10 ^ exponent

/-- The rational number that a text denotes. -/
def denoted? : List Char → Option ℚ
  | '-' :: text => do
    let size ← unsigned? text
    return -size
  | text => unsigned? text

/-! ## Reading what is written -/

variable {text whole fraction mantissa : List Char}

theorem cut_of_notMem {mark : Char} (h : mark ∉ text) (rest : List Char) :
    (text ++ mark :: rest).takeWhile (· != mark) = text ∧
      (text ++ mark :: rest).dropWhile (· != mark) = mark :: rest := by
  have hall : ∀ c ∈ text, (c != mark) = true := fun c hc =>
    bne_iff_ne.mpr (ne_of_mem_of_not_mem hc h)
  rw [List.takeWhile_append_of_pos hall, List.dropWhile_append_of_pos hall]
  simp

theorem dropWhile_of_notMem {mark : Char} (h : mark ∉ text) : text.dropWhile (· != mark) = [] :=
  List.dropWhile_eq_nil_iff.mpr fun _ hc => bne_iff_ne.mpr (ne_of_mem_of_not_mem hc h)

theorem natural?_of_isDigits (h : IsDigits text) : natural? text = some (Number.ofDigits text) :=
  if_pos ⟨h.1, List.all_eq_true.mpr h.2⟩

theorem positional?_of_isDigits (h : IsDigits text) :
    positional? text = some (Number.ofDigits text : ℚ) := by
  rw [positional?, dropWhile_of_notMem (h.notMem (by decide)), natural?_of_isDigits h]
  rfl

theorem positional?_point (hwhole : IsDigits whole) (hfraction : IsDigits fraction) :
    positional? (whole ++ '.' :: fraction) =
      some ((Number.ofDigits (whole ++ fraction) : ℚ) / 10 ^ fraction.length) := by
  obtain ⟨htake, hdrop⟩ := cut_of_notMem (hwhole.notMem (c := '.') (by decide)) fraction
  have hsum : (Number.ofDigits whole : ℚ) + Number.ofDigits fraction / 10 ^ fraction.length =
      (Number.ofDigits (whole ++ fraction) : ℚ) / 10 ^ fraction.length := by
    rw [Number.ofDigits_append]
    field_simp
    push_cast
    ring
  rw [positional?, hdrop, htake, natural?_of_isDigits hwhole, ← hsum]
  dsimp only
  rw [natural?_of_isDigits hfraction]
  rfl

theorem exponent?_signed (n : Int) : exponent? (signed n) = some n := by
  have hdigits (k : Nat) : natural? (Nat.toDigits 10 k) = some k := by
    rw [natural?_of_isDigits (Number.isDigits_toDigits k), Number.ofDigits_toDigits]
  rw [signed]
  split
  · rw [exponent?, hdigits]
    change some (-(n.natAbs : Int)) = _
    congr 1
    omega
  · rw [exponent?, hdigits]
    change some (n.natAbs : Int) = _
    congr 1
    omega

theorem unsigned?_of_notMem (h : 'e' ∉ text) : unsigned? text = positional? text := by
  rw [unsigned?, dropWhile_of_notMem h]

theorem unsigned?_scientific (h : 'e' ∉ mantissa) {size : ℚ}
    (hsize : positional? mantissa = some size) (exponent : Int) :
    unsigned? (mantissa ++ 'e' :: signed exponent) = some (size * 10 ^ exponent) := by
  obtain ⟨htake, hdrop⟩ := cut_of_notMem h (signed exponent)
  rw [unsigned?, hdrop, htake, hsize]
  dsimp only
  rw [exponent?_signed]
  rfl

theorem denoted?_minus {size : ℚ} (h : unsigned? text = some size) :
    denoted? ('-' :: text) = some (-size) := by
  rw [denoted?, h]
  rfl

theorem denoted?_of_head? (h : text.head? ≠ some '-') : denoted? text = unsigned? text := by
  cases text with
  | nil => rfl
  | cons c rest =>
      rw [denoted?]
      rintro more hsplit
      obtain ⟨rfl, -⟩ := List.cons.inj hsplit
      exact h rfl

end Decimal

end Bol
