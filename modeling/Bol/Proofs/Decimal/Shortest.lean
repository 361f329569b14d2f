/-
# The shortest decimal tells numbers apart

The decimals that read back as a number form an interval around it, and the intervals of different
numbers of 64 bits have nothing in common: where two of them meet, the number of one of them has an
odd significand, so that its interval lacks the end. The shortest decimal of a number lies in its
interval, however far the search for it went. So different numbers have shortest decimals of
different value.
-/

import Bol.Proofs.Decimal.Layout

namespace Bol

/-- A quotient of two powers is the power with any whole exponent. -/
theorem power_eq_zpow_mul {base : Nat} (hbase : 0 < base) (exponent : Int) :
    (power base exponent : ℚ) = (base : ℚ) ^ exponent * power base (-exponent) := by
  have hne : (base : ℚ) ≠ 0 := Nat.cast_ne_zero.mpr hbase.ne'
  obtain ⟨n, rfl | rfl⟩ := exponent.eq_nat_or_neg
  · simp [power]
  · simp [power, hne]

theorem power_pos {base : Nat} (hbase : 0 < base) (exponent : Int) : 0 < power base exponent :=
  Nat.pow_pos hbase

/-! ## The value of a decimal -/

namespace Decimal

def value (number : Decimal) : ℚ := number.significand * 10 ^ number.exponent

/-- Leaving out trailing zeros keeps the value. -/
theorem value_trim (significand : Nat) (exponent : Int) :
    (trim significand exponent).value = significand * 10 ^ exponent := by
  fun_induction trim significand exponent with
  | case1 significand exponent hzero ih =>
      have hten : (significand : ℚ) = (significand / 10 : Nat) * 10 := by
        exact_mod_cast (Nat.div_mul_cancel (Nat.dvd_of_mod_eq_zero hzero.2)).symm
      rw [ih, zpow_add_one₀ (by norm_num), hten]
      ring
  | case2 => rfl

theorem trim_mod_ten {significand : Nat} (h : significand ≠ 0) (exponent : Int) :
    (trim significand exponent).significand % 10 ≠ 0 := by
  fun_induction trim significand exponent with
  | case1 significand exponent hzero ih => exact ih (by omega)
  | case2 significand exponent hlast => exact fun hzero => hlast ⟨h, hzero⟩

theorem digitChar_ne_zero {n : Nat} (hsmall : n < 10) (h : n ≠ 0) : n.digitChar ≠ '0' := by
  revert n
  decide

theorem head?_toDigits {n : Nat} (h : n ≠ 0) : (Nat.toDigits 10 n).head? ≠ some '0' := by
  induction n using Nat.strong_induction_on with
  | _ n ih =>
      rw [Nat.toDigits_eq_if (by decide)]
      split
      case isTrue hsmall =>
        simpa using digitChar_ne_zero hsmall h
      case isFalse hlarge =>
        rw [List.head?_append_of_ne_nil _ Nat.toDigits_ne_nil]
        exact ih (n / 10) (by omega) (by omega)

theorem getLast?_toDigits {n : Nat} (h : n % 10 ≠ 0) : (Nat.toDigits 10 n).getLast? ≠ some '0' := by
  have hlast : (Nat.toDigits 10 n).getLast? = some (n % 10).digitChar := by
    rw [Nat.toDigits_eq_if (by decide)]
    split
    · rw [Nat.mod_eq_of_lt (by assumption)]
      rfl
    · exact List.getLast?_concat
  rw [hlast, Ne, Option.some.injEq]
  exact digitChar_ne_zero (Nat.mod_lt n (by decide)) h

theorem isNormal_digits {number : Decimal} (h : number.significand % 10 ≠ 0) :
    IsNormal number.digits where
  isDigits := Number.isDigits_toDigits _
  front := head?_toDigits fun hzero => h (by rw [hzero])
  back := getLast?_toDigits h

end Decimal

/-! ## The interval that rounds to a number -/

attribute [ext] Dyadic

namespace Dyadic

open Decimal (value)

variable {x y : Dyadic}

section Compare

variable (a b : Nat) (e k : Int)

/-- Both sides of a comparison on natural numbers are those of the comparison itself, multiplied by
one positive number. -/
theorem scaled_eq : ∃ scale : ℚ, 0 < scale ∧
    (a * power 10 e * power 2 (-k) : Nat) = (a * 10 ^ e : ℚ) * scale ∧
    (b * power 2 k * power 10 (-e) : Nat) = (b * 2 ^ k : ℚ) * scale := by
  have hten := @power_eq_zpow_mul 10 (by decide) e
  have htwo := @power_eq_zpow_mul 2 (by decide) k
  refine ⟨power 10 (-e) * power 2 (-k), ?_, ?_, ?_⟩
  · exact_mod_cast Nat.mul_pos (power_pos (by decide) _) (power_pos (by decide) _)
  · push_cast at hten ⊢
    rw [hten]
    ring
  · push_cast at htwo ⊢
    rw [htwo]
    ring

theorem decimalLe_iff : decimalLe a e b k = true ↔ (a : ℚ) * 10 ^ e ≤ b * 2 ^ k := by
  obtain ⟨scale, hscale, hdecimal, hbinary⟩ := scaled_eq a b e k
  rw [decimalLe, decide_eq_true_iff, ← mul_le_mul_iff_of_pos_right hscale, ← hdecimal, ← hbinary,
    Nat.cast_le]

theorem leDecimal_iff : leDecimal b k a e = true ↔ (b : ℚ) * 2 ^ k ≤ a * 10 ^ e := by
  obtain ⟨scale, hscale, hdecimal, hbinary⟩ := scaled_eq a b e k
  rw [leDecimal, decide_eq_true_iff, ← mul_le_mul_iff_of_pos_right hscale, ← hdecimal, ← hbinary,
    Nat.cast_le]

end Compare

/-- A value rounds to the number: it lies between the middles to its neighbours, or is one of them
and the significand is even. -/
def Covers (x : Dyadic) (v : ℚ) : Prop :=
  if x.significand % 2 = 0 then
    (x.low : ℚ) * 2 ^ (x.exponent - 2) ≤ v ∧ v ≤ x.high * 2 ^ (x.exponent - 2)
  else (x.low : ℚ) * 2 ^ (x.exponent - 2) < v ∧ v < x.high * 2 ^ (x.exponent - 2)

theorem reads_iff_covers (x : Dyadic) (number : Decimal) :
    x.reads number = true ↔ x.Covers number.value := by
  unfold reads Covers value
  dsimp only
  split
  · rw [Bool.and_eq_true, leDecimal_iff, decimalLe_iff]
  · rw [Bool.and_eq_true, Bool.not_eq_true', Bool.not_eq_true', ← Bool.not_eq_true,
      ← Bool.not_eq_true, decimalLe_iff, leDecimal_iff, not_le, not_le]

theorem Covers.bounds {v : ℚ} (h : x.Covers v) :
    (x.low : ℚ) * 2 ^ (x.exponent - 2) ≤ v ∧ v ≤ x.high * 2 ^ (x.exponent - 2) := by
  unfold Covers at h
  split at h
  · exact h
  · exact ⟨h.1.le, h.2.le⟩

/-! ## The shortest decimal lies in the interval -/

/-- The positive numbers of 64 bits: the significand has 53 bits, and fewer only with the least
exponent. -/
structure IsDouble (x : Dyadic) : Prop where
  pos : 0 < x.significand
  lt : x.significand < 2 * Number.hiddenBit
  least : -1074 ≤ x.exponent
  normal : x.exponent = -1074 ∨ Number.hiddenBit ≤ x.significand
  near : x.nearBelow = true ↔ x.significand = Number.hiddenBit ∧ -1074 < x.exponent

theorem onGrid?_reads {place : Int} {number : Decimal} (h : x.onGrid? place = some number) :
    x.reads number = true := by
  unfold onGrid? at h
  dsimp only at h
  split at h
  · split at h
    · rename_i hbelow habove
      obtain rfl := Option.some.inj h
      exact habove.1
    · obtain rfl := Option.some.inj h
      assumption
  · split at h
    · obtain rfl := Option.some.inj h
      assumption
    · cases h

theorem search_reads {point : Int} {tries count : Nat} {number : Decimal}
    (h : x.search point tries count = some number) : x.reads number = true := by
  induction tries generalizing count with
  | zero => cases h
  | succ tries ih =>
      rw [search] at h
      split at h
      · rename_i hit hgrid
        obtain rfl := Option.some.inj h
        exact onGrid?_reads hgrid
      · exact ih h

/-- All digits of a number are the number itself. -/
theorem value_exact (x : Dyadic) : x.exact.value = x.significand * 2 ^ x.exponent := by
  unfold exact value
  obtain ⟨n, hn | hn⟩ := x.exponent.eq_nat_or_neg
  · simp [hn, power]
  · have hten : (10 : ℚ) ^ n = 2 ^ n * 5 ^ n := by rw [← mul_pow]; norm_num
    have hmin : min (-(n : Int)) 0 = -n := min_eq_left (by omega)
    simp only [hn, power, hmin, neg_neg, Int.toNat_neg_natCast, Int.toNat_natCast, Nat.pow_eq,
      zpow_neg, zpow_natCast, hten]
    push_cast
    field_simp

theorem low_pos (h : 0 < x.significand) : 0 < x.low := by
  unfold low
  split <;> omega

/-- A number rounds to itself. -/
theorem covers_self (h : 0 < x.significand) : x.Covers (x.significand * 2 ^ x.exponent) := by
  have hquarter : (2 : ℚ) ^ x.exponent = 4 * 2 ^ (x.exponent - 2) := by
    rw [zpow_sub₀ (by norm_num)]
    norm_num
    ring
  have hpower : (0 : ℚ) < 2 ^ (x.exponent - 2) := zpow_pos (by norm_num) _
  have hlow : (x.low : ℚ) * 2 ^ (x.exponent - 2) < x.significand * 2 ^ x.exponent := by
    rw [hquarter, ← mul_assoc]
    refine mul_lt_mul_of_pos_right ?_ hpower
    have hlt : x.low < x.significand * 4 := by
      unfold low
      split <;> omega
    exact_mod_cast hlt
  have hhigh : (x.significand : ℚ) * 2 ^ x.exponent < x.high * 2 ^ (x.exponent - 2) := by
    rw [hquarter, ← mul_assoc]
    refine mul_lt_mul_of_pos_right ?_ hpower
    have hlt : x.significand * 4 < x.high := by
      unfold high
      omega
    exact_mod_cast hlt
  unfold Covers
  split
  · exact ⟨hlow.le, hhigh.le⟩
  · exact ⟨hlow, hhigh⟩

theorem Covers.pos {v : ℚ} (h : x.Covers v) (hpos : 0 < x.significand) : 0 < v := by
  have hlow : (0 : ℚ) < x.low * 2 ^ (x.exponent - 2) :=
    mul_pos (Nat.cast_pos.mpr (low_pos hpos)) (zpow_pos (by norm_num) _)
  exact hlow.trans_le h.bounds.1

/-- The decimal that the search ends with, before zeros are left out of it. -/
theorem exists_found (h : 0 < x.significand) : ∃ number : Decimal, x.Covers number.value ∧
    x.shortest = .trim number.significand number.exponent := by
  refine ⟨(x.search x.magnitude maxDigits 1).getD x.exact, ?_, rfl⟩
  cases hfound : x.search x.magnitude maxDigits 1 with
  | none =>
      rw [Option.getD_none, value_exact]
      exact covers_self h
  | some number =>
      rw [Option.getD_some]
      exact (reads_iff_covers x number).mp (search_reads hfound)

/-- The shortest decimal rounds to the number. -/
theorem covers_shortest (h : 0 < x.significand) : x.Covers x.shortest.value := by
  obtain ⟨number, hcovers, hshortest⟩ := exists_found h
  rw [hshortest, Decimal.value_trim]
  exact hcovers

/-- The digits of the shortest decimal have no zero in front or at the end. -/
theorem isNormal_shortest (h : 0 < x.significand) : Decimal.IsNormal x.shortest.digits := by
  obtain ⟨number, hcovers, hshortest⟩ := exists_found h
  apply Decimal.isNormal_digits
  rw [hshortest]
  refine Decimal.trim_mod_ten (fun hzero => ?_) _
  have hpos := hcovers.pos h
  rw [value, hzero] at hpos
  simp at hpos

/-! ## The intervals of different numbers -/

section Apart

variable {steps : Nat} {v w : ℚ}

/-- The low end of a number above the least exponent, doubled. -/
theorem IsDouble.le_low (h : y.IsDouble) (hexponent : -1074 < y.exponent) :
    8 * Number.hiddenBit - 2 ≤ y.low * 2 := by
  have hbit := h.normal.resolve_left (by omega)
  have hnear := h.near
  unfold low
  split
  · omega
  · have hne : y.significand ≠ Number.hiddenBit := fun heq => by simp_all
    omega

/-- The interval of a number ends before that of a larger one starts, or where it starts; but not
there if both significands are even. -/
theorem high_le_low (hx : x.IsDouble) (hy : y.IsDouble) (hsteps : y.exponent = x.exponent + steps)
    (hless : 0 < steps ∨ x.significand < y.significand) :
    x.high ≤ y.low * 2 ^ steps ∧
      (x.significand % 2 = 0 → y.significand % 2 = 0 → x.high < y.low * 2 ^ steps) := by
  unfold high
  cases steps with
  | zero =>
      have hless := hless.resolve_left (Nat.lt_irrefl 0)
      have hfar : y.nearBelow = false := by
        by_contra hnear
        obtain ⟨hbit, hexponent⟩ := hy.near.mp (by simpa using hnear)
        rcases hx.normal with hleast | hnormal <;> omega
      rw [low, hfar, if_neg (by decide)]
      omega
  | succ steps =>
      have hleast := hx.least
      have hlt := hx.lt
      have hlow := hy.le_low (by omega)
      have hpower : y.low * 2 ≤ y.low * 2 ^ (steps + 1) :=
        Nat.mul_le_mul_left _ (Nat.le_self_pow (Nat.succ_ne_zero steps) 2)
      omega

/-- Values that round to a larger number are larger. -/
theorem lt_of_covers (hx : x.IsDouble) (hy : y.IsDouble) (hsteps : y.exponent = x.exponent + steps)
    (hless : 0 < steps ∨ x.significand < y.significand) (hv : x.Covers v) (hw : y.Covers w) :
    v < w := by
  obtain ⟨hle, hlt⟩ := high_le_low hx hy hsteps hless
  have hpower : (0 : ℚ) < 2 ^ (x.exponent - 2) := zpow_pos (by norm_num) _
  have hlow : (y.low : ℚ) * 2 ^ (y.exponent - 2) =
      (y.low * 2 ^ steps : Nat) * 2 ^ (x.exponent - 2) := by
    rw [hsteps, add_sub_right_comm, zpow_add₀ (by norm_num), zpow_natCast]
    push_cast
    ring
  have hmiddle : (x.high : ℚ) * 2 ^ (x.exponent - 2) ≤ y.low * 2 ^ (y.exponent - 2) := by
    rw [hlow]
    exact mul_le_mul_of_nonneg_right (Nat.cast_le.mpr hle) hpower.le
  by_cases hxeven : x.significand % 2 = 0
  · by_cases hyeven : y.significand % 2 = 0
    · have hstrict : (x.high : ℚ) * 2 ^ (x.exponent - 2) < y.low * 2 ^ (y.exponent - 2) := by
        rw [hlow]
        exact mul_lt_mul_of_pos_right (Nat.cast_lt.mpr (hlt hxeven hyeven)) hpower
      exact hv.bounds.2.trans_lt (hstrict.trans_le hw.bounds.1)
    · rw [Covers, if_neg hyeven] at hw
      exact hv.bounds.2.trans_lt (hmiddle.trans_lt hw.1)
  · rw [Covers, if_neg hxeven] at hv
    exact hv.2.trans_le (hmiddle.trans hw.bounds.1)

end Apart

/-- No value rounds to two numbers. -/
theorem eq_of_covers (hx : x.IsDouble) (hy : y.IsDouble) {v : ℚ} (hxv : x.Covers v)
    (hyv : y.Covers v) : x = y := by
  have hnone {a b : Dyadic} (ha : a.IsDouble) (hb : b.IsDouble) (hav : a.Covers v)
      (hbv : b.Covers v) : ¬ (a.exponent < b.exponent ∨
        a.exponent = b.exponent ∧ a.significand < b.significand) := by
    intro hless
    obtain ⟨steps, hsteps⟩ := Int.le.dest (a := a.exponent) (b := b.exponent) (by omega)
    exact lt_irrefl v (lt_of_covers ha hb hsteps.symm (by omega) hav hbv)
  have hxy := hnone hx hy hxv hyv
  have hyx := hnone hy hx hyv hxv
  have hexponent : x.exponent = y.exponent := by omega
  have hsignificand : x.significand = y.significand := by omega
  have hnear : x.nearBelow = y.nearBelow := by
    rw [Bool.eq_iff_iff, hx.near, hy.near, hsignificand, hexponent]
  exact Dyadic.ext hsignificand hexponent hnear

/-- The shortest decimals of different numbers differ in value. -/
theorem eq_of_value_shortest (hx : x.IsDouble) (hy : y.IsDouble)
    (h : x.shortest.value = y.shortest.value) : x = y :=
  eq_of_covers hx hy (covers_shortest hx.pos) (h ▸ covers_shortest hy.pos)

end Dyadic

end Bol
