/-
# What the text of a number tells

The text of a number of 64 bits is its shortest decimal, laid out, with its sign. Since different
numbers have shortest decimals of different value and a text denotes one value, the text tells
numbers apart, except for the two zeros. These are also what comparing numbers does not tell apart.
-/

import Mathlib.Tactic.Linarith
import Bol.Proofs.Decimal.Shortest
import Bol.Value

namespace Bol.Number

open Float.Model (UnpackedFloat Format)
open Float.Model.UnpackedFloat
open Decimal (withSign sign denoted? layout)

/-! ## The parts of a number -/

/-- What an unpacked number is. -/
def View.ofUnpacked : UnpackedFloat → View
  | .infinity sign => .infinite (sign matches .negative)
  | .notANumber => .nan
  | .zero sign => .zero (sign matches .negative)
  | .finite sign mantissa exponent _ =>
    .finite (sign matches .negative)
      ⟨mantissa, exponent, mantissa == hiddenBit && decide (-1074 < exponent)⟩

section Fields

variable (bits : BitVec Format.binary64.numBits)

theorem toNat_unpackMantissa : (unpackMantissa bits).toNat = bits.toNat % hiddenBit := by
  simp [unpackMantissa, hiddenBit]

theorem toNat_unpackExponent :
    (unpackExponent bits).toNat = bits.toNat / hiddenBit % fieldCount := by
  simp [unpackExponent, hiddenBit, fieldCount, Nat.shiftRight_eq_div_pow]

theorem matches_unpackSign :
    ((Sign.ofBitVec (unpackSign bits)) matches .negative) =
      (bits.toNat / hiddenBit / fieldCount % 2 == 1) := by
  have hsign : ∀ sign : BitVec 1, ((Sign.ofBitVec sign) matches .negative) = (sign.toNat == 1) := by
    decide
  have hbit : (bits.extractLsb 63 63).toNat = bits.toNat / hiddenBit / fieldCount % 2 := by
    simp [hiddenBit, fieldCount, Nat.shiftRight_eq_div_pow, Nat.div_div_eq_div_mul]
  rw [hsign, ← hbit]
  rfl

theorem toNat_one_append (fraction : BitVec 52) :
    (1#1 ++ fraction).toNat = hiddenBit + fraction.toNat := by
  rw [BitVec.toNat_append, ← Nat.shiftLeft_add_eq_or_of_lt fraction.isLt]
  rfl

/-- Taking a bit pattern apart gives what unpacking it does. -/
theorem ofBits_toNat : View.ofBits bits.toNat = .ofUnpacked (.unpack .binary64 bits) := by
  have hbias : (Format.exponentBias .binary64 : Int) = 1023 := rfl
  have hlt : (unpackMantissa bits).toNat < hiddenBit := (unpackMantissa bits).isLt
  have hfull : unpackExponent bits = -1#11 ↔ (unpackExponent bits).toNat = fieldCount - 1 :=
    BitVec.toNat_inj.symm
  have hempty : unpackExponent bits = 0#11 ↔ (unpackExponent bits).toNat = 0 :=
    BitVec.toNat_inj.symm
  have hzero : unpackMantissa bits = 0#52 ↔ (unpackMantissa bits).toNat = 0 :=
    BitVec.toNat_inj.symm
  unfold View.ofBits unpack
  dsimp only
  rw [← toNat_unpackMantissa, ← toNat_unpackExponent, ← matches_unpackSign]
  by_cases hexponent : unpackExponent bits = -1#11
  · rw [if_pos (hfull.mp hexponent), if_pos hexponent]
    by_cases hfraction : unpackMantissa bits = 0#52
    · rw [if_pos (hzero.mp hfraction), if_pos hfraction]
      rfl
    · rw [if_neg (mt hzero.mpr hfraction), if_neg hfraction]
      rfl
  rw [if_neg (mt hfull.mpr hexponent), if_neg hexponent]
  by_cases hleast : unpackExponent bits = 0#11
  · rw [if_pos (hempty.mp hleast), if_pos hleast]
    by_cases hfraction : unpackMantissa bits = 0#52
    · rw [if_pos (hzero.mp hfraction), dif_pos hfraction]
      rfl
    · rw [if_neg (mt hzero.mpr hfraction), dif_neg hfraction]
      refine congrArg (View.finite _) (Dyadic.ext rfl ?_ ?_) <;> dsimp only
      · have hzero := hempty.mp hleast
        omega
      · rw [beq_false_of_ne hlt.ne, Bool.false_and]
  · rw [if_neg (mt hempty.mpr hleast), if_neg hleast]
    refine congrArg (View.finite _) (Dyadic.ext ?_ ?_ ?_) <;> dsimp only
    · rw [toNat_one_append]
    · omega
    · rw [toNat_one_append, Bool.eq_iff_iff]
      simp only [Bool.and_eq_true, beq_iff_eq, decide_eq_true_iff]
      omega

end Fields

theorem view_eq_ofUnpacked (x : Float) : view x = .ofUnpacked x.toModel.unpack :=
  ofBits_toNat x.toModel.toBits.toBitVec

/-- Views of numbers that bits can have. -/
def View.IsDouble : View → Prop
  | .finite _ magnitude => magnitude.IsDouble
  | _ => True

theorem isDouble_ofBits (bits : Nat) : (View.ofBits bits).IsDouble := by
  have hfraction : bits % hiddenBit < hiddenBit := Nat.mod_lt bits (by decide)
  unfold View.ofBits
  dsimp only
  split
  · split <;> trivial
  split
  · split
    · trivial
    · constructor <;> dsimp only
      · omega
      · omega
      · exact le_rfl
      · exact .inl rfl
      · simp
  · constructor <;> dsimp only
    · omega
    · omega
    · omega
    · exact .inr (Nat.le_add_right _ _)
    · simp only [Bool.and_eq_true, beq_iff_eq, decide_eq_true_iff]
      omega

/-! ## Equality of numbers -/

/-- The view in which both zeros are one. -/
def View.mergeZeros : View → View
  | .zero _ => .zero false
  | view => view

theorem finite_eq_iff {negative negative' : Bool} {m n : Nat} {e k : Int} :
    View.finite negative ⟨m, e, m == hiddenBit && decide (-1074 < e)⟩ =
        .finite negative' ⟨n, k, n == hiddenBit && decide (-1074 < k)⟩ ↔
      negative = negative' ∧ e = k ∧ m = n := by
  rw [View.finite.injEq, Dyadic.mk.injEq]
  refine and_congr_right fun _ => ⟨fun ⟨hm, he, _⟩ => ⟨he, hm⟩, ?_⟩
  rintro ⟨rfl, rfl⟩
  exact ⟨rfl, rfl, rfl⟩

theorem compare_finite_iff {sign sign' : Sign} {m n : Nat} {e k : Int} {hm : 0 < m} {hn : 0 < n} :
    ((finite sign m e hm).compare (finite sign' n k hn) == some .eq) = true ↔
      (sign matches .negative) = (sign' matches .negative) ∧ e = k ∧ m = n := by
  cases sign <;> cases sign'
  case negative.negative =>
    change (some ((compare e k).then (compare m n)).swap == some .eq) = true ↔ _
    simp
  case positive.positive =>
    change (some ((compare e k).then (compare m n)) == some .eq) = true ↔ _
    simp
  case negative.positive | positive.negative => exact iff_of_false Bool.false_ne_true (by simp)

/-- Numbers are equal if they are the same or both are zero. -/
theorem beq_unpacked_iff {a b : UnpackedFloat} (ha : a.isNaN = false) (hb : b.isNaN = false) :
    a.beq b = true ↔ (View.ofUnpacked a).mergeZeros = (View.ofUnpacked b).mergeZeros := by
  change (a.compare b == some .eq) = true ↔ _
  cases a with
  | notANumber => cases ha
  | infinity sign =>
      cases b with
      | notANumber => cases hb
      | infinity sign' => cases sign <;> cases sign' <;> decide
      | zero | finite => cases sign <;> exact iff_of_false Bool.false_ne_true nofun
  | zero =>
      cases b with
      | notANumber => cases hb
      | zero => exact iff_of_true rfl rfl
      | infinity sign' | finite sign' =>
          cases sign' <;> exact iff_of_false Bool.false_ne_true nofun
  | finite sign =>
      cases b with
      | notANumber => cases hb
      | infinity sign' | zero sign' =>
          cases sign <;> cases sign' <;> exact iff_of_false Bool.false_ne_true nofun
      | finite => exact compare_finite_iff.trans finite_eq_iff.symm

theorem beq_iff_mergeZeros {x y : Float} (hx : x.isNaN = false) (hy : y.isNaN = false) :
    (x == y) = true ↔ (view x).mergeZeros = (view y).mergeZeros := by
  rw [view_eq_ofUnpacked, view_eq_ofUnpacked]
  exact beq_unpacked_iff hx hy

/-! ## Texts of numbers -/

/-- The rational number that the text of a view denotes, if it denotes one. -/
def View.size? : View → Option ℚ
  | .nan | .infinite _ => none
  | .zero _ => some 0
  | .finite negative magnitude => some (sign negative * magnitude.shortest.value)

/-- The text of a number is its shortest decimal with its sign. -/
theorem View.text_finite (negative : Bool) (magnitude : Dyadic) :
    (View.finite negative magnitude).text = String.ofList
      (withSign negative (layout magnitude.shortest.digits magnitude.shortest.exponent)) := by
  cases negative with
  | false => rfl
  | true =>
    apply String.toList_inj.mp
    simp [View.text, withSign, Decimal.text]

theorem View.denoted?_text {view : View} (h : view.IsDouble) :
    denoted? view.text.toList = view.size? := by
  cases view with
  | nan => decide
  | infinite negative => cases negative <;> decide
  | zero =>
      change denoted? "0".toList = some 0
      decide
  | finite negative magnitude =>
      have hdigits := (Dyadic.isNormal_shortest h.pos).isDigits
      have hvalue : magnitude.shortest.value =
          ofDigits magnitude.shortest.digits * 10 ^ magnitude.shortest.exponent := by
        rw [Decimal.digits, ofDigits_toDigits, Decimal.value]
      rw [View.text_finite, String.toList_ofList, View.size?, hvalue]
      exact Decimal.denoted?_withSign (Decimal.unsigned?_layout hdigits _)
        (Decimal.head?_layout hdigits _) negative

theorem View.text_mergeZeros (view : View) : view.mergeZeros.text = view.text := by
  cases view <;> rfl

theorem sign_mul_inj {negative negative' : Bool} {a b : ℚ} (ha : 0 < a) (hb : 0 < b)
    (h : sign negative * a = sign negative' * b) : negative = negative' ∧ a = b := by
  cases negative <;> cases negative' <;> simp [sign] at h ⊢ <;> linarith

theorem sign_mul_ne_zero {negative : Bool} {a : ℚ} (ha : 0 < a) : sign negative * a ≠ 0 := by
  cases negative <;> simp [sign, ha.ne']

/-- The text tells all numbers apart but the zeros. -/
theorem View.text_eq_iff {v w : View} (hv : v.IsDouble) (hw : w.IsDouble) (hvnan : v ≠ .nan)
    (hwnan : w ≠ .nan) : v.text = w.text ↔ v.mergeZeros = w.mergeZeros := by
  refine ⟨fun htext => ?_, fun hsame => ?_⟩
  · have hsize : v.size? = w.size? := by
      rw [← View.denoted?_text hv, ← View.denoted?_text hw, htext]
    have hpositive {magnitude : Dyadic} (h : magnitude.IsDouble) : 0 < magnitude.shortest.value :=
      (Dyadic.covers_shortest h.pos).pos h.pos
    cases v with
    | nan => exact absurd rfl hvnan
    | infinite negative =>
        cases w with
        | nan => exact absurd rfl hwnan
        | infinite negative' =>
            revert htext
            cases negative <;> cases negative' <;> decide
        | zero | finite => cases hsize
    | zero =>
        cases w with
        | nan => exact absurd rfl hwnan
        | infinite => cases hsize
        | zero => rfl
        | finite => exact absurd (Option.some.inj hsize).symm (sign_mul_ne_zero (hpositive hw))
    | finite negative magnitude =>
        cases w with
        | nan => exact absurd rfl hwnan
        | infinite => cases hsize
        | zero => exact absurd (Option.some.inj hsize) (sign_mul_ne_zero (hpositive hv))
        | finite negative' magnitude' =>
            obtain ⟨rfl, hvalue⟩ :=
              sign_mul_inj (hpositive hv) (hpositive hw) (Option.some.inj hsize)
            rw [Dyadic.eq_of_value_shortest hv hw hvalue]
  · rw [← v.text_mergeZeros, hsame, w.text_mergeZeros]

theorem isDouble_view (x : Float) : (view x).IsDouble := isDouble_ofBits x.toBits.toNat

theorem view_ne_nan {x : Float} (h : x.isNaN = false) : view x ≠ .nan := by
  rw [view_eq_ofUnpacked]
  change x.toModel.unpack.isNaN = false at h
  cases hunpack : x.toModel.unpack with
  | notANumber =>
      rw [hunpack] at h
      cases h
  | infinity | zero | finite => exact View.noConfusion

/-- The text of a number is exact and unambiguous. Laid out with a sign, digits without a zero in
front or at the end and an exponent denote just the signed digits times the power of ten; the text
has an exponent exactly if the size is below a millionth or at least `10 ^ 21`, and if it has none,
it has no zero to spare and is read as one number, after a minus if negative. The text of a number
is a sign and such digits, those of its shortest decimal. Two numbers are shown alike exactly if
they are equal. -/
theorem text_exact_unambiguous :
    (∀ (negative : Bool) (digits : List Char) (exponent : Int), Decimal.IsNormal digits →
      denoted? (withSign negative (layout digits exponent)) =
          some (sign negative * (ofDigits digits * 10 ^ exponent)) ∧
        ('e' ∈ withSign negative (layout digits exponent) ↔
          (ofDigits digits : ℚ) * 10 ^ exponent < 10 ^ (-6 : Int) ∨
            10 ^ (21 : Int) ≤ (ofDigits digits : ℚ) * 10 ^ exponent) ∧
        ('e' ∉ withSign negative (layout digits exponent) →
          Decimal.HasNoSpareZero (layout digits exponent) ∧
            Token.scan (String.ofList (withSign negative (layout digits exponent))) =
              .ok (Decimal.numberTokens negative (layout digits exponent)))) ∧
      (∀ (x : Float) (negative : Bool) (magnitude : Dyadic), view x = .finite negative magnitude →
        Decimal.IsNormal magnitude.shortest.digits ∧ text x = String.ofList
          (withSign negative (layout magnitude.shortest.digits magnitude.shortest.exponent))) ∧
      ∀ x y : Float, x.isNaN = false → y.isNaN = false →
        ((Value.number x).display = (Value.number y).display ↔
          (Value.number x).equal (.number y) = true) := by
  refine ⟨fun negative digits exponent h => ?_, fun x negative magnitude hview => ?_,
    fun x y hx hy => ?_⟩
  · have hdigits := h.isDigits
    refine ⟨Decimal.denoted?_withSign (Decimal.unsigned?_layout hdigits exponent)
      (Decimal.head?_layout hdigits exponent) negative, ?_, fun hplain => ?_⟩
    · rw [Decimal.e_mem_withSign_iff, Decimal.e_mem_layout_iff hdigits, Decimal.far_iff h]
    · rw [Decimal.e_mem_withSign_iff, Decimal.e_mem_layout_iff hdigits] at hplain
      have hpositional : Decimal.Positional digits exponent (layout digits exponent) :=
        Decimal.positional_layout hdigits.1 (by omega)
      exact ⟨hpositional.hasNoSpareZero h,
        Decimal.scan_withSign (hpositional.isNumber hdigits) negative⟩
  · have hdouble : (View.finite negative magnitude).IsDouble := hview ▸ isDouble_view x
    refine ⟨Dyadic.isNormal_shortest hdouble.pos, ?_⟩
    rw [text, hview, View.text_finite]
  · have htexts := View.text_eq_iff (isDouble_view x) (isDouble_view y) (view_ne_nan hx)
      (view_ne_nan hy)
    exact htexts.trans (beq_iff_mergeZeros hx hy).symm

/-- A number with an exponent, one without, and the two zeros. -/
theorem text_exact_unambiguous_zeros :
    let minusZero : Float := .ofBits 0x8000000000000000
    let half : Dyadic := ⟨hiddenBit, -53, true⟩
    (Decimal.IsNormal ['1', '5'] ∧
        denoted? (withSign true (layout ['1', '5'] (-10))) =
          some (sign true * (15 * 10 ^ (-10 : Int))) ∧
        withSign true (layout ['1', '5'] (-10)) = "-1.5e-9".toList) ∧
      (view 0.5 = .finite false half ∧ text 0.5 =
        String.ofList (withSign false (layout half.shortest.digits half.shortest.exponent))) ∧
      ((0 : Float).isNaN = false ∧ minusZero.isNaN = false ∧
        (Value.number 0).display = (Value.number minusZero).display ∧
        (Value.number 0).equal (.number minusZero) = true) := by
  intro minusZero half
  obtain ⟨hlayout, htext, hequal⟩ := text_exact_unambiguous
  have hnormal : Decimal.IsNormal ['1', '5'] :=
    ⟨⟨by decide, List.all_eq_true.mp rfl⟩, by decide, by decide⟩
  have hview : view 0.5 = .finite false half := by decide +kernel
  have hzero : (0 : Float).isNaN = false := by decide +kernel
  have hminus : minusZero.isNaN = false := by decide +kernel
  have hdisplay : (Value.number 0).display = (Value.number minusZero).display := by decide +kernel
  exact ⟨⟨hnormal, (hlayout true _ (-10) hnormal).1, by decide⟩, ⟨hview, (htext _ _ _ hview).2⟩,
    hzero, hminus, hdisplay, (hequal 0 minusZero hzero hminus).mp hdisplay⟩

end Bol.Number
