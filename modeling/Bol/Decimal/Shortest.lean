/-
# The shortest decimal that reads back

A binary floating-point number stands for every real number that rounds to it. Among the decimals
of that interval `Dyadic.shortest` takes one with the fewest digits, and of those the nearest to
the number itself; between two equally near ones the even significand wins. The search goes from
one digit to seventeen and asks, for each count, only the two neighbours of the number on that
decimal grid: if any point of a grid lies in the interval, one of the two does.
-/

import Bol.Decimal

namespace Bol

/-- The positive binary number `significand * 2 ^ exponent` among its neighbours. -/
structure Dyadic where
  significand : Nat
  exponent : Int
  /-- Whether the next smaller number lies half as far away as the next larger one, as it does
  below a power of two. -/
  nearBelow : Bool
  deriving DecidableEq, Repr

namespace Dyadic

/-- The lower end of the interval that rounds to the number, in quarters of the last place. -/
def low (x : Dyadic) : Nat := 4 * x.significand - (if x.nearBelow then 1 else 2)

/-- The upper end of the interval that rounds to the number, in quarters of the last place. -/
def high (x : Dyadic) : Nat := 4 * x.significand + 2

/-- Whether `a * 10 ^ e ≤ b * 2 ^ k`, decided on natural numbers. -/
def decimalLe (a : Nat) (e : Int) (b : Nat) (k : Int) : Bool :=
  a * power 10 e * power 2 (-k) ≤ b * power 2 k * power 10 (-e)

/-- Whether `b * 2 ^ k ≤ a * 10 ^ e`, decided on natural numbers. -/
def leDecimal (b : Nat) (k : Int) (a : Nat) (e : Int) : Bool :=
  b * power 2 k * power 10 (-e) ≤ a * power 10 e * power 2 (-k)

/-- Whether a decimal rounds to the number. The ends of the interval do exactly when the
significand is even, because ties go to the even neighbour. -/
def reads (x : Dyadic) (decimal : Decimal) : Bool :=
  let ⟨a, e⟩ := decimal
  let k := x.exponent - 2
  if x.significand % 2 = 0 then leDecimal x.low k a e && decimalLe a e x.high k
  else !decimalLe a e x.low k && !leDecimal x.high k a e

/-- The number as a quotient, in units of `10 ^ place`. -/
def quotient (x : Dyadic) (place : Int) : Nat × Nat :=
  (x.significand * power 2 x.exponent * power 10 (-place),
    power 2 (-x.exponent) * power 10 place)

/-- Of the two neighbours of the number among the multiples of `10 ^ place`, the one that reads
back as the number; the nearer of them if both do, and the even one if both are as near. -/
def onGrid? (x : Dyadic) (place : Int) : Option Decimal :=
  let (num, den) := x.quotient place
  let below : Decimal := ⟨num / den, place⟩
  let above : Decimal := ⟨num / den + 1, place⟩
  let excess := 2 * (num % den)
  if x.reads below then
    if x.reads above ∧ (den < excess ∨ den = excess ∧ below.significand % 2 = 1) then some above
    else some below
  else if x.reads above then some above
  else none

/-- The count of decimal digits of `n`, none for zero. -/
def digitCount (n : Nat) : Nat := if n = 0 then 0 else (Nat.toDigits 10 n).length

/-- The least `p` with `x < 10 ^ p`. -/
def magnitude (x : Dyadic) : Int :=
  let (num, den) := x.quotient 0
  if den ≤ num then digitCount (num / den) else 1 - digitCount ((den - 1) / num)

/-- The first hit on the grids of `count`, `count + 1`, … digits, `tries` of them. -/
def search (x : Dyadic) (point : Int) : (tries count : Nat) → Option Decimal
  | 0, _ => none
  | tries + 1, count =>
    match x.onGrid? (point - count) with
    | some hit => some hit
    | none => search x point tries (count + 1)

/-- All digits of the number: a negative power of two is a power of five over one of ten. -/
def exact (x : Dyadic) : Decimal :=
  ⟨x.significand * power 2 x.exponent * power 5 (-x.exponent), min x.exponent 0⟩

/-- How many digits always suffice to tell two 64-bit floating-point numbers apart. -/
def maxDigits : Nat := 17

/-- The shortest decimal that reads back as the number, without trailing zeros. -/
def shortest (x : Dyadic) : Decimal :=
  let found := (x.search x.magnitude maxDigits 1).getD x.exact
  .trim found.significand found.exponent

end Dyadic

end Bol
