/-
# Decimal numbers

Positive decimal numbers, and how their digits are laid out as text. A number is written with
its point in place as long as the point stands at most 21 digits to the right of the first digit
and fewer than six zeros to the left of it; any other is written with one digit before the point
and a signed exponent.
-/

namespace Bol

/-- A power with a natural exponent; all powers with other exponents count as one. A quotient of
two of them stands for the power with any whole exponent. -/
def power (base : Nat) (exponent : Int) : Nat := Nat.pow base exponent.toNat

/-- The number `significand * 10 ^ exponent`. -/
structure Decimal where
  significand : Nat
  exponent : Int
  deriving DecidableEq, Repr

namespace Decimal

/-- The same number without trailing zeros in its significand. -/
def trim (significand : Nat) (exponent : Int) : Decimal :=
  if significand ≠ 0 ∧ significand % 10 = 0 then trim (significand / 10) (exponent + 1)
  else ⟨significand, exponent⟩
termination_by significand
decreasing_by omega

/-- How far to the right of the first digit the point may stand in positional notation. -/
def maxPoint : Int := 21

/-- How many zeros between the point and the first digit call for an exponent. -/
def minZeros : Int := 6

/-- A whole number with its sign, which is written even when it is `+`. -/
def signed (n : Int) : List Char :=
  (if n < 0 then '-' else '+') :: Nat.toDigits 10 n.natAbs

/-- The digits with a point after the first one; a single digit has no point. -/
def mantissa : List Char → List Char
  | first :: second :: rest => first :: '.' :: second :: rest
  | digits => digits

/-- The text of the number with the given digits (the first and the last of them no zeros) times
`10 ^ exponent`. The point stands `point` places after the start of the digits. -/
def layout (digits : List Char) (exponent : Int) : List Char :=
  let point := exponent + digits.length
  if digits.length ≤ point ∧ point ≤ maxPoint then
    digits ++ List.replicate (point - digits.length).toNat '0'
  else if 0 < point ∧ point ≤ maxPoint then
    digits.take point.toNat ++ '.' :: digits.drop point.toNat
  else if -minZeros < point ∧ point ≤ 0 then
    '0' :: '.' :: (List.replicate (-point).toNat '0' ++ digits)
  else mantissa digits ++ 'e' :: signed (point - 1)

/-- The digits of the significand. -/
def digits (number : Decimal) : List Char := Nat.toDigits 10 number.significand

/-- The text of a number whose significand has no trailing zero. -/
def text (number : Decimal) : String := .ofList (layout number.digits number.exponent)

end Decimal

end Bol
