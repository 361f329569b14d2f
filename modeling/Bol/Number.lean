/-
# Numbers as text

Numbers are 64-bit floating-point numbers. They are shown with the fewest digits that read back as
the same number, and read as the one nearest to what a text says. Source text has numbers of digits
only, with a fraction after a point if there is one. A number token that was made by hand may have
any text: signs, exponents, underscores between digits, the digits of other scripts and the words
for infinity and for what is no number are all understood, and other texts are refused.
-/

import Bol.Decimal.Shortest
import Bol.Text.Characters

namespace Bol.Number

/-- What a floating-point number is, by its bits: a sign, eleven bits of exponent and fifty-two
of fraction. -/
inductive View
  | nan
  | infinite (negative : Bool)
  | zero (negative : Bool)
  | finite (negative : Bool) (magnitude : Dyadic)
  deriving DecidableEq, Repr

/-- The bit above the fraction, two to the power of 52; normal numbers have it without showing
it. -/
def hiddenBit : Nat := 0x10000000000000

/-- The number of exponent fields, two to the power of 11. -/
def fieldCount : Nat := 0x800

/-- Takes a bit pattern apart. An exponent field of zero marks the numbers below the smallest
normal one, which lack the hidden bit; a full field marks infinity and what is no number. -/
def View.ofBits (bits : Nat) : View :=
  let negative := bits / hiddenBit / fieldCount % 2 == 1
  let field : Nat := bits / hiddenBit % fieldCount
  let fraction : Nat := bits % hiddenBit
  if field = fieldCount - 1 then if fraction = 0 then .infinite negative else .nan
  else if field = 0 then
    if fraction = 0 then .zero negative else .finite negative ⟨fraction, -1074, false⟩
  else .finite negative ⟨hiddenBit + fraction, (field : Int) - 1075, fraction == 0 && 1 < field⟩

def view (x : Float) : View := .ofBits x.toBits.toNat

/-- The text of a number; both zeros are written alike. -/
def View.text : View → String
  | .nan => "NaN"
  | .infinite negative => if negative then "-Infinity" else "Infinity"
  | .zero _ => "0"
  | .finite negative magnitude =>
    if negative then "-" ++ magnitude.shortest.text else magnitude.shortest.text

def text (x : Float) : String := (view x).text

/-- The natural number that digits stand for. -/
def ofDigits (digits : List Char) : Nat :=
  digits.foldl (fun n c => 10 * n + (c.toNat - '0'.toNat)) 0

/-! ## Reading -/

/-- What a text says a number is. -/
inductive Reading
  | nan
  | infinite (negative : Bool)
  | decimal (negative : Bool) (magnitude : Decimal)
  deriving DecidableEq, Repr

/-- The floating-point number nearest to a decimal number, with the given sign. -/
def ofDecimal (negative : Bool) (magnitude : Decimal) : Float :=
  let x := Float.ofScientific magnitude.significand (magnitude.exponent < 0)
    magnitude.exponent.natAbs
  if negative then -x else x

/-- The floating-point number for what a text says. -/
def Reading.value : Reading → Float
  | nan => 0.0 / 0.0
  | infinite negative => if negative then -1.0 / 0.0 else 1.0 / 0.0
  | decimal negative magnitude => ofDecimal negative magnitude

/-- A character as it counts in the text of a number: all blanks and the digits of all scripts
count as those of ASCII. -/
def plain (c : Char) : Char :=
  if c.toNat < 127 then c
  else if Text.isBlank c then ' '
  else
    match Text.zeroDigit? c with
    | some first => Nat.digitChar (c.toNat - first)
    | none => c

/-- The blanks that may stand around a number. -/
def isBlank (c : Char) : Bool := c == ' ' || (0x9 ≤ c.toNat && c.toNat ≤ 0xd)

/-- The text without its underscores. Each of them has to stand between two digits; `inside` says
whether the last character was a digit. -/
def dropUnderscores? (inside : Bool) : List Char → Option (List Char)
  | [] => some []
  | ['_'] => none
  | '_' :: c :: rest =>
    if inside && c.isDigit then (dropUnderscores? true rest).map (c :: ·) else none
  | c :: rest => (dropUnderscores? c.isDigit rest).map (c :: ·)

/-- Whether there is a minus sign in front, and what follows a sign. -/
def splitSign : List Char → Bool × List Char
  | '-' :: rest => (true, rest)
  | '+' :: rest => (false, rest)
  | text => (false, text)

/-- The exponent that stands after the digits of a number, zero if there is none. -/
def exponent? : List Char → Option Int
  | [] => some 0
  | mark :: rest =>
    let (negative, digits) := splitSign rest
    if (mark = 'e' ∨ mark = 'E') ∧ digits ≠ [] ∧ digits.all Char.isDigit = true then
      some (if negative then -ofDigits digits else ofDigits digits)
    else none

/-- The number with the given digits before and after its point, and what follows those. -/
def scaled? (whole fraction after : List Char) : Option Decimal :=
  if whole ++ fraction = [] then none
  else (exponent? after).map fun exponent =>
    ⟨ofDigits (whole ++ fraction), exponent - fraction.length⟩

/-- A number without a sign: digits with at most one point among them, and an exponent if there
is one. -/
def decimal? (text : List Char) : Option Decimal :=
  let whole := text.takeWhile Char.isDigit
  match text.dropWhile Char.isDigit with
  | '.' :: rest => scaled? whole (rest.takeWhile Char.isDigit) (rest.dropWhile Char.isDigit)
  | after => scaled? whole [] after

/-- What a text without blanks and underscores says; the words for what is not finite may be
written in small and in capital letters. -/
def reading? (text : List Char) : Option Reading :=
  let (negative, rest) := splitSign text
  let word := rest.map Char.toLower
  if word = "nan".toList then some .nan
  else if word = "inf".toList ∨ word = "infinity".toList then some (.infinite negative)
  else (decimal? rest).map (.decimal negative)

/-- The text without the blanks around it, in plain characters. -/
def stripped (text : List Char) : List Char :=
  (((text.map plain).dropWhile isBlank).reverse.dropWhile isBlank).reverse

/-- The number that a text stands for, if it stands for any. -/
def ofText? (text : String) : Option Float :=
  ((dropUnderscores? false (stripped text.toList)).bind reading?).map Reading.value

end Bol.Number
