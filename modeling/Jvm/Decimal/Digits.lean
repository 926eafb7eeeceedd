/-
# Jvm.Decimal.Digits — rounding an exact number to decimal digits

Printing rounds the exact value, and a tie goes to the even neighbour
(`roundEven`). `significant count` gives a number's leading digits with the
exponent of the first one; `fixedPlaces` gives it with a set number of digits
after the point.
-/
import Jvm.Decimal.Binary

namespace Jvm.Decimal

set_option autoImplicit false

/-- The integer nearest to `num / den`, the even one of two. -/
def roundEven (num den : Nat) : Nat :=
  let quotient := num / den
  let twice := 2 * (num % den)
  if twice < den then quotient
  else if den < twice then quotient + 1
  else quotient + quotient % 2

def digitCount (value : Nat) : Nat :=
  if value = 0 then 0 else (Nat.toDigits 10 value).length

/-- The exponent `e` of a positive number with `10^e ≤ value < 10^(e+1)`. -/
def leadingExponent (value : Ratio) : Int :=
  if value.den ≤ value.num then (digitCount (value.num / value.den) : Int) - 1
  else -(digitCount ((value.den + value.num - 1) / value.num - 1) : Int)

/-- Decimal digits `digits` with the exponent of the first digit. -/
structure Scientific where
  digits : Nat
  exponent : Int
  deriving DecidableEq, Repr

/-- The first `count` digits of a positive number. -/
def significant (count : Nat) (value : Ratio) : Scientific :=
  let exponent := leadingExponent value
  let shift := (count : Int) - 1 - exponent
  let rounded :=
    if 0 ≤ shift then roundEven (value.num * Nat.pow 10 shift.toNat) value.den
    else roundEven value.num (value.den * Nat.pow 10 (-shift).toNat)
  if rounded = Nat.pow 10 count then ⟨Nat.pow 10 (count - 1), exponent + 1⟩ else ⟨rounded, exponent⟩

/-- The number that `count` digits with the given first exponent denote. -/
def Scientific.ratio (value : Scientific) (count : Nat) : Ratio :=
  .ofScaled value.digits 10 (value.exponent - (count - 1))

/-- Digits without trailing zeros, the first digit kept. -/
def trimZeros (digits : List Char) : List Char :=
  match (digits.reverse.dropWhile (· == '0')).reverse with
  | [] => ['0']
  | trimmed => trimmed

/-- A number with exactly `places` digits after the point. -/
def fixedPlaces (places : Nat) (value : Ratio) : String :=
  let rounded := roundEven (value.num * Nat.pow 10 places) value.den
  let whole := toString (rounded / Nat.pow 10 places)
  if places = 0 then whole
  else
    let fraction := toString (rounded % Nat.pow 10 places)
    whole ++ "." ++ String.ofList (List.replicate (places - fraction.length) '0') ++ fraction

end Jvm.Decimal
