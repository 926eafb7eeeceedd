/-
# Jvm.Decimal.Printed — floating-point numbers in descriptions

Descriptions of values and pools write a number in one of two ways. `fixed` has a
set number of places. `general` keeps six significant digits, drops trailing zeros,
and turns to an exponent (two digits at least) when the number is below `10^-4` or
at `10^6` and above. Both write `nan` and `inf`, each with its sign.
-/
import Jvm.Decimal.Digits

namespace Jvm.Decimal

set_option autoImplicit false

def signText (negative : Bool) : String := if negative then "-" else ""

def Decoded.fixed (places : Nat) : Decoded → String
  | .nan negative => signText negative ++ "nan"
  | .infinity negative => signText negative ++ "inf"
  | .finite negative magnitude => signText negative ++ fixedPlaces places magnitude.ratio

/-- Digits with a point after the first `whole`, which is left out at the end. -/
def pointAfter (whole : Nat) (digits : List Char) : String :=
  let fraction := digits.drop whole
  String.ofList (digits.take whole) ++
    (if fraction.isEmpty then "" else "." ++ String.ofList fraction)

def exponentText (exponent : Int) : String :=
  let digits := toString exponent.natAbs
  let sign := if exponent < 0 then "-" else "+"
  sign ++ (if digits.length < 2 then "0" else "") ++ digits

/-- Six significant digits of a positive number. -/
def generalDigits (value : Ratio) : String :=
  let rounded := significant 6 value
  let digits := trimZeros (Nat.toDigits 10 rounded.digits)
  if rounded.exponent < -4 ∨ 6 ≤ rounded.exponent then
    pointAfter 1 digits ++ "e" ++ exponentText rounded.exponent
  else if rounded.exponent < 0 then
    "0." ++ String.ofList (List.replicate ((-rounded.exponent).toNat - 1) '0') ++
      String.ofList digits
  else
    let whole := rounded.exponent.toNat + 1
    pointAfter whole (digits ++ List.replicate (whole - digits.length) '0')

def Decoded.general : Decoded → String
  | .nan negative => signText negative ++ "nan"
  | .infinity negative => signText negative ++ "inf"
  | .finite negative magnitude =>
      signText negative ++ (if magnitude.units = 0 then "0" else generalDigits magnitude.ratio)

end Jvm.Decimal
