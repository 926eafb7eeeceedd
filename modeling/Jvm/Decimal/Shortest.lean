/-
# Jvm.Decimal.Shortest — the text of a floating-point number as a program prints it

A program prints a `float` or `double` with the fewest significant digits (rounded
from the exact value) that read back as the same number. A decimal reads back
when it lies in the interval of reals that round to the number; the ends belong
to the interval exactly when the number's significand is even (`readsBack`).
Magnitudes from `10^-3` up to `10^7` are written positionally with at least one
digit on each side of the point, all others as `d.dddE±n`.
-/
import Jvm.Decimal.Digits

namespace Jvm.Decimal

set_option autoImplicit false

/-- Whether a decimal rounds to the given positive magnitude of the format. -/
def Format.readsBack (format : Format) (value : Magnitude) (decimal : Ratio) : Bool :=
  let atBinade := value.units = format.hiddenBit ∧ format.minExponent < value.exponent
  let lower : Ratio :=
    if atBinade then .ofScaled (4 * value.units - 1) 2 (value.exponent - 2)
    else .ofScaled (2 * value.units - 1) 2 (value.exponent - 1)
  let upper : Ratio := .ofScaled (2 * value.units + 1) 2 (value.exponent - 1)
  if value.units % 2 = 0 then lower.le decimal && decimal.le upper
  else lower.lt decimal && decimal.lt upper

/-- The digits that always read back. -/
def Format.maxDigits (format : Format) : Nat :=
  if format.precision ≤ 24 then 9 else 17

/-- The first digit count, counting up, whose digits read back. -/
def shortestFrom (format : Format) (value : Magnitude) (count : Nat) : Nat → Scientific
  | 0 => significant count value.ratio
  | more + 1 =>
      let rounded := significant count value.ratio
      if format.readsBack value (rounded.ratio count) then rounded
      else shortestFrom format value (count + 1) more

def shortest (format : Format) (value : Magnitude) : Scientific :=
  shortestFrom format value 1 (format.maxDigits - 1)

def positional (digits : List Char) (exponent : Int) : String :=
  if exponent < 0 then
    "0." ++ String.ofList (List.replicate ((-exponent).toNat - 1) '0' ++ digits)
  else
    let whole := exponent.toNat + 1
    let fraction := digits.drop whole
    String.ofList (digits.take whole ++ List.replicate (whole - digits.length) '0') ++ "." ++
      (if fraction.isEmpty then "0" else String.ofList fraction)

def scientific (digits : List Char) (exponent : Int) : String :=
  let fraction := digits.drop 1
  String.ofList (digits.take 1) ++ "." ++
    (if fraction.isEmpty then "0" else String.ofList fraction) ++ "E" ++ toString exponent

def printsPositionally (value : Ratio) : Bool :=
  Ratio.le ⟨1, 1000⟩ value && value.lt ⟨10000000, 1⟩

/-- The text of a decoded number, with the digits that its format needs. -/
def Decoded.javaText (format : Format) : Decoded → String
  | .nan _ => "NaN"
  | .infinity negative => if negative then "-Infinity" else "Infinity"
  | .finite negative magnitude =>
      let body :=
        if magnitude.units = 0 then "0.0"
        else
          let rounded := shortest format magnitude
          let digits := trimZeros (Nat.toDigits 10 rounded.digits)
          if printsPositionally magnitude.ratio then positional digits rounded.exponent
          else scientific digits rounded.exponent
      (if negative then "-" else "") ++ body

end Jvm.Decimal
