/-
# Jvm.Arith.Real — arithmetic of `float` and `double`

Floating-point values are kept as their bits, because two NaNs with different bits
are different values. Sums, products and quotients of numbers are the correctly
rounded ones. The bits of a NaN result follow two rules: an operation with a NaN
operand passes on the first such operand, made quiet, and an invalid operation on
numbers gives the NaN with the sign bit set. The remainder is exact, takes the sign
of the dividend, and is computed on magnitudes. Conversions to integers truncate,
send a NaN to zero and stop at the ends of the range.
-/
import Jvm.Arith.Integer
import Jvm.Decimal.Binary

namespace Jvm

set_option autoImplicit false

namespace Decimal.Format

def infinityBits (format : Format) : Nat :=
  (Nat.pow 2 format.exponentBits - 1) * format.hiddenBit

def isNaN (format : Format) (bits : Nat) : Bool :=
  format.infinityBits < bits % Nat.pow 2 (format.width - 1)

/-- The bit that tells a quiet NaN from a signalling one. -/
def quietBit (format : Format) : Nat := Nat.pow 2 (format.precision - 2)

def quiet (format : Format) (bits : Nat) : Nat := bits ||| format.quietBit

/-- The NaN of an invalid operation. -/
def invalid (format : Format) : Nat :=
  format.signBit true + format.infinityBits + format.quietBit

/-- An operation on numbers extended to NaN operands and invalid results. -/
def combine (format : Format) (op : Nat → Nat → Nat) (a b : Nat) : Nat :=
  if format.isNaN a then format.quiet a
  else if format.isNaN b then format.quiet b
  else
    let result := op a b
    if format.isNaN result then format.invalid else result

/-- The exact remainder of two magnitudes, in units of the smaller exponent. -/
def remainder (a b : Magnitude) : Magnitude :=
  let exponent := min a.exponent b.exponent
  let left := a.units * Nat.pow 2 (a.exponent - exponent).toNat
  let right := b.units * Nat.pow 2 (b.exponent - exponent).toNat
  ⟨left % right, exponent⟩

/-- The remainder of two numbers, with the sign of the first. -/
def rem (format : Format) : Nat → Nat → Nat :=
  format.combine fun a b =>
    match format.decode a, format.decode b with
    | .finite _ _, .infinity _ => a
    | .finite negative left, .finite _ right =>
        if right.units = 0 then format.invalid
        else format.signBit negative + format.encode (remainder left right)
    | _, _ => format.invalid

end Decimal.Format

open Decimal (Format)

namespace Single

def ofNumber (v : Float32) : Nat := v.toBits.toNat

def number (bits : Nat) : Float32 := Float32.ofBits bits.toUInt32

def combine (op : Float32 → Float32 → Float32) (a b : Nat) : Nat :=
  Format.single.combine (fun a b => ofNumber (op (number a) (number b))) a b

def apply (op : ArithOp) (a b : UInt32) : UInt32 :=
  let result :=
    match op with
    | .add => combine (· + ·)
    | .sub => combine (· - ·)
    | .mul => combine (· * ·)
    | .div => combine (· / ·)
    | .rem => Format.single.rem
  (result a.toNat b.toNat).toUInt32

def neg (a : UInt32) : UInt32 := a ^^^ 0x80000000

/-- Minus one, zero or one as `a` is below, equal to or above `b`, and `unordered` if either
is a NaN. -/
def compare (unordered : Int32) (a b : UInt32) : Int32 :=
  let a := Float32.ofBits a
  let b := Float32.ofBits b
  if a < b then -1 else if b < a then 1 else if a == b then 0 else unordered

def ofInt (v : Int32) : UInt32 := v.toFloat32.toBits

def ofLong (v : Int64) : UInt32 := v.toFloat32.toBits

end Single

namespace Double

def combine (op : Float → Float → Float) (a b : Nat) : Nat :=
  Format.double.combine
    (fun a b => (op (Float.ofBits a.toUInt64) (Float.ofBits b.toUInt64)).toBits.toNat) a b

def apply (op : ArithOp) (a b : UInt64) : UInt64 :=
  let result :=
    match op with
    | .add => combine (· + ·)
    | .sub => combine (· - ·)
    | .mul => combine (· * ·)
    | .div => combine (· / ·)
    | .rem => Format.double.rem
  (result a.toNat b.toNat).toUInt64

def neg (a : UInt64) : UInt64 := a ^^^ 0x8000000000000000

/-- Minus one, zero or one as `a` is below, equal to or above `b`, and `unordered` if either
is a NaN. -/
def compare (unordered : Int32) (a b : UInt64) : Int32 :=
  let a := Float.ofBits a
  let b := Float.ofBits b
  if a < b then -1 else if b < a then 1 else if a == b then 0 else unordered

def ofInt (v : Int32) : UInt64 := v.toFloat.toBits

def ofLong (v : Int64) : UInt64 := v.toFloat.toBits

def toInt (bits : UInt64) : Int32 := (Float.ofBits bits).toInt32

def toLong (bits : UInt64) : Int64 := (Float.ofBits bits).toInt64

/-- A `float` as a `double`; a NaN keeps its sign and its leading bits. -/
def ofSingle (bits : UInt32) : UInt64 :=
  if Format.single.isNaN bits.toNat then
    let fraction : UInt64 := (bits.toUInt64 &&& 0x7fffff) <<< 29
    let sign : UInt64 := (bits >>> 31).toUInt64 <<< 63
    sign ||| 0x7ff8000000000000 ||| fraction
  else (Float32.ofBits bits).toFloat.toBits

end Double

namespace Single

/-- A `double` rounded to a `float`; a NaN keeps its sign and its leading bits. -/
def ofDouble (bits : UInt64) : UInt32 :=
  if Format.double.isNaN bits.toNat then
    let fraction : UInt32 := ((bits >>> 29) &&& 0x7fffff).toUInt32
    let sign : UInt32 := (bits >>> 63).toUInt32 <<< 31
    sign ||| 0x7fc00000 ||| fraction
  else (Float.ofBits bits).toFloat32.toBits

def toInt (bits : UInt32) : Int32 := Double.toInt (Double.ofSingle bits)

def toLong (bits : UInt32) : Int64 := Double.toLong (Double.ofSingle bits)

end Single

end Jvm
