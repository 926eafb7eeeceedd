/-
# Jvm.Decimal.Binary — floating-point bits as exact numbers

A `Format` is a binary interchange format: its width in bits and its precision
(significand bits, the hidden one included). `Format.decode` reads bits as a NaN,
an infinity, or a sign and an exact magnitude `m · 2^q`; `Format.encode` is the way
back for a magnitude that the format holds. Arithmetic that must be exact (the
remainder, decimal printing) is done on these magnitudes with `Nat` and `Int`
alone.
-/
namespace Jvm.Decimal

set_option autoImplicit false

structure Format where
  width : Nat
  precision : Nat
  deriving DecidableEq, Repr

namespace Format

def single : Format := ⟨32, 24⟩

def double : Format := ⟨64, 53⟩

def exponentBits (format : Format) : Nat := format.width - format.precision

/-- The leading significand bit, which the bits of a normal number leave out. -/
def hiddenBit (format : Format) : Nat := Nat.pow 2 (format.precision - 1)

/-- The exponent of the unit of the least magnitudes. -/
def minExponent (format : Format) : Int :=
  3 - (Nat.pow 2 (format.exponentBits - 1) : Int) - format.precision

end Format

/-- A magnitude `units · 2^exponent`. -/
structure Magnitude where
  units : Nat
  exponent : Int
  deriving DecidableEq, Repr

/-- What the bits of a floating-point number stand for. -/
inductive Decoded where
  | nan (negative : Bool)
  | infinity (negative : Bool)
  | finite (negative : Bool) (magnitude : Magnitude)
  deriving DecidableEq, Repr

namespace Format

def decode (format : Format) (bits : Nat) : Decoded :=
  let negative := bits.testBit (format.width - 1)
  let fraction := bits % format.hiddenBit
  let field := bits / format.hiddenBit % Nat.pow 2 format.exponentBits
  if field = Nat.pow 2 format.exponentBits - 1 then
    if fraction = 0 then .infinity negative else .nan negative
  else if field = 0 then .finite negative ⟨fraction, format.minExponent⟩
  else .finite negative ⟨fraction + format.hiddenBit, format.minExponent + (field - 1)⟩

/-- The bits of a magnitude that the format holds exactly, without the sign bit. -/
def encode (format : Format) (value : Magnitude) : Nat :=
  if value.units = 0 then 0
  else
    let size : Int := value.units.log2 + 1
    let exponent := max (value.exponent + size - format.precision) format.minExponent
    let units :=
      if exponent ≤ value.exponent then value.units <<< (value.exponent - exponent).toNat
      else value.units >>> (exponent - value.exponent).toNat
    if units < format.hiddenBit then units
    else ((exponent - format.minExponent).toNat + 1) * format.hiddenBit + (units - format.hiddenBit)

def signBit (format : Format) (negative : Bool) : Nat :=
  if negative then Nat.pow 2 (format.width - 1) else 0

end Format

/-- A non-negative rational number as a numerator over a positive denominator. -/
structure Ratio where
  num : Nat
  den : Nat
  deriving Repr

namespace Ratio

def lt (a b : Ratio) : Bool := a.num * b.den < b.num * a.den

def le (a b : Ratio) : Bool := a.num * b.den ≤ b.num * a.den

/-- `units · base^exponent`. -/
def ofScaled (units base : Nat) : Int → Ratio
  | .ofNat exponent => ⟨units * Nat.pow base exponent, 1⟩
  | .negSucc exponent => ⟨units, Nat.pow base (exponent + 1)⟩

end Ratio

def Magnitude.ratio (value : Magnitude) : Ratio := .ofScaled value.units 2 value.exponent

end Jvm.Decimal
