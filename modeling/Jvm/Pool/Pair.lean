/-
# Jvm.Pool.Pair — two slot numbers in one word

An entry that refers to two others keeps both numbers in one 64-bit word: the first in
the low sixteen bits, the second in the sixteen bits above. A number that needs more
bits is not refused. The upper bits of the first run over into the second, and those of the
second into the rest of the word, where no reference is read but the listing shows them.
`pack_eq_of` says that numbers of sixteen bits are kept as they are.
-/
namespace Jvm.Pool

set_option autoImplicit false

structure Pair where
  low : UInt16
  high : UInt16
  /-- The upper half of the word. -/
  spill : UInt32
  deriving DecidableEq, Repr

namespace Pair

/-- The word of two numbers of sixteen bits. -/
def of (first second : Nat) : Pair := ⟨UInt16.ofNat first, UInt16.ofNat second, 0⟩

/-- The word of any two numbers. -/
def pack (first second : Int) : Pair :=
  let upper := UInt64.ofInt second ||| UInt64.ofInt (first / 65536)
  ⟨UInt16.ofInt first, upper.toUInt16, (upper >>> 16).toUInt32⟩

def first (pair : Pair) : Nat := pair.low.toNat

def second (pair : Pair) : Nat := pair.high.toNat

/-- The whole word as a number. -/
def word (pair : Pair) : Nat := (pair.spill.toNat * 65536 + pair.second) * 65536 + pair.first

theorem first_of {first second : Nat} (h : first < 65536) : (of first second).first = first :=
  UInt16.toNat_ofNat_of_lt h

theorem second_of {first second : Nat} (h : second < 65536) :
    (of first second).second = second :=
  UInt16.toNat_ofNat_of_lt h

theorem pack_eq_of {first second : Nat} (hf : first < 65536) (hs : second < 65536) :
    pack first second = of first second := by
  have carry : (first : Int) / 65536 = 0 := by omega
  have kept : UInt16.ofInt first = UInt16.ofNat first := by
    apply UInt16.toNat.inj
    simp only [UInt16.ofInt, UInt16.toNat_ofNat']
    omega
  have upper : UInt64.ofInt second ||| UInt64.ofInt 0 = UInt64.ofNat second := by
    apply UInt64.toNat.inj
    simp only [UInt64.ofInt, UInt64.toNat_or, UInt64.toNat_ofNat']
    simp only [Int.zero_emod, Int.toNat_zero, Nat.zero_mod, Nat.or_zero]
    omega
  have shifted : UInt64.ofNat second >>> 16 = 0 := by
    apply UInt64.toNat.inj
    simp only [UInt64.toNat_shiftRight, UInt64.toNat_ofNat', Nat.shiftRight_eq_div_pow]
    exact Nat.div_eq_of_lt (by simp; omega)
  simp only [pack, of, carry, kept, upper, shifted, UInt64.toUInt16_ofNat']
  rfl

end Pair

end Jvm.Pool
