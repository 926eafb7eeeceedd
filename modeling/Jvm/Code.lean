/-
# Jvm.Code — bytes of a method body and the extent of an instruction

Operands follow their opcode in big-endian order. `instructionLength?` measures the
whole instruction that starts at an index. The two switch instructions carry a table
after padding to a multiple of four, so their length is read from the table's bounds;
an instruction that does not fit in the code has no length. `length_add_le` says that
a measured instruction ends inside the code.
-/
import Jvm.BigEndian
import Jvm.Opcode

namespace Jvm

set_option autoImplicit false

/-- The number that the low `bits` bits stand for in two's complement. -/
def signed (bits : Nat) (value : Nat) : Int :=
  if 2 * value < Nat.pow 2 bits then value else (value : Int) - Nat.pow 2 bits

abbrev Code := Array UInt8

namespace Code

def byteAt (code : Code) (index : Nat) : UInt8 := code.getD index 0

def unsignedAt (code : Code) (width index : Nat) : Nat :=
  BigEndian.decode ((List.range width).map fun offset => code.byteAt (index + offset))

def signedAt (code : Code) (width index : Nat) : Int :=
  signed (8 * width) (code.unsignedAt width index)

/-- The first multiple of four that is not below the index. -/
def alignUp4 (index : Nat) : Nat := (index + 3) / 4 * 4

/-- Where the table of a switch instruction starts. -/
def switchBase (bci : Nat) : Nat := alignUp4 (bci + 1)

/-- The length of a `tableswitch`, its low bound not above its high bound. -/
def tableSwitchLength? (code : Code) (size bci : Nat) : Option Nat :=
  let base := switchBase bci
  if size < base + 12 then none
  else
    let low := code.signedAt 4 (base + 4)
    let high := code.signedAt 4 (base + 8)
    if high < low then none else some (base - bci + 12 + 4 * (high - low + 1).toNat)

/-- The length of a `lookupswitch`, its number of pairs not negative. -/
def lookupSwitchLength? (code : Code) (size bci : Nat) : Option Nat :=
  let base := switchBase bci
  if size < base + 8 then none
  else
    let pairs := code.signedAt 4 (base + 4)
    if pairs < 0 then none else some (base - bci + 8 + 8 * pairs.toNat)

def variableLength? (code : Code) (size bci : Nat) : Option Nat :=
  match (code.byteAt bci).toNat with
  | 0xaa => tableSwitchLength? code size bci
  | 0xab => lookupSwitchLength? code size bci
  | 0xc4 =>
      if size ≤ bci + 1 then none
      else if (code.byteAt (bci + 1)).toNat = 0x84 then some 6 else some 4
  | _ => none

/-- The length of the instruction at an index of the first `size` bytes of the code. -/
def instructionLength? (code : Code) (size : Nat) (bci : Int) : Option Nat :=
  if bci < 0 ∨ (size : Int) ≤ bci then none
  else
    let bci := bci.toNat
    let length? :=
      match Opcode.length? (code.byteAt bci).toNat with
      | some 0 => variableLength? code size bci
      | length? => length?
    length?.filter fun length => bci + length ≤ size

theorem length_add_le {code : Code} {size length : Nat} {bci : Int}
    (measured : code.instructionLength? size bci = some length) : bci.toNat + length ≤ size := by
  unfold instructionLength? at measured
  split at measured
  · simp at measured
  · simpa using (Option.filter_eq_some_iff.mp measured).2

end Code

end Jvm
