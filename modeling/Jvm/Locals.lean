/-
# Jvm.Locals — local variables

The local variables of a frame are a row of slots, each unset at first. A `long` or
`double` takes its slot and the next one, which then holds `void`. Writing a value over
one slot of such a pair makes the other slot unset, so that half a value is never read.
-/
import Jvm.Halt
import Jvm.Value

namespace Jvm

set_option autoImplicit false

abbrev Locals := Array Value

namespace Locals

def unset (count : Nat) : Locals := Array.replicate count .unset

def slotValue (locals : Locals) (slot : Nat) : Value := locals.getD slot .unset

def checkRange (locals : Locals) (slot : Int) (size : Nat) : Except Halt Unit :=
  if slot < 0 ∨ (locals.size : Int) < slot + size then
    .error (Cause.halt (.localOutOfRange slot locals.size))
  else .ok ()

/-- The value of the given type in a slot. A type that takes no slot can be asked for just
after the last one, where there is nothing of any type. -/
def read (locals : Locals) (slot : Int) (type : BasicType) : Except Halt Value := do
  locals.checkRange slot type.size
  match locals[slot.toNat]? with
  | none => throw (Cause.halt (.localType slot.toNat .illegal type))
  | some v =>
      if v.isUnset then throw (Cause.halt (.localUnset slot.toNat))
      if v.type ≠ type then throw (Cause.halt (.localType slot.toNat v.type type))
      return v

/-- Unset the other slot of the pair that a slot belongs to. -/
def vacate (locals : Locals) (slot : Nat) : Locals :=
  if (locals.slotValue slot).isWide then locals.setIfInBounds (slot + 1) .unset
  else if locals.slotValue slot = .void ∧ 0 < slot ∧ (locals.slotValue (slot - 1)).isWide then
    locals.setIfInBounds (slot - 1) .unset
  else locals

/-- Store a value in a slot, and in the next one if it takes two. -/
def store (locals : Locals) (slot : Nat) (v : Value) : Locals :=
  if v.size = 2 then
    (((locals.vacate slot).vacate (slot + 1)).setIfInBounds slot v).setIfInBounds (slot + 1) .void
  else if v.size = 1 then (locals.vacate slot).setIfInBounds slot v
  else locals.setIfInBounds slot v

def write (locals : Locals) (slot : Int) (v : Value) : Except Halt Locals := do
  locals.checkRange slot v.size
  return locals.store slot.toNat v

/-- Store values one after another, each after the slots of the one before. -/
def writeAll (locals : Locals) (slot : Nat) : List Value → Except Halt Locals
  | [] => return locals
  | v :: rest => do
      let locals ← locals.write slot v
      locals.writeAll (slot + v.size) rest

end Locals

end Jvm
