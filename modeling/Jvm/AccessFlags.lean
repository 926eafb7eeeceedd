/-
# Jvm.AccessFlags — the access flags of classes, fields and methods

The low fifteen bits are those written in a class file; `written` keeps only them.
One further bit, outside the written ones, records that a method has a line number
table.
-/
import Jvm.Text

namespace Jvm

set_option autoImplicit false

structure AccessFlags where
  bits : UInt32
  deriving DecidableEq, Repr, Inhabited

namespace AccessFlags

def ofNat (bits : Nat) : AccessFlags := ⟨bits.toUInt32⟩

def has (flags : AccessFlags) (mask : UInt32) : Bool := flags.bits &&& mask != 0

def isPublic (flags : AccessFlags) : Bool := flags.has 0x0001

def isPrivate (flags : AccessFlags) : Bool := flags.has 0x0002

def isProtected (flags : AccessFlags) : Bool := flags.has 0x0004

def isStatic (flags : AccessFlags) : Bool := flags.has 0x0008

def isFinal (flags : AccessFlags) : Bool := flags.has 0x0010

/-- On a method. -/
def isSynchronized (flags : AccessFlags) : Bool := flags.has 0x0020

/-- On a class: its super calls start at the direct superclass. -/
def isSuper (flags : AccessFlags) : Bool := flags.has 0x0020

def isNative (flags : AccessFlags) : Bool := flags.has 0x0100

def isInterface (flags : AccessFlags) : Bool := flags.has 0x0200

def isAbstract (flags : AccessFlags) : Bool := flags.has 0x0400

def lineTableMask : UInt32 := 0x00100000

def hasLineTable (flags : AccessFlags) : Bool := flags.has lineTableMask

def withLineTable (flags : AccessFlags) : AccessFlags := ⟨flags.bits ||| lineTableMask⟩

def clear (flags : AccessFlags) (mask : UInt32) : AccessFlags := ⟨flags.bits &&& ~~~mask⟩

/-- Only the bits that a class file writes. -/
def written (flags : AccessFlags) : AccessFlags := ⟨flags.bits &&& 0x7fff⟩

def code (flags : AccessFlags) : Nat := flags.written.bits.toNat

def describe (flags : AccessFlags) : String :=
  let words : List (Bool × String) :=
    [(flags.isPublic, " public"), (flags.isPrivate, " private"),
      (flags.isProtected, " protected"), (flags.isStatic, " static"), (flags.isFinal, " final"),
      (flags.isNative, " native"), (flags.isInterface, " interface"),
      (flags.isAbstract, " abstract")]
  let set := words.filterMap fun (present, word) => if present then some word else none
  "0x" ++ Text.hexUpper 4 flags.code ++ " [" ++ String.join set ++ " ]"

end AccessFlags

end Jvm
