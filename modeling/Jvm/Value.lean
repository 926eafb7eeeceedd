/-
# Jvm.Value — tagged values

Everything that flows through the machine is a `Value`: an operand stack slot, a
local variable, a field, an argument, a result. A value carries its type tag.
Numbers keep their bits, so equality of values is equality of tags and bits: a NaN
equals itself and the two zeros differ. A `ref` is null or names an object by heap
and position. Two kinds never come from a program: `text` is the content of the
hidden slot of a string object, and `mark` is a tag without content; `mark .void` is
the upper half of a two-slot value and `mark .illegal` a slot that was never written.
-/
import Jvm.BasicType
import Jvm.Arith.Real
import Jvm.Decimal.Printed

namespace Jvm

set_option autoImplicit false

/-- An object, named by its heap and its position in the order of allocation. -/
structure Ref where
  heap : Nat
  index : Nat
  deriving DecidableEq, Repr, Inhabited

/-- The tags that a value can have without having content. -/
inductive Mark where
  | boolean | char | byte | short | array | void | conflict | illegal
  deriving DecidableEq, Repr

def Mark.type : Mark → BasicType
  | .boolean => .boolean
  | .char => .char
  | .byte => .byte
  | .short => .short
  | .array => .array
  | .void => .void
  | .conflict => .conflict
  | .illegal => .illegal

inductive Value where
  | int (v : Int32)
  | long (v : Int64)
  | float (bits : UInt32)
  | double (bits : UInt64)
  | ref (object : Option Ref)
  | text (content : Option String)
  | mark (tag : Mark)
  deriving DecidableEq, Repr

namespace Value

/-- The slot that was never written. -/
def unset : Value := .mark .illegal

/-- The upper half of a two-slot value, and the result of a method without result. -/
def void : Value := .mark .void

def null : Value := .ref none

instance : Inhabited Value := ⟨unset⟩

def type : Value → BasicType
  | .int _ => .int
  | .long _ => .long
  | .float _ => .float
  | .double _ => .double
  | .ref _ => .object
  | .text _ => .address
  | .mark tag => tag.type

def size (v : Value) : Nat := v.type.size

def isReference (v : Value) : Bool := v.type == .object

def isNull (v : Value) : Bool := v == null

def isWide : Value → Bool
  | .long _ | .double _ => true
  | _ => false

def isUnset (v : Value) : Bool := v == unset

/-- What a variable of a declared type holds before it is assigned. -/
def zero (type : BasicType) : Value :=
  match type.stackType with
  | .long => .long 0
  | .float => .float 0
  | .double => .double 0
  | .object => null
  | _ => .int 0

/-- A value with the given tag and no content of its own. -/
def ofType : BasicType → Value
  | .int => .int 0
  | .long => .long 0
  | .float => .float 0
  | .double => .double 0
  | .object => null
  | .address => .text none
  | .boolean => .mark .boolean
  | .char => .mark .char
  | .byte => .mark .byte
  | .short => .mark .short
  | .array => .mark .array
  | .void => .mark .void
  | .conflict => .mark .conflict
  | .illegal => .mark .illegal

/-- A value in a description. Where an object lies is not part of it: `*` stands for that. -/
def describe : Value → String
  | .int v => "int " ++ toString v.toInt
  | .long v => "long " ++ toString v.toInt
  | .float bits => "float " ++ (Decimal.Format.single.decode bits.toNat).general
  | .double bits => "double " ++ (Decimal.Format.double.decode bits.toNat).general
  | .ref none => "null"
  | .ref (some _) => "ref *"
  | .text _ => "<address>"
  | .mark tag => "<" ++ tag.type.name ++ ">"

@[simp] theorem type_ofType (type : BasicType) : (ofType type).type = type := by
  cases type <;> rfl

end Value

end Jvm
