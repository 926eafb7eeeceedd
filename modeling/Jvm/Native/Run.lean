/-
# Jvm.Native.Run — what native methods do

A native method gets its arguments, the receiver first if there is one, and may answer
with a value. Printing writes numbers in decimal, characters in UTF-8, strings as their
text and other objects by their identity.
-/
import Jvm.Builtin
import Jvm.Decimal.Shortest
import Jvm.Machine.Statics

namespace Jvm

set_option autoImplicit false

namespace Native

/-- The bytes of a 16-bit character in UTF-8. -/
def utf8Bytes (c : Nat) : List UInt8 :=
  if c < 0x80 then [c.toUInt8]
  else if c < 0x800 then [(0xc0 + c / 0x40).toUInt8, (0x80 + c % 0x40).toUInt8]
  else [(0xe0 + c / 0x1000).toUInt8, (0x80 + c / 0x40 % 0x40).toUInt8, (0x80 + c % 0x40).toUInt8]

def referenceText (object : Option Ref) : Exec String := do
  match object with
  | none => return "null"
  | some ref =>
      let machine ← get
      match machine.text? ref with
      | some text => return text
      | none =>
          let object ← Exec.object ref
          if object.classId.name = stringClass then Exec.violate .textlessString
          return object.identityText ref.index

/-- A value as the printing methods of a kind write it. -/
def printedText (kind : PrintKind) (v : Value) : Exec String := do
  match kind, v with
  | .boolean, .int v => return if v = 0 then "false" else "true"
  | .char, .int v => return Text.ofBytes (utf8Bytes v.toUInt32.toUInt16.toNat)
  | _, .int v => return toString v.toInt
  | _, .long v => return toString v.toInt
  | _, .float bits =>
      return (Decimal.Format.single.decode bits.toNat).javaText .single
  | _, .double bits =>
      return (Decimal.Format.double.decode bits.toNat).javaText .double
  | _, .ref object => referenceText object
  | _, _ => return ""

def argument (arguments : List Value) (position : Nat) : Value := arguments.getD position .unset

def intArgument (arguments : List Value) (position : Nat) : Int32 :=
  match argument arguments position with
  | .int v => v
  | _ => 0

/-- Store a new output stream in the static field for it. -/
def storeOutput : Exec Unit := do
  let system ← Exec.builtin Builtin.system.name
  let stream ← Exec.builtin Builtin.printStream.name
  let ref ← Exec.allocate stream
  let _ ← Statics.prepare system
  match system.field? Builtin.outField.name Builtin.outField.descriptor with
  | some field => Statics.write system.id field.slot (.ref (some ref))
  | none => Exec.violate .noStatics

/-- Run a native method; the answer is absent if it sets no result. -/
def run (native : Native) (arguments : List Value) : Exec (Option Value) := do
  match native with
  | .doNothing => return none
  | .newline =>
      Exec.print "\n"
      return none
  | .print kind endsLine =>
      let text ← printedText kind (argument arguments 1)
      Exec.print (if endsLine then text ++ "\n" else text)
      return none
  | .openOutput =>
      storeOutput
      return none
  | .abs =>
      let v := intArgument arguments 0
      return some (.int (if v < 0 then -v else v))
  | .max =>
      let a := intArgument arguments 0
      let b := intArgument arguments 1
      return some (.int (if b < a then a else b))
  | .min =>
      let a := intArgument arguments 0
      let b := intArgument arguments 1
      return some (.int (if a < b then a else b))
  | .answer v => return some v
  | .firstArgument => return arguments.head?
  | .argumentCount => return some (.int (Int32.ofNat arguments.length))
  | .fail => Exec.fail .nativeFailed

end Native

end Jvm
