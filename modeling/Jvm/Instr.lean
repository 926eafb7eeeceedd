/-
# Jvm.Instr — decoded instructions

An instruction is decoded before it is executed. `LocalInstr` holds the instructions
that read and write nothing but the frame they run in: constants, loads, stores, stack
shuffles, arithmetic, conversions, comparisons, jumps. `Instr` adds the six kinds that
need the machine: loading a pool constant, returning, field access, invocation and
allocation. Jump offsets are relative to the instruction's own index.

The opcode numbering is regular, and decoding follows it: the short loads and stores
run through four slots for each of the five types in turn, and the arithmetic opcodes
through four number types for each operation.
-/
import Jvm.Code
import Jvm.Value

namespace Jvm

set_option autoImplicit false

inductive NumType where
  | int | long | float | double
  deriving DecidableEq, Repr

def NumType.type : NumType → BasicType
  | .int => .int
  | .long => .long
  | .float => .float
  | .double => .double

/-- How an operand of a conditional jump relates to the other, or to zero. -/
inductive Condition where
  | eq | ne | lt | ge | gt | le
  deriving DecidableEq, Repr

def Condition.holds (condition : Condition) (a b : Int32) : Bool :=
  match condition with
  | .eq => a == b
  | .ne => a != b
  | .lt => a < b
  | .ge => b ≤ a
  | .gt => b < a
  | .le => a ≤ b

inductive LocalInstr where
  | nop
  | push (v : Value)
  | load (type : BasicType) (slot : Nat)
  | store (type : BasicType) (slot : Nat)
  | increment (slot : Nat) (delta : Int32)
  | pop (slots : Nat)
  /-- Copy the top `slots` slots below the `under` slots under them. -/
  | dup (slots under : Nat)
  | swap
  | arith (type : NumType) (op : ArithOp)
  | neg (type : NumType)
  | shift (wide : Bool) (op : ShiftOp)
  | bitwise (wide : Bool) (op : BitOp)
  | convert (source target : NumType)
  /-- Keep the low bits of an `int` that the type holds. -/
  | narrow (type : BasicType)
  | compareLong
  | compareReal (wide : Bool) (unordered : Int32)
  | ifZero (condition : Condition) (offset : Int)
  | ifInts (condition : Condition) (offset : Int)
  | ifRefs (same : Bool) (offset : Int)
  | ifNull (null : Bool) (offset : Int)
  | goto (offset : Int)
  | tableSwitch (fallback low high : Int) (offsets : List Int)
  | lookupSwitch (fallback : Int) (pairs : List (Int × Int))
  deriving DecidableEq, Repr

inductive FieldAccess where
  | getStatic | putStatic | getField | putField
  deriving DecidableEq, Repr

def FieldAccess.isStatic : FieldAccess → Bool
  | .getStatic | .putStatic => true
  | .getField | .putField => false

def FieldAccess.ofName? : String → Option FieldAccess
  | "getstatic" => some .getStatic
  | "putstatic" => some .putStatic
  | "getfield" => some .getField
  | "putfield" => some .putField
  | _ => none

inductive InvokeKind where
  | virtual | special | static | interface
  deriving DecidableEq, Repr

def InvokeKind.ofName? : String → Option InvokeKind
  | "invokevirtual" => some .virtual
  | "invokespecial" => some .special
  | "invokestatic" => some .static
  | "invokeinterface" => some .interface
  | _ => none

inductive Instr where
  | inFrame (instr : LocalInstr)
  | constant (index : Nat) (wide : Bool)
  | ret (type : BasicType)
  | field (access : FieldAccess) (index : Nat)
  | invoke (kind : InvokeKind) (index : Nat)
  | allocate (index : Nat)
  deriving DecidableEq, Repr

namespace Instr

/-- The five types of the load, store and return instructions, in opcode order. -/
def slotType : Nat → BasicType
  | 0 => .int
  | 1 => .long
  | 2 => .float
  | 3 => .double
  | _ => .object

def numType : Nat → NumType
  | 0 => .int
  | 1 => .long
  | 2 => .float
  | _ => .double

def arithOp : Nat → ArithOp
  | 0 => .add
  | 1 => .sub
  | 2 => .mul
  | 3 => .div
  | _ => .rem

def shiftOp : Nat → ShiftOp
  | 0 => .left
  | 1 => .right
  | _ => .rightUnsigned

def bitOp : Nat → BitOp
  | 0 => .and
  | 1 => .or
  | _ => .xor

def condition : Nat → Condition
  | 0 => .eq
  | 1 => .ne
  | 2 => .lt
  | 3 => .ge
  | 4 => .gt
  | _ => .le

/-- The conversions to and from each number type, in opcode order. -/
def conversion : Nat → NumType × NumType
  | 0 => (.int, .long)
  | 1 => (.int, .float)
  | 2 => (.int, .double)
  | 3 => (.long, .int)
  | 4 => (.long, .float)
  | 5 => (.long, .double)
  | 6 => (.float, .int)
  | 7 => (.float, .long)
  | 8 => (.float, .double)
  | 9 => (.double, .int)
  | 10 => (.double, .long)
  | _ => (.double, .float)

/-- The constants of the opcodes `0x01` to `0x0f`. -/
def smallConstant : Nat → Value
  | 0x01 => .null
  | 0x09 => .long 0
  | 0x0a => .long 1
  | 0x0b => .float 0x00000000
  | 0x0c => .float 0x3f800000
  | 0x0d => .float 0x40000000
  | 0x0e => .double 0x0000000000000000
  | 0x0f => .double 0x3ff0000000000000
  | code => .int (Int32.ofInt ((code : Int) - 3))

/-- Copies of the top of the stack, in opcode order: how many slots, below how many. -/
def copyShape : Nat → Nat × Nat
  | 0 => (1, 0)
  | 1 => (1, 1)
  | 2 => (1, 2)
  | 3 => (2, 0)
  | 4 => (2, 1)
  | _ => (2, 2)

def tableSwitch (code : Code) (bci : Nat) : LocalInstr :=
  let base := Code.switchBase bci
  let low := code.signedAt 4 (base + 4)
  let high := code.signedAt 4 (base + 8)
  .tableSwitch (code.signedAt 4 base) low high
    ((List.range (high - low + 1).toNat).map fun i => code.signedAt 4 (base + 12 + 4 * i))

def lookupSwitch (code : Code) (bci : Nat) : LocalInstr :=
  let base := Code.switchBase bci
  .lookupSwitch (code.signedAt 4 base)
    ((List.range (code.signedAt 4 (base + 4)).toNat).map fun i =>
      (code.signedAt 4 (base + 8 + 8 * i), code.signedAt 4 (base + 12 + 8 * i)))

/-- The local variable that the byte after an opcode numbers. -/
def slotAt (code : Code) (bci : Nat) : Nat := code.unsignedAt 1 (bci + 1)

/-- The offset that the two bytes after an opcode give. -/
def offsetAt (code : Code) (bci : Nat) : Int := code.signedAt 2 (bci + 1)

/-- The pool slot that the two bytes after an opcode number. -/
def indexAt (code : Code) (bci : Nat) : Nat := code.unsignedAt 2 (bci + 1)

/-- The frame-local instruction at an index whose opcode is executable. -/
def decodeLocal (code : Code) (bci : Nat) : LocalInstr :=
  let op := (code.byteAt bci).toNat
  if op = 0x00 then .nop
  else if op ≤ 0x0f then .push (smallConstant op)
  else if op = 0x10 then .push (.int (Int32.ofInt (code.signedAt 1 (bci + 1))))
  else if op = 0x11 then .push (.int (Int32.ofInt (code.signedAt 2 (bci + 1))))
  else if op ≤ 0x19 then .load (slotType (op - 0x15)) (slotAt code bci)
  else if op ≤ 0x2d then .load (slotType ((op - 0x1a) / 4)) ((op - 0x1a) % 4)
  else if op ≤ 0x3a then .store (slotType (op - 0x36)) (slotAt code bci)
  else if op ≤ 0x4e then .store (slotType ((op - 0x3b) / 4)) ((op - 0x3b) % 4)
  else if op ≤ 0x58 then .pop (op - 0x56)
  else if op ≤ 0x5e then .dup (copyShape (op - 0x59)).1 (copyShape (op - 0x59)).2
  else if op = 0x5f then .swap
  else if op ≤ 0x73 then .arith (numType ((op - 0x60) % 4)) (arithOp ((op - 0x60) / 4))
  else if op ≤ 0x77 then .neg (numType (op - 0x74))
  else if op ≤ 0x7d then .shift ((op - 0x78) % 2 == 1) (shiftOp ((op - 0x78) / 2))
  else if op ≤ 0x83 then .bitwise ((op - 0x7e) % 2 == 1) (bitOp ((op - 0x7e) / 2))
  else if op = 0x84 then .increment (slotAt code bci) (Int32.ofInt (code.signedAt 1 (bci + 2)))
  else if op ≤ 0x90 then .convert (conversion (op - 0x85)).1 (conversion (op - 0x85)).2
  else if op = 0x91 then .narrow .byte
  else if op = 0x92 then .narrow .char
  else if op = 0x93 then .narrow .short
  else if op = 0x94 then .compareLong
  else if op ≤ 0x98 then .compareReal (0x97 ≤ op) (if op % 2 = 1 then -1 else 1)
  else if op ≤ 0x9e then .ifZero (condition (op - 0x99)) (offsetAt code bci)
  else if op ≤ 0xa4 then .ifInts (condition (op - 0x9f)) (offsetAt code bci)
  else if op ≤ 0xa6 then .ifRefs (op == 0xa5) (offsetAt code bci)
  else if op = 0xa7 then .goto (offsetAt code bci)
  else if op = 0xaa then tableSwitch code bci
  else if op = 0xab then lookupSwitch code bci
  else if op = 0xc6 then .ifNull true (offsetAt code bci)
  else if op = 0xc7 then .ifNull false (offsetAt code bci)
  else .goto (code.signedAt 4 (bci + 1))

/-- The instruction at an index whose opcode is executable and whose operands are present. -/
def decode (code : Code) (bci : Nat) : Instr :=
  match (code.byteAt bci).toNat with
  | 0x12 => .constant (code.unsignedAt 1 (bci + 1)) false
  | 0x13 => .constant (indexAt code bci) false
  | 0x14 => .constant (indexAt code bci) true
  | 0xac => .ret .int
  | 0xad => .ret .long
  | 0xae => .ret .float
  | 0xaf => .ret .double
  | 0xb0 => .ret .object
  | 0xb1 => .ret .void
  | 0xb2 => .field .getStatic (indexAt code bci)
  | 0xb3 => .field .putStatic (indexAt code bci)
  | 0xb4 => .field .getField (indexAt code bci)
  | 0xb5 => .field .putField (indexAt code bci)
  | 0xb6 => .invoke .virtual (indexAt code bci)
  | 0xb7 => .invoke .special (indexAt code bci)
  | 0xb8 => .invoke .static (indexAt code bci)
  | 0xb9 => .invoke .interface (indexAt code bci)
  | 0xbb => .allocate (indexAt code bci)
  | _ => .inFrame (decodeLocal code bci)

end Instr

end Jvm
