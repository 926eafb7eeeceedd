/-
# Jvm.Arith.Integer — arithmetic of `int` and `long`

The integer instructions work on 32-bit and 64-bit two's-complement words, and the
core types `Int32` and `Int64` are exactly these words: sums and products wrap, and
division truncates toward zero. Nothing is divided by minus one, since the quotient of
the least value would not be a word: the dividend is negated instead, which wraps. The
only failure is a zero divisor, which `ArithOp` reports as `none`. Shifts use the low
five (six) bits of their count.
-/
namespace Jvm

set_option autoImplicit false

inductive ArithOp where
  | add | sub | mul | div | rem
  deriving DecidableEq, Repr

inductive BitOp where
  | and | or | xor
  deriving DecidableEq, Repr

inductive ShiftOp where
  /-- Towards the high bits. -/
  | left
  /-- Towards the low bits, copying the sign. -/
  | right
  /-- Towards the low bits, filling with zeros. -/
  | rightUnsigned
  deriving DecidableEq, Repr

def ArithOp.int (op : ArithOp) (a b : Int32) : Option Int32 :=
  match op with
  | .add => some (a + b)
  | .sub => some (a - b)
  | .mul => some (a * b)
  | .div => if b = 0 then none else if b = -1 then some (-a) else some (a / b)
  | .rem => if b = 0 then none else if b = -1 then some 0 else some (a % b)

def ArithOp.long (op : ArithOp) (a b : Int64) : Option Int64 :=
  match op with
  | .add => some (a + b)
  | .sub => some (a - b)
  | .mul => some (a * b)
  | .div => if b = 0 then none else if b = -1 then some (-a) else some (a / b)
  | .rem => if b = 0 then none else if b = -1 then some 0 else some (a % b)

def BitOp.int (op : BitOp) (a b : Int32) : Int32 :=
  match op with
  | .and => a &&& b
  | .or => a ||| b
  | .xor => a ^^^ b

def BitOp.long (op : BitOp) (a b : Int64) : Int64 :=
  match op with
  | .and => a &&& b
  | .or => a ||| b
  | .xor => a ^^^ b

def ShiftOp.int (op : ShiftOp) (a count : Int32) : Int32 :=
  match op with
  | .left => a <<< count
  | .right => a >>> count
  | .rightUnsigned => (a.toUInt32 >>> count.toUInt32).toInt32

/-- The count of a `long` shift is an `int`. -/
def ShiftOp.long (op : ShiftOp) (a : Int64) (count : Int32) : Int64 :=
  match op with
  | .left => a <<< count.toInt64
  | .right => a >>> count.toInt64
  | .rightUnsigned => (a.toUInt64 >>> count.toInt64.toUInt64).toInt64

/-- The signed value of the low eight bits. -/
def narrowByte (v : Int32) : Int32 := v.toInt8.toInt32

/-- The signed value of the low sixteen bits. -/
def narrowShort (v : Int32) : Int32 := v.toInt16.toInt32

/-- The unsigned value of the low sixteen bits. -/
def narrowChar (v : Int32) : Int32 := v.toUInt32.toUInt16.toUInt32.toInt32

/-- The lowest bit. -/
def narrowBoolean (v : Int32) : Int32 := v &&& 1

/-- The sign of `a - b`, as the comparison instructions push it. -/
def compareLong (a b : Int64) : Int32 :=
  if a < b then -1 else if a = b then 0 else 1

end Jvm
