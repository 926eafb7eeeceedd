/-
# Jvm.Frame.Step — instructions that need only their frame

An action on a frame either succeeds or stops, and the frame keeps what was done before
it stopped: an operand that was popped stays popped. `LocalInstr.run` executes one
instruction and moves to the next one. A jump moves to its target, which must lie in the
code; any other instruction moves past itself.
-/
import Jvm.Frame
import Jvm.Instr

namespace Jvm

set_option autoImplicit false

/-- An action on a frame. -/
abbrev FrameM := EStateM Halt Frame

namespace FrameM

def fail {α : Type} (cause : Cause) : FrameM α := throw cause.halt

/-- Change the operand stack. -/
def onStack (change : OperandStack → Except Halt OperandStack) : FrameM Unit := do
  let frame ← get
  match change frame.stack with
  | .ok stack => set { frame with stack := stack }
  | .error halt => throw halt

def push (v : Value) : FrameM Unit := onStack (·.push v)

/-- Take a value off the stack that a variable of the declared type can hold. -/
def pop (type : BasicType) : FrameM Value := do
  let frame ← get
  match frame.stack.pop type with
  | .ok (v, stack) =>
      set { frame with stack := stack }
      return v
  | .error halt => throw halt

def readLocal (slot : Int) (type : BasicType) : FrameM Value := do
  match (← get).locals.read slot type with
  | .ok v => return v
  | .error halt => throw halt

def writeLocal (slot : Int) (v : Value) : FrameM Unit := do
  match (← get).locals.checkRange slot v.size with
  | .ok _ => modify fun frame => { frame with locals := frame.locals.store slot.toNat v }
  | .error halt => throw halt

def popInt : FrameM Int32 := do
  match ← pop .int with
  | .int v => return v
  | _ => return 0

def popLong : FrameM Int64 := do
  match ← pop .long with
  | .long v => return v
  | _ => return 0

def popFloat : FrameM UInt32 := do
  match ← pop .float with
  | .float bits => return bits
  | _ => return 0

def popDouble : FrameM UInt64 := do
  match ← pop .double with
  | .double bits => return bits
  | _ => return 0

def popRef : FrameM (Option Ref) := do
  match ← pop .object with
  | .ref object => return object
  | _ => return none

/-- Move past an instruction of the given length. -/
def advance (length : Nat) : FrameM Unit :=
  modify fun frame => { frame with bci := frame.bci + length }

/-- Move to an offset from here. -/
def jump (offset : Int) : FrameM Unit := do
  let frame ← get
  let target := (frame.bci : Int) + offset
  if target < 0 ∨ (frame.method.codeSize : Int) ≤ target then
    fail (.branchTarget target frame.method.codeSize)
  else set { frame with bci := target.toNat }

def jumpIf (taken : Bool) (offset : Int) (length : Nat) : FrameM Unit :=
  if taken then jump offset else advance length

/-! ## Groups of instructions -/

def arith (type : NumType) (op : ArithOp) : FrameM Unit :=
  match type with
  | .int => do
      let b ← popInt
      let a ← popInt
      match op.int a b with
      | some v => push (.int v)
      | none => fail .divisionByZero
  | .long => do
      let b ← popLong
      let a ← popLong
      match op.long a b with
      | some v => push (.long v)
      | none => fail .divisionByZero
  | .float => do
      let b ← popFloat
      let a ← popFloat
      push (.float (Single.apply op a b))
  | .double => do
      let b ← popDouble
      let a ← popDouble
      push (.double (Double.apply op a b))

def neg : NumType → FrameM Unit
  | .int => do push (.int (-(← popInt)))
  | .long => do push (.long (-(← popLong)))
  | .float => do push (.float (Single.neg (← popFloat)))
  | .double => do push (.double (Double.neg (← popDouble)))

def shift (wide : Bool) (op : ShiftOp) : FrameM Unit := do
  let count ← popInt
  if wide then push (.long (op.long (← popLong) count))
  else push (.int (op.int (← popInt) count))

def bitwise (wide : Bool) (op : BitOp) : FrameM Unit := do
  if wide then
    let b ← popLong
    push (.long (op.long (← popLong) b))
  else
    let b ← popInt
    push (.int (op.int (← popInt) b))

/-- The value of a number as a number of another type. -/
def converted (target : NumType) : Value → Value
  | .int v =>
      match target with
      | .int => .int v
      | .long => .long v.toInt64
      | .float => .float (Single.ofInt v)
      | .double => .double (Double.ofInt v)
  | .long v =>
      match target with
      | .int => .int v.toInt32
      | .long => .long v
      | .float => .float (Single.ofLong v)
      | .double => .double (Double.ofLong v)
  | .float bits =>
      match target with
      | .int => .int (Single.toInt bits)
      | .long => .long (Single.toLong bits)
      | .float => .float bits
      | .double => .double (Double.ofSingle bits)
  | .double bits =>
      match target with
      | .int => .int (Double.toInt bits)
      | .long => .long (Double.toLong bits)
      | .float => .float (Single.ofDouble bits)
      | .double => .double bits
  | v => v

/-- The low bits of an `int` that a narrower type holds. -/
def narrowed (type : BasicType) (v : Int32) : Int32 :=
  match type with
  | .boolean => narrowBoolean v
  | .byte => narrowByte v
  | .char => narrowChar v
  | .short => narrowShort v
  | _ => v

def compareReal (wide : Bool) (unordered : Int32) : FrameM Unit := do
  if wide then
    let b ← popDouble
    push (.int (Double.compare unordered (← popDouble) b))
  else
    let b ← popFloat
    push (.int (Single.compare unordered (← popFloat) b))

/-- The offset that a table gives for a key. -/
def tableOffset (fallback low high : Int) (offsets : List Int) (key : Int) : Int :=
  if low ≤ key ∧ key ≤ high then offsets.getD (key - low).toNat fallback else fallback

/-- The offset of the first pair for a key. -/
def lookupOffset (fallback : Int) (pairs : List (Int × Int)) (key : Int) : Int :=
  (pairs.lookup key).getD fallback

end FrameM

namespace LocalInstr

open FrameM (popInt popLong popRef readLocal writeLocal onStack advance jump jumpIf)

/-- The effect of an instruction other than a jump, on all but the position. -/
def runPlain : LocalInstr → FrameM Unit
  | .push v => FrameM.push v
  | .load type slot => do FrameM.push (← readLocal slot type)
  | .store type slot => do writeLocal slot (← FrameM.pop type)
  | .increment slot delta => do
      match ← readLocal slot .int with
      | .int v => writeLocal slot (.int (v + delta))
      | _ => return
  | .pop count => onStack (·.drop count)
  | .dup count under => onStack (·.dup count under)
  | .swap => onStack OperandStack.swap
  | .arith type op => FrameM.arith type op
  | .neg type => FrameM.neg type
  | .shift wide op => FrameM.shift wide op
  | .bitwise wide op => FrameM.bitwise wide op
  | .convert source target => do FrameM.push (FrameM.converted target (← FrameM.pop source.type))
  | .narrow type => do FrameM.push (.int (FrameM.narrowed type (← popInt)))
  | .compareLong => do
      let b ← popLong
      FrameM.push (.int (Jvm.compareLong (← popLong) b))
  | .compareReal wide unordered => FrameM.compareReal wide unordered
  | _ => return

/-- Execute an instruction of the given length and move to the next one. -/
def run (length : Nat) : LocalInstr → FrameM Unit
  | .ifZero condition offset => do jumpIf (condition.holds (← popInt) 0) offset length
  | .ifInts condition offset => do
      let b ← popInt
      jumpIf (condition.holds (← popInt) b) offset length
  | .ifRefs same offset => do
      let b ← popRef
      jumpIf (decide ((← popRef) = b) == same) offset length
  | .ifNull null offset => do jumpIf ((← popRef).isNone == null) offset length
  | .goto offset => jump offset
  | .tableSwitch fallback low high offsets => do
      jump (FrameM.tableOffset fallback low high offsets (← popInt).toInt)
  | .lookupSwitch fallback pairs => do jump (FrameM.lookupOffset fallback pairs (← popInt).toInt)
  | instr => do
      runPlain instr
      advance length

end LocalInstr

end Jvm
