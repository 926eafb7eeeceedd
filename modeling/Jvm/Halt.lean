/-
# Jvm.Halt — how an action of the machine ends without an answer

Most failures are faults: they are reported and the machine goes on. A `Violation` is
different: the machine was used in a way that its own rules exclude, and it stops. The
third way is that a bounded run used up its bound.
-/
import Jvm.Fault

namespace Jvm

set_option autoImplicit false

inductive Violation where
  /-- A pool without slot zero. -/
  | emptyPool
  /-- A slot that a pool does not have. -/
  | noSlot
  /-- A two-slot constant in the last slot of a pool. -/
  | longAtEnd
  | doubleAtEnd
  /-- A member name or descriptor that is not a text constant. -/
  | notUtf8
  /-- More code than a method can have. -/
  | codeTooLong
  /-- A heap that does not fit into memory. -/
  | heapTooLarge
  /-- A value without a type on an operand stack. -/
  | untypedPush
  /-- An action that needs a frame on an empty call stack. -/
  | noFrame
  /-- A class that is not in the dictionary. -/
  | unknownClass
  /-- A reference to an object that does not exist. -/
  | unknownObject
  /-- Static fields that were never set up. -/
  | noStatics
  /-- A string object whose text was never set. -/
  | textlessString
  deriving DecidableEq, Repr

def Violation.message : Violation → String
  | .emptyPool => "constant pool needs at least slot 0"
  | .noSlot => "index out of bounds"
  | .longAtEnd => "long entry needs two slots"
  | .doubleAtEnd => "double entry needs two slots"
  | .notUtf8 => "not a Utf8 entry"
  | .codeTooLong => "code size mismatch"
  | .heapTooLarge => "JavaHeap: failed to allocate heap memory"
  | .untypedPush => "pushing an untyped value"
  | .noFrame => "pop_frame on empty call stack"
  | .unknownClass => "class is not in the dictionary"
  | .unknownObject => "reference outside every heap"
  | .noStatics => "initialized class must have a mirror"
  | .textlessString => "string object without a text"

inductive Halt where
  | fault (fault : Fault)
  | violation (violation : Violation)
  | outOfFuel
  deriving DecidableEq, Repr

/-- A halt for a cause, at no place yet. -/
def Cause.halt (cause : Cause) : Halt := .fault (.of cause)

def Halt.mapFault (change : Fault → Fault) : Halt → Halt
  | .fault found => .fault (change found)
  | halt => halt

end Jvm
