/-
# Jvm.Frame — frames

A frame is one execution of a method: where it is in the code, its local variables and
its operand stack. An entry frame gives its result to the caller from outside; every
other frame pushes it on the frame below. A frame can also run the initializer of a
class, which is finished when the frame returns.
-/
import Jvm.Locals
import Jvm.Method
import Jvm.OperandStack

namespace Jvm

set_option autoImplicit false

structure Frame where
  method : Method
  bci : Nat
  locals : Locals
  stack : OperandStack
  isEntry : Bool
  /-- The class whose initializer the frame runs. -/
  initializing : Option ClassId
  deriving DecidableEq, Repr

namespace Frame

/-- A frame at the start of a method with the given local variables. -/
def withLocals (method : Method) (locals : Locals) : Frame where
  method := method
  bci := 0
  locals := locals
  stack := .empty method.body.maxStack
  isEntry := false
  initializing := none

/-- A frame at the start of a method. -/
def start (method : Method) : Frame := withLocals method (.unset method.body.maxLocals)

/-- A frame at the start of a method with its arguments in the local variables. -/
def withArguments (method : Method) (arguments : List Value) : Except Halt Frame := do
  return withLocals method (← (Locals.unset method.body.maxLocals).writeAll 0 arguments)

def describeValues (values : List Value) : String :=
  "[" ++ Text.joinWith ", " (values.map Value.describe) ++ "]"

def describe (frame : Frame) : String :=
  s!"  Frame: {frame.method.describe}, bci={frame.bci}, " ++
    s!"sp={frame.stack.used}/{frame.stack.capacity}, locals={frame.locals.size}" ++
    (if frame.isEntry then " (entry)" else "") ++ "\n" ++
    "    locals: " ++ describeValues frame.locals.toList ++ "\n" ++
    "    stack:  " ++ describeValues frame.stack.slots.reverse ++ "\n"

end Frame

end Jvm
