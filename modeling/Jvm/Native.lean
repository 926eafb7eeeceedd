/-
# Jvm.Native — methods that are built into the machine

A native method has no code of its own: it is bound to one of the actions listed here.
The built-in classes use the actions that print, that open the standard output and
that compute absolute values, minima and maxima; the remaining ones serve methods that
are bound from outside. What an action does is said by `Jvm.Native.Run`.
-/
import Jvm.Value

namespace Jvm

set_option autoImplicit false

/-- The kinds of value that the printing methods accept. -/
inductive PrintKind where
  | int | long | float | double | boolean | char | reference
  deriving DecidableEq, Repr

inductive Native where
  | doNothing
  | newline
  | print (kind : PrintKind) (newline : Bool)
  /-- Create the object behind the standard output stream. -/
  | openOutput
  | abs
  | max
  | min
  /-- Answer with a fixed value. -/
  | answer (v : Value)
  | firstArgument
  | argumentCount
  | fail
  deriving DecidableEq, Repr

end Jvm
