/-
# Jvm.ClassId — the identity of a linked class

Two classes can have the same name when one of them is defined while the other is being
loaded, so a linked class is named by its name together with a number: how many
classes of that name were defined before it.
-/
namespace Jvm

set_option autoImplicit false

structure ClassId where
  name : String
  generation : Nat
  deriving DecidableEq, Repr, Inhabited

end Jvm
