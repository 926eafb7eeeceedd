/-
# Jvm.Class.Print — classes in descriptions

A class is described in one line or in a listing of its fields and methods. Before
linking it has no slots; the listing then shows zero.
-/
import Jvm.Class.Layout

namespace Jvm.Class

set_option autoImplicit false

/-- The counts of slots and the state number of a class before and after linking. -/
structure LinkView where
  state : Nat
  instanceSlots : Nat
  staticSlots : Nat
  deriving DecidableEq, Repr

def LinkView.unlinked : LinkView := ⟨1, 0, 0⟩

def LinkView.of (c : LinkedClass) : LinkView := ⟨2, c.slotTypes.length, c.staticCount⟩

/-- One line. Where the class lies is written `*`. -/
def describe (c : Class) (view : LinkView) : String :=
  s!"InstanceKlass(*): \"{c.name}\"" ++ " super=\"" ++ c.superName.getD "<none>" ++
    s!"\" state={view.state} fields={c.fields.length} methods={c.methods.length}"

def fieldLine (index : Nat) (field : Field) : String :=
  let kind := if field.isStatic then "static" else "instance"
  s!"    [{index}] {field.descriptor} {field.name} (flags=0x" ++
    Text.hexUpper 4 field.flags.bits.toNat ++ s!", {kind} slot {field.slot})"

def methodLine (index : Nat) (method : Method) : String :=
  s!"    [{index}] {method.name}{method.descriptor} (flags=0x" ++
    Text.hexUpper 4 method.flags.code ++
    s!", code_size={method.codeSize}, max_stack={method.body.maxStack}, " ++
      s!"max_locals={method.body.maxLocals})"

def summary (c : Class) (view : LinkView) : String :=
  Text.lines (
    ["=== InstanceKlass Summary ===",
      "  Class:    " ++ c.name,
      "  Super:    " ++ c.superName.getD "<none>",
      s!"  Version:  {c.major}.{c.minor}",
      "  Flags:    " ++ c.flags.describe] ++
    c.interfaces.map ("  Implements: " ++ ·) ++
    [s!"  Instance slots: {view.instanceSlots}, static slots: {view.staticSlots}",
      s!"  Fields: {c.fields.length}"] ++
    c.fields.mapIdx fieldLine ++
    [s!"  Methods: {c.methods.length}"] ++
    c.methods.mapIdx methodLine ++
    [""])

end Jvm.Class
