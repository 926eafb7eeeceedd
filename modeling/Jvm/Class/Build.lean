/-
# Jvm.Class.Build — making a class without a file

A class can be put together from a pool and parts that point into it. A text of a part is
looked up when it is needed, and only then does it matter whether the slot holds one: a
descriptor when it is checked, a name at the latest when the class is made.
-/
import Jvm.Class

namespace Jvm

set_option autoImplicit false

structure FieldPart where
  flags : AccessFlags
  name : Nat
  descriptor : Nat
  constantIndex : Nat
  deriving DecidableEq, Repr

structure MethodPart where
  flags : AccessFlags
  name : Nat
  descriptor : Nat
  maxStack : Nat
  maxLocals : Nat
  code : Code
  native : Option Native
  deriving DecidableEq, Repr

structure ClassParts where
  name : String
  superName : Option String
  flags : AccessFlags
  pool : Pool
  fields : List FieldPart
  methods : List MethodPart
  hiddenSlots : Nat
  deriving DecidableEq, Repr

namespace ClassParts

def textAt (pool : Pool) (index : Nat) : Except Halt PoolText :=
  match pool.textAt index with
  | .ok text => .ok ⟨index, text⟩
  | .error violation => .error (.violation violation)

/-- The most bytes of code that a method can have. -/
def codeLimit : Nat := 65535

/-- The code of a method is not too long and its descriptor is well formed. -/
def checkMethod (pool : Pool) (part : MethodPart) : Except Halt Unit := do
  if codeLimit < part.code.size then throw (.violation .codeTooLong)
  let descriptor ← textAt pool part.descriptor
  if (Descriptor.paramSlots? descriptor.text).isNone then
    let name ← textAt pool part.name
    throw (Cause.halt (.methodDescriptor name.text descriptor.text))

/-- The descriptor of a field of the named class is well formed. -/
def checkField (owner : String) (pool : Pool) (part : FieldPart) : Except Halt Unit := do
  let descriptor ← textAt pool part.descriptor
  if ! Descriptor.isValidField descriptor.text then
    let name ← textAt pool part.name
    throw (Cause.halt (.fieldDescriptor owner name.text descriptor.text))

def checkMethods (parts : ClassParts) : Except Halt Unit :=
  parts.methods.forM (checkMethod parts.pool)

def checkFields (parts : ClassParts) : Except Halt Unit :=
  parts.fields.forM (checkField parts.name parts.pool)

def method (pool : Pool) (part : MethodPart) : Except Halt Method := do
  let name ← textAt pool part.name
  let descriptor ← textAt pool part.descriptor
  match Method.ofDescriptor name descriptor part.flags.written
      ⟨part.maxStack, part.maxLocals, part.code, [], []⟩ with
  | .ok method => return { method with native := part.native }
  | .error cause => throw cause.halt

def field (pool : Pool) (part : FieldPart) : Except Halt Field := do
  let name ← textAt pool part.name
  let descriptor ← textAt pool part.descriptor
  return ⟨part.flags, name.text, descriptor.text, part.constantIndex, 0⟩

/-- The class file version of a class made from parts. -/
def version : Nat := 52

def toClass (parts : ClassParts) : Except Halt Class := do
  let fields ← parts.fields.mapM (field parts.pool)
  let methods ← parts.methods.mapM (method parts.pool)
  return {
    name := parts.name
    superName := parts.superName
    flags := parts.flags.written
    major := version
    minor := 0
    pool := parts.pool
    interfaces := []
    fields := fields
    methods := methods
    sourceIndex := 0
    hiddenSlots := parts.hiddenSlots }

end ClassParts

end Jvm
