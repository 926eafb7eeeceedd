/-
# Jvm.Machine.Linking — what symbolic references stand for

A reference in a pool names a class and, for a member, a name and a descriptor. Linking
finds the class, loading it if need be, then looks for the member in the class and its
superclasses, and checks that it is static exactly when the instruction expects it.
-/
import Jvm.Machine.Loading
import Jvm.Pool.Resolve

namespace Jvm

set_option autoImplicit false

namespace Machine

/-- The first answer along a chain of classes, with the class that gives it. -/
def findInChain? {α : Type} (machine : Machine) (view : LinkedClass → Option α) :
    List ClassId → Option (LinkedClass × α)
  | [] => none
  | id :: supers =>
      match machine.classOf? id with
      | none => none
      | some c =>
          match view c with
          | some found => some (c, found)
          | none => machine.findInChain? view supers

/-- The nearest declaration of a method in a class or its superclasses. -/
def findMethod? (machine : Machine) (chain : List ClassId) (name descriptor : String) :
    Option Method :=
  (machine.findInChain? (fun c => c.method? name descriptor) chain).map (·.2)

/-- The nearest declaration of a field in a class or its superclasses. -/
def findField? (machine : Machine) (chain : List ClassId) (name descriptor : String) :
    Option (LinkedClass × Field) :=
  machine.findInChain? (fun c => c.field? name descriptor) chain

end Machine

/-- A field that a reference stands for. -/
structure LinkedField where
  owner : LinkedClass
  name : String
  descriptor : String
  slot : Nat
  isStatic : Bool
  deriving DecidableEq, Repr

def LinkedField.type (field : LinkedField) : BasicType := Descriptor.fieldType field.descriptor

namespace Linking

/-- A failure at a pool slot. -/
def failAt {α : Type} (index : Int) (cause : Cause) : Exec α :=
  throw (.fault ((Fault.of cause).atIndex index))

/-- The class that a `new` instruction names. -/
def resolveNew (pool : Pool) (index : Int) : Exec LinkedClass := do
  let name ← Exec.ofFault (pool.className index)
  let c ← Loading.resolve name
  if c.isInterface ∨ c.isAbstract then Exec.fail (.notInstantiable c.isInterface c.name)
  return c

/-- The field that a field instruction names. -/
def resolveField (pool : Pool) (index : Int) (access : FieldAccess) : Exec LinkedField := do
  let ref ← Exec.ofFault (pool.field index)
  let c ← Loading.resolve ref.owner
  match (← get).findField? c.chain ref.name ref.descriptor with
  | none => failAt index (.noField ref.owner ref.name ref.descriptor)
  | some (owner, field) =>
      if field.isStatic ≠ access.isStatic then
        failAt index (.fieldStaticness access.isStatic ref.owner ref.name)
      return ⟨owner, ref.name, ref.descriptor, field.slot, access.isStatic⟩

/-- The method reference of an invoke instruction. -/
def methodRef (pool : Pool) (index : Int) (kind : InvokeKind) : Except Fault Pool.Member :=
  match kind with
  | .interface => pool.interfaceMethod index
  | .virtual | .special | .static => pool.method index

/-- Whether a special call of a method found from `c` starts its search again at the
superclass of the calling class. -/
def isSuperCall (caller c : LinkedClass) (method : Method) : Bool :=
  ! method.isObjectInitializer && caller.id != c.id && caller.flags.isSuper &&
    caller.isSubclassOf c.id

/-- The method that an invoke instruction names, before any choice by the receiver. -/
def resolveInvoke (pool : Pool) (index : Int) (kind : InvokeKind) (caller : Option LinkedClass) :
    Exec Method := do
  let ref ← Exec.ofFault (methodRef pool index kind)
  let c ← Loading.resolve ref.owner
  let machine ← get
  match machine.findMethod? c.chain ref.name ref.descriptor with
  | none => failAt index (.noMethod c.name ref.name ref.descriptor)
  | some method =>
      let wantStatic := kind == .static
      if method.isStatic ≠ wantStatic then
        failAt index (.methodStaticness wantStatic ref.owner ref.name ref.descriptor)
      match kind, caller with
      | .special, some caller =>
          if isSuperCall caller c method then
            return (machine.findMethod? caller.supers ref.name ref.descriptor).getD method
          else return method
      | _, _ => return method

/-- The method that a call of `method` runs on a receiver of the given class. -/
def selectVirtual (receiver : LinkedClass) (method : Method) : Exec Method := do
  if method.isPrivate then return method
  match (← get).findMethod? receiver.chain method.name method.descriptor with
  | none => Exec.fail (.notImplemented receiver.name method.name method.descriptor)
  | some found =>
      if found.isStatic then
        Exec.fail (.notImplemented receiver.name method.name method.descriptor)
      return found

end Linking

end Jvm
