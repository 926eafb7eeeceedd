/-
# Jvm.Class.Layout — where the fields of a class are stored

Linking a class to its superclass gives every field a slot. The slots of an object
start with those of the superclass, then come the fields that the class declares, in
order, then the hidden slots. Static fields are numbered from zero in each class on its
own. A linked class knows its superclasses by their ids, the nearest first, and its
methods know it. A field keeps its slot in sixteen bits.
-/
import Jvm.Class

namespace Jvm

set_option autoImplicit false

structure LinkedClass extends Class where
  id : ClassId
  /-- The superclasses, the nearest first. -/
  supers : List ClassId
  /-- The types of the slots of an object. -/
  slotTypes : List BasicType
  staticCount : Nat
  deriving DecidableEq, Repr

namespace Layout

/-- A slot number as a field keeps it. -/
def keptSlot (slot : Nat) : Nat := slot % 65536

/-- Give each field the next slot of its kind. -/
def assign (instanceSlot staticSlot : Nat) : List Field → List Field
  | [] => []
  | field :: rest =>
      if field.isStatic then
        { field with slot := keptSlot staticSlot } :: assign instanceSlot (staticSlot + 1) rest
      else
        { field with slot := keptSlot instanceSlot } :: assign (instanceSlot + 1) staticSlot rest

def instanceFields (fields : List Field) : List Field := fields.filter (! ·.isStatic)

/-- The first field whose descriptor does not spell a type. -/
def malformedField? (fields : List Field) : Option Field :=
  fields.find? fun field => ! Descriptor.isValidField field.descriptor

end Layout

namespace LinkedClass

/-- The slots of an object of a superclass, or of no class. -/
def slotsOf : Option LinkedClass → List BasicType
  | none => []
  | some super => super.slotTypes

/-- The ids of a superclass and the superclasses of it. -/
def chainOf : Option LinkedClass → List ClassId
  | none => []
  | some super => super.id :: super.supers

/-- Link a class to its superclass. -/
def link (c : Class) (id : ClassId) (super : Option LinkedClass) : Except Cause LinkedClass :=
  match Layout.malformedField? c.fields with
  | some field => .error (.fieldDescriptor c.name field.name field.descriptor)
  | none =>
      let inherited := slotsOf super
      .ok {
        c with
        fields := Layout.assign inherited.length 0 c.fields
        methods := c.methods.map fun method => { method with owner := some id }
        id := id
        supers := chainOf super
        slotTypes :=
          inherited ++ (Layout.instanceFields c.fields).map Field.stackType ++
            List.replicate c.hiddenSlots .address
        staticCount := c.fields.countP (·.isStatic) }

/-- The first hidden slot of an object. -/
def firstHiddenSlot (c : LinkedClass) : Nat := c.slotTypes.length - c.hiddenSlots

/-- The class and its superclasses, the nearest first. -/
def chain (c : LinkedClass) : List ClassId := c.id :: c.supers

def isSubclassOf (c : LinkedClass) (id : ClassId) : Bool := c.chain.contains id

def superId? (c : LinkedClass) : Option ClassId := c.supers.head?

end LinkedClass

end Jvm
