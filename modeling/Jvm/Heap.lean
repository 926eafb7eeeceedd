/-
# Jvm.Heap — objects

An object has a class and a row of field slots. A heap has a fixed capacity in bytes;
objects are allocated one after another and are never removed, so an object is named by
its position. An object takes sixteen bytes and sixteen more for each slot.
-/
import Jvm.Class.Layout
import Jvm.Decimal.Printed
import Jvm.Value

namespace Jvm

set_option autoImplicit false

structure Object where
  classId : ClassId
  fields : Array Value
  deriving DecidableEq, Repr

structure Heap where
  capacity : Nat
  used : Nat
  objects : Array Object
  deriving DecidableEq, Repr

namespace Object

/-- The bytes that an object with the given number of slots takes. -/
def byteSize (slots : Nat) : Nat := 16 + 16 * slots

/-- What a slot of the given type holds in a new object. -/
def initialValue (type : BasicType) : Value :=
  if type = .address then .text none else .zero type

def ofClass (c : LinkedClass) : Object :=
  ⟨c.id, (c.slotTypes.map initialValue).toArray⟩

/-- What an object is called in printed text: its class, and what tells it from others. -/
def identityText (object : Object) (index : Nat) : String :=
  object.classId.name ++ "@" ++ Text.hex 1 (16 * (index + 1))

/-- Where an object lies, and where its class does, is written `*`. -/
def describe (object : Object) : String :=
  let slot (index : Nat) (v : Value) : String := s!" [{index}]=" ++ v.describe
  s!"oop(*) klass=* fields={object.fields.size}" ++
    String.join (object.fields.toList.mapIdx slot)

end Object

namespace Heap

def empty (capacity : Nat) : Heap := ⟨capacity, 0, #[]⟩

/-- No memory is larger than addresses of 47 bits reach. -/
def greatestCapacity : Nat := 0x800000000000

/-- The capacity for a size, rounded up to a multiple of sixteen as a 64-bit word. -/
def capacityFor (bytes : UInt64) : Nat := ((bytes + 15) / 16 * 16).toNat

/-- An empty heap of the given size. -/
def reserve (bytes : UInt64) : Except Violation Heap :=
  if capacityFor bytes < greatestCapacity then .ok (empty (capacityFor bytes))
  else .error .heapTooLarge

def free (heap : Heap) : Nat := heap.capacity - heap.used

def allocations (heap : Heap) : Nat := heap.objects.size

def object? (heap : Heap) (index : Nat) : Option Object := heap.objects[index]?

/-- The bytes that an object of a class takes. -/
def sizeOf (c : LinkedClass) : Nat := Object.byteSize c.slotTypes.length

def hasRoom (heap : Heap) (c : LinkedClass) : Bool := sizeOf c ≤ heap.free

def exhausted (heap : Heap) (c : LinkedClass) : Cause :=
  .heapExhausted (sizeOf c) c.name heap.free heap.capacity

/-- Add a new object, at the position that is the number of objects so far. -/
def add (heap : Heap) (c : LinkedClass) : Heap :=
  { heap with
    used := heap.used + sizeOf c
    objects := heap.objects.push (.ofClass c) }

/-- Write a field slot of an object. -/
def putField (heap : Heap) (index slot : Nat) (v : Value) : Heap :=
  { heap with
    objects := heap.objects.modify index fun object =>
      { object with fields := object.fields.setIfInBounds slot v } }

/-- A quotient with one place after the point. -/
def onePlace (numerator denominator : Float) : String :=
  (Decimal.Format.double.decode (numerator / denominator).toBits.toNat).fixed 1

def megabytes (heap : Heap) : String := onePlace (Float.ofNat heap.capacity) 1048576.0

def percentUsed (heap : Heap) : String :=
  if heap.capacity = 0 then "0.0"
  else onePlace (100.0 * Float.ofNat heap.used) (Float.ofNat heap.capacity)

def describe (heap : Heap) : String :=
  Text.lines
    ["=== JavaHeap ===",
      s!"  Capacity: {heap.capacity} bytes ({heap.megabytes} MB)",
      s!"  Used:     {heap.used} bytes ({heap.percentUsed}%)",
      s!"  Free:     {heap.free} bytes",
      s!"  Total allocations: {heap.allocations}"]

end Heap

end Jvm
