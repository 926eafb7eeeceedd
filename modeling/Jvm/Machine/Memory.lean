/-
# Jvm.Machine.Memory — objects and strings of the machine

Objects are allocated on the heap of the current thread. A string object has one hidden
slot that holds its text; equal texts are interned as one object per thread. A string
object that is allocated like any other object has no text.
-/
import Jvm.Machine
import Jvm.Pool.Resolve

namespace Jvm

set_option autoImplicit false

def stringClass : String := "java/lang/String"

namespace Machine

/-- The text of an object, if it is a string that has one. -/
def text? (machine : Machine) (ref : Ref) : Option String :=
  match machine.object? ref with
  | none => none
  | some object =>
      match machine.findClass? stringClass with
      | none => none
      | some c =>
          if object.classId = c.id then
            match object.fields[c.firstHiddenSlot]? with
            | some (.text content) => content
            | _ => none
          else none

end Machine

namespace Exec

/-- The class of a name that every machine has. -/
def builtin (name : String) : Exec LinkedClass := do
  match (← get).findClass? name with
  | some c => return c
  | none => violate .unknownClass

/-- A new object of a class, on the heap of the current thread. -/
def allocate (c : LinkedClass) : Exec Ref := fun machine =>
  if machine.thread.heap.hasRoom c then
    .ok machine.thread.nextRef (machine.updateThread fun thread => thread.addObject c)
  else fail (machine.thread.heap.exhausted c) machine

def field (ref : Ref) (slot : Nat) : Exec Value :=
  return (← object ref).fields.getD slot .unset

def putField (ref : Ref) (slot : Nat) (v : Value) : Exec Unit :=
  modify fun machine => machine.updateHeap ref.heap fun heap => heap.putField ref.index slot v

/-- The one string object of the current thread that has the text. -/
def intern (text : String) : Exec Ref := do
  match (← thread).interned? text with
  | some ref => return ref
  | none =>
      let c ← builtin stringClass
      let ref ← allocate c
      putField ref c.firstHiddenSlot (.text (some text))
      updateThread fun thread => { thread with strings := thread.strings.insert text ref }
      return ref

/-- The value that a pool constant stands for. -/
def loadedValue : Pool.Loadable → Exec Value
  | .value v => return v
  | .string text => return .ref (some (← intern text))

end Exec

end Jvm
