/-
# Jvm.Machine.Start — a machine at its start

A new machine has the built-in classes and one thread, and has executed nothing.
-/
import Jvm.Builtin
import Jvm.Machine.Loading

namespace Jvm.Machine

set_option autoImplicit false

/-- A machine without classes, whose thread has the given heap. -/
def blank (options : Options) (files : Files) (heap : Heap) : Machine where
  options := options
  files := files
  classes := []
  thread := .start 0 "main" .inMachine heap
  parked := []
  log := []

def defineAll : List Builtin.Spec → Exec Unit
  | [] => return
  | spec :: rest => do
      let _ ← Loading.defineParts spec.parts
      defineAll rest

/-- Add the built-in classes to a machine that has none. -/
def withBuiltins (machine : Machine) : Machine :=
  match (defineAll Builtin.all).run machine with
  | .ok _ machine => machine
  | .error _ machine => machine

/-- A machine with the built-in classes, if its heap can be had. -/
def start (options : Options) (files : Files) : Except Violation Machine := do
  let heap ← Heap.reserve options.heapSize
  return (blank options files heap).withBuiltins

/-- Create a thread and make it current. A heap size of zero stands for the default. -/
def createThread (name : String) (heapSize : UInt64) : Exec Unit := do
  let machine ← get
  let size := if heapSize = 0 then machine.options.heapSize else heapSize
  match Heap.reserve size with
  | .error violation => Exec.violate violation
  | .ok heap =>
      set { machine with
        thread := .start (machine.parked.length + 1) name .new heap
        parked := machine.thread :: machine.parked }

/-- Make another thread current. -/
def switchTo (machine : Machine) (number : Nat) : Machine :=
  match machine.parked.find? (·.number == number) with
  | none => machine
  | some thread =>
      { machine with
        thread := thread
        parked := machine.thread :: machine.parked.filter (·.number != number) }

/-- The trace lines. -/
def logged (machine : Machine) : String := String.join machine.log.reverse

/-- Bind the methods of a class that have a name and descriptor to a native action. -/
def bindNative (machine : Machine) (id : ClassId) (name descriptor : String)
    (native : Option Native) : Machine :=
  let bindIn (c : LinkedClass) : LinkedClass :=
    { c with
      methods := c.methods.map fun method =>
        if method.name = name ∧ method.descriptor = descriptor then
          { method with native := native }
        else method }
  { machine with
    classes := machine.classes.map fun c => if c.id = id then bindIn c else c }

end Jvm.Machine
