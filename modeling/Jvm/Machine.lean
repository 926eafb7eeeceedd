/-
# Jvm.Machine — the state of the machine and actions on it

The machine has its options, the files it can load classes from, the linked classes (the
latest first), the threads, one of which is current, and a log of trace lines (the latest
first). An action may halt, and what it did before halting stays done.
-/
import Jvm.Files
import Jvm.Frame.Step
import Jvm.Options
import Jvm.Thread

namespace Jvm

set_option autoImplicit false

structure Machine where
  options : Options
  files : Files
  classes : List LinkedClass
  thread : Thread
  /-- The threads that are not current. -/
  parked : List Thread
  log : List String
  deriving DecidableEq, Repr

/-- An action of the machine. -/
abbrev Exec := EStateM Halt Machine

namespace Machine

def findClass? (machine : Machine) (name : String) : Option LinkedClass :=
  machine.classes.find? (·.name == name)

def classOf? (machine : Machine) (id : ClassId) : Option LinkedClass :=
  machine.classes.find? (·.id == id)

/-- How many classes of a name there are. -/
def generationOf (machine : Machine) (name : String) : Nat :=
  machine.classes.countP (·.name == name)

/-- A thread by its number. -/
def threadOf? (machine : Machine) (number : Nat) : Option Thread :=
  if machine.thread.number = number then some machine.thread
  else machine.parked.find? (·.number == number)

def object? (machine : Machine) (ref : Ref) : Option Object :=
  (machine.threadOf? ref.heap).bind fun thread => thread.heap.object? ref.index

/-- Change the heap that an object is in. -/
def updateHeap (machine : Machine) (number : Nat) (change : Heap → Heap) : Machine :=
  if machine.thread.number = number then
    { machine with thread := { machine.thread with heap := change machine.thread.heap } }
  else
    { machine with
      parked := machine.parked.map fun thread =>
        if thread.number = number then { thread with heap := change thread.heap } else thread }

def updateThread (machine : Machine) (change : Thread → Thread) : Machine :=
  { machine with thread := change machine.thread }

def pushFrame (machine : Machine) (frame : Frame) : Machine :=
  machine.updateThread (·.pushFrame frame)

/-- Take the top frame off. A frame that the machine no longer holds is changed in place. -/
@[noinline] def popFrame (machine : Machine) : Machine := machine.updateThread (·.popFrame)

end Machine

namespace Exec

def fail {α : Type} (cause : Cause) : Exec α := throw cause.halt

def violate {α : Type} (violation : Violation) : Exec α := throw (.violation violation)

def ofFault {α : Type} (answer : Except Fault α) : Exec α :=
  match answer with
  | .ok v => pure v
  | .error fault => throw (.fault fault)

def ofCause {α : Type} (answer : Except Cause α) : Exec α :=
  match answer with
  | .ok v => pure v
  | .error cause => fail cause

def ofHalt {α : Type} (answer : Except Halt α) : Exec α :=
  match answer with
  | .ok v => pure v
  | .error halt => throw halt

/-- Change the reported fault of an action. -/
def mapFault {α : Type} (change : Fault → Fault) (action : Exec α) : Exec α := fun machine =>
  match action machine with
  | .ok v machine => .ok v machine
  | .error halt machine => .error (halt.mapFault change) machine

/-- Change the machine if an action halts. -/
def onHalt {α : Type} (action : Exec α) (cleanup : Machine → Machine) : Exec α := fun machine =>
  match action machine with
  | .ok v machine => .ok v machine
  | .error halt machine => .error halt (cleanup machine)

def thread : Exec Thread := return (← get).thread

def updateThread (change : Thread → Thread) : Exec Unit := modify (·.updateThread change)

def classOf (id : ClassId) : Exec LinkedClass := do
  match (← get).classOf? id with
  | some c => return c
  | none => violate .unknownClass

def object (ref : Ref) : Exec Object := do
  match (← get).object? ref with
  | some object => return object
  | none => violate .unknownObject

/-- Write a trace line if the option for it is set. -/
def trace (wanted : Options → Bool) (line : String) : Exec Unit :=
  modify fun machine =>
    if wanted machine.options then { machine with log := (line ++ "\n") :: machine.log }
    else machine

def print (text : String) : Exec Unit :=
  updateThread fun thread => { thread with output := text :: thread.output }

/-! ## Frames -/

def topFrame : Exec Frame := do
  match (← get).thread.frames with
  | frame :: _ => return frame
  | [] => violate .noFrame

/-- Run an action on the top frame. -/
def onTop {α : Type} (action : FrameM α) : Exec α := fun machine =>
  match machine.thread.frames with
  | [] => .error (.violation .noFrame) machine
  | frame :: _ =>
      let machine := machine.popFrame
      match action frame with
      | .ok v frame => .ok v (machine.pushFrame frame)
      | .error halt frame => .error halt (machine.pushFrame frame)

/-- Put a frame on top, unless there are as many frames as allowed. -/
def pushFrame (frame : Frame) : Exec Unit := do
  let machine ← get
  if machine.options.maxDepth ≤ machine.thread.depth then
    fail (.callDepth machine.options.maxDepth frame.method.describe)
  else modify (·.pushFrame frame)

def popFrame : Exec Unit := modify (·.popFrame)

end Exec

end Jvm
