/-
# Jvm.Thread — threads

A thread owns everything that changes while a program runs: its call stack, its heap, its
interned strings, and for every class that it has used a record with the state of
initialization and the static fields. Threads share nothing but the classes. The text
that a thread prints is kept in pieces, the latest first, as are its records.
-/
import Jvm.CallStack
import Jvm.Heap
import Jvm.StringTable

namespace Jvm

set_option autoImplicit false

/-- How far the initialization of a class has come on a thread. -/
inductive InitState where
  /-- The static fields exist and hold their first values. -/
  | prepared
  | running
  | ready
  | failed
  deriving DecidableEq, Repr

structure ClassRecord where
  classId : ClassId
  state : InitState
  statics : Array Value
  deriving DecidableEq, Repr

inductive ThreadState where
  | new
  | inMachine
  | inProgram
  deriving DecidableEq, Repr

def ThreadState.code : ThreadState → Nat
  | .new => 2
  | .inMachine => 6
  | .inProgram => 8

structure Thread where
  /-- Threads are numbered in the order of their creation. -/
  number : Nat
  name : String
  state : ThreadState
  calls : CallStack
  heap : Heap
  strings : StringTable
  records : List ClassRecord
  output : List String
  deriving DecidableEq, Repr

namespace Thread

def start (number : Nat) (name : String) (state : ThreadState) (heap : Heap) : Thread where
  number := number
  name := name
  state := state
  calls := .empty
  heap := heap
  strings := .empty
  records := []
  output := []

/-- The frames, the top one first. -/
def frames (thread : Thread) : List Frame := thread.calls.frames

def depth (thread : Thread) : Nat := thread.calls.depth

theorem depth_eq_length (thread : Thread) : thread.depth = thread.frames.length :=
  thread.calls.depth_eq

def pushFrame (thread : Thread) (frame : Frame) : Thread :=
  { thread with calls := thread.calls.push frame }

def popFrame (thread : Thread) : Thread := { thread with calls := thread.calls.pop }

/-- What the next object of the thread is referred to by. -/
def nextRef (thread : Thread) : Ref := ⟨thread.number, thread.heap.allocations⟩

def addObject (thread : Thread) (c : LinkedClass) : Thread :=
  { thread with heap := thread.heap.add c }

def interned? (thread : Thread) (text : String) : Option Ref := thread.strings.find? text

def record? (thread : Thread) (id : ClassId) : Option ClassRecord :=
  thread.records.find? (·.classId == id)

/-- Change the record of a class. -/
def updateRecord (thread : Thread) (id : ClassId) (change : ClassRecord → ClassRecord) : Thread :=
  { thread with
    records := thread.records.map fun record =>
      if record.classId = id then change record else record }

def setInitState (thread : Thread) (id : ClassId) (state : InitState) : Thread :=
  thread.updateRecord id fun record => { record with state := state }

def putStatic (thread : Thread) (id : ClassId) (slot : Nat) (v : Value) : Thread :=
  thread.updateRecord id fun record =>
    { record with statics := record.statics.setIfInBounds slot v }

/-- A class whose initializer is abandoned is failed. -/
def abandon (thread : Thread) (initializing : Option ClassId) : Thread :=
  match initializing with
  | none => thread
  | some id =>
      thread.updateRecord id fun record =>
        if record.state = .running then { record with state := .failed } else record

/-- Drop the top frame; the initializer that it runs is abandoned. -/
def dropFrame (thread : Thread) : Thread :=
  match thread.frames with
  | [] => thread
  | frame :: _ => (thread.abandon frame.initializing).popFrame

/-- Drop a number of frames from the top. -/
def dropFrames (thread : Thread) : Nat → Thread
  | 0 => thread
  | count + 1 => thread.dropFrame.dropFrames count

/-- Drop the frames above a depth. -/
def unwindTo (thread : Thread) (depth : Nat) : Thread := thread.dropFrames (thread.depth - depth)

/-- Where the thread lies is written `*`. -/
def describe (thread : Thread) : String :=
  s!"JavaThread(*) name=\"{thread.name}\" state={thread.state.code} depth={thread.depth}\n"

/-- The printed text. -/
def printed (thread : Thread) : String := String.join thread.output.reverse

end Thread

end Jvm
