/-
# Jvm.CallStack — call stacks

A call stack is a list of frames, the top one first. The number of frames is kept beside the
list, so that a call knows at once how deep it is; `depth_eq` ties the two together.
-/
import Jvm.Frame

namespace Jvm

set_option autoImplicit false

structure CallStack where
  /-- The frames, the top one first. -/
  frames : List Frame
  depth : Nat
  depth_eq : depth = frames.length
  deriving DecidableEq, Repr

namespace CallStack

@[ext] theorem ext {a b : CallStack} (h : a.frames = b.frames) : a = b := by
  obtain ⟨frames, depth, rfl⟩ := a
  obtain ⟨_, _, rfl⟩ := b
  cases h
  rfl

def empty : CallStack := ⟨[], 0, List.length_nil.symm⟩

def push (calls : CallStack) (frame : Frame) : CallStack :=
  ⟨frame :: calls.frames, calls.depth + 1, congrArg (· + 1) calls.depth_eq⟩

/-- The stack without its top frame. -/
def pop (calls : CallStack) : CallStack :=
  ⟨calls.frames.tail, calls.depth - 1, by rw [calls.depth_eq, List.length_tail]⟩

/-- Change the frame that is the given number of frames below the top. -/
def modify (calls : CallStack) (index : Nat) (change : Frame → Frame) : CallStack :=
  ⟨calls.frames.modify index change, calls.depth, by rw [calls.depth_eq, List.length_modify]⟩

def describe (calls : CallStack) : String := String.join (calls.frames.map Frame.describe)

theorem pop_push (calls : CallStack) (frame : Frame) : (calls.push frame).pop = calls := rfl

end CallStack

end Jvm
