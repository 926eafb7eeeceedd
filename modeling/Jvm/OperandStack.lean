/-
# Jvm.OperandStack — operand stacks

An operand stack is a list of slots, the top one first, with a fixed capacity. A `long`
or `double` takes two slots: its own and above it one that holds `void`. `push` and
`pop` move whole values; `drop`, `dup` and `swap` move slots, and refuse to separate the
two slots of one value. Every operation checks before it moves anything. The number of
slots in use is kept beside the list, so that a check does not count them.

A slot that is given up keeps what it held until it is used again. Three operations can
tell: `void` takes no slot, so a pop of that type looks at the slot above the top, `drop`
of a negative number takes slots above the top back into use, and so does `dup` of one.
-/
import Jvm.Halt
import Jvm.Value

namespace Jvm

set_option autoImplicit false

structure OperandStack where
  capacity : Nat
  /-- The slots in use, the top one first. -/
  slots : List Value
  /-- The number of slots in use. -/
  used : Nat
  /-- What the slots above the top still hold, the nearest first. The slots beyond these were
  never used. -/
  leftovers : List Value
  used_eq : used = slots.length
  deriving DecidableEq, Repr

namespace OperandStack

@[ext] theorem ext {a b : OperandStack} (capacity : a.capacity = b.capacity)
    (slots : a.slots = b.slots) (leftovers : a.leftovers = b.leftovers) : a = b := by
  obtain ⟨_, _, _, _, rfl⟩ := a
  obtain ⟨_, _, _, _, rfl⟩ := b
  cases capacity
  cases slots
  cases leftovers
  rfl

def empty (capacity : Nat) : OperandStack := ⟨capacity, [], 0, [], List.length_nil.symm⟩

/-- The slots of a value, the top one first. -/
def slotsOf (v : Value) : List Value := if v.size = 2 then [.void, v] else [v]

def checkRoom (stack : OperandStack) (count : Nat) : Except Halt Unit :=
  if stack.capacity < stack.used + count then
    .error (Cause.halt (.stackOverflow stack.used stack.capacity))
  else .ok ()

def checkUsed (stack : OperandStack) (count : Nat) : Except Halt Unit :=
  if stack.used < count then .error (Cause.halt (.stackUnderflow stack.used count)) else .ok ()

/-- Whether the slots below the top `depth` ones start with a whole value. -/
def isBoundary (stack : OperandStack) (depth : Nat) : Bool :=
  depth = 0 || stack.slots[depth - 1]? != some .void

def checkBoundary (stack : OperandStack) (depth : Nat) : Except Halt Unit :=
  if stack.isBoundary depth then .ok ()
  else .error (Cause.halt (.splitValue (stack.used - depth)))

/-- Use the next slots above the top for new contents, the new top first. -/
def raise (stack : OperandStack) (contents : List Value) : OperandStack :=
  { capacity := stack.capacity
    slots := contents ++ stack.slots
    used := contents.length + stack.used
    leftovers := stack.leftovers.drop contents.length
    used_eq := by rw [stack.used_eq, List.length_append] }

/-- Give up slots at the top. -/
def lower (stack : OperandStack) (count : Nat) : OperandStack :=
  { capacity := stack.capacity
    slots := stack.slots.drop count
    used := stack.used - count
    leftovers := (stack.slots.take count).reverse ++ stack.leftovers
    used_eq := by rw [stack.used_eq, List.length_drop] }

/-- What the nearest slots above the top hold, the nearest first. -/
def above (stack : OperandStack) (count : Nat) : List Value :=
  stack.leftovers.take count ++ List.replicate (count - stack.leftovers.length) .unset

def push (stack : OperandStack) (v : Value) : Except Halt OperandStack := do
  if v.isUnset ∨ v = .void then throw (.violation .untypedPush)
  stack.checkRoom v.size
  return stack.raise (slotsOf v)

/-- The type of the value on top. -/
def topType : List Value → BasicType
  | [] => .illegal
  | [top] => top.type
  | top :: below :: _ => if top.type = .void then below.type else top.type

/-- The slot in which a value on top starts that takes the given number of slots. -/
def startSlot? (stack : OperandStack) : Nat → Option Value
  | 0 => (stack.above 1).head?
  | 1 => stack.slots.head?
  | _ =>
      match stack.slots with
      | .mark .void :: v :: _ => some v
      | _ => none

/-- Take the value of the given stack type off the top. -/
def popTyped (stack : OperandStack) (type : BasicType) : Except Halt (Value × OperandStack) := do
  stack.checkUsed type.size
  match (stack.startSlot? type.size).filter (·.type == type) with
  | some v => return (v, stack.lower type.size)
  | none => throw (Cause.halt (.operandType type (topType stack.slots)))

/-- Take a value off the top that a variable of the declared type can hold. -/
def pop (stack : OperandStack) (type : BasicType) : Except Halt (Value × OperandStack) :=
  stack.popTyped type.stackType

/-- Drop the top slots, or take back as many as a negative number says. -/
def drop (stack : OperandStack) : Int → Except Halt OperandStack
  | .ofNat count => do
      stack.checkUsed count
      stack.checkBoundary count
      return stack.lower count
  | .negSucc count => return stack.raise (stack.above (count + 1)).reverse

/-- All slots, used or not, from the lowest up. -/
def cells (stack : OperandStack) : Array Value :=
  (stack.slots.reverse ++ stack.above (stack.capacity - stack.used)).toArray

/-- The stack with the given slots, of which the lowest `used` ones are in use. -/
def ofCells (cells : Array Value) (used : Nat) : OperandStack :=
  { capacity := cells.size
    slots := (cells.toList.take used).reverse
    used := min used cells.size
    leftovers := cells.toList.drop used
    used_eq := by simp }

/-- Copy the content of one slot to another. -/
def copyCell (cells : Array Value) (source target : Int) : Array Value :=
  if source < 0 ∨ target < 0 then cells
  else cells.setIfInBounds target.toNat (cells.getD source.toNat .unset)

/-- Move the top `count + under` slots up by `count`, the top one first, and then copy what
is above the old top, from there up, to where the lowest of them was. -/
def shift (stack : OperandStack) (count under : Int) : OperandStack :=
  let top : Int := stack.used
  let moved := (List.range (count + under).toNat).foldl
    (fun cells (i : Nat) => copyCell cells (top - 1 - i) (top - 1 - i + count)) stack.cells
  let filled := (List.range count.toNat).foldl
    (fun cells (i : Nat) => copyCell cells (top + i) (top - count - under + i)) moved
  ofCells filled (top + count).toNat

/-- Copy the top `count` slots below the `under` slots that are under them. -/
def copyUnder (stack : OperandStack) (count under : Nat) : OperandStack :=
  let top := stack.slots.take count
  let rest := stack.slots.drop count
  { capacity := stack.capacity
    slots := top ++ rest.take under ++ top ++ rest.drop under
    used := stack.used + top.length
    leftovers := stack.leftovers.drop count
    used_eq := by
      simp only [stack.used_eq, top, rest, List.length_append, List.length_take, List.length_drop]
      omega }

/-- Copy the top `count` slots below the `under` slots that are under them. With a negative
number the same moves are made one slot after another, and may read slots not in use. -/
def dup (stack : OperandStack) : Int → Int → Except Halt OperandStack
  | .ofNat count, .ofNat under => do
      stack.checkUsed (count + under)
      stack.checkRoom count
      stack.checkBoundary count
      stack.checkBoundary (count + under)
      return stack.copyUnder count under
  | count, under => do
      stack.checkUsed (count + under).toNat
      stack.checkRoom count.toNat
      stack.checkBoundary count.toNat
      if 0 < under then stack.checkBoundary (count + under).toNat
      return stack.shift count under

/-- Exchange the top two slots. -/
def exchange (stack : OperandStack) : OperandStack :=
  match stack with
  | ⟨capacity, top :: below :: rest, used, leftovers, used_eq⟩ =>
      ⟨capacity, below :: top :: rest, used, leftovers, used_eq⟩
  | stack => stack

/-- Exchange the top two values, each of one slot. -/
def swap (stack : OperandStack) : Except Halt OperandStack := do
  stack.checkUsed 2
  stack.checkBoundary 1
  stack.checkBoundary 2
  return stack.exchange

end OperandStack

end Jvm
