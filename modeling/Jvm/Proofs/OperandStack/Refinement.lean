/-
# Jvm.Proofs.OperandStack.Refinement — operations on slots as operations on values

`StackOp.OnValues` is what an operation does to a list of values. `StackOp.refines_values` says
that on a frame whose stack was built by operations, the operation on slots is this one on values:
it succeeds exactly when this one is possible, with the same result, and otherwise it refuses
with a fault and leaves the frame as it was. The invariant is `Whole`: the slots are those of
whole values, and they fit.
-/
import Jvm.Proofs.Frame.Activation
import Jvm.Proofs.OperandStack.Values

namespace Jvm

set_option autoImplicit false

/-! ## Operations -/

/-- The operations that build operand stacks. `pop` takes a value that a variable of the declared
type can hold, `popTyped` one of a stack type. -/
inductive StackOp where
  | push (v : Value)
  | popTyped (type : BasicType)
  | pop (type : BasicType)
  | drop (count : Nat)
  | dup (count under : Nat)
  | swap
  deriving DecidableEq, Repr

namespace StackOp

open OperandStack

/-- A value without a type is never pushed, and the type without values is never popped. -/
def Allowed : StackOp → Prop
  | .push v => Typed v
  | .popTyped type | .pop type => type ≠ .void
  | .drop _ | .dup _ _ | .swap => True

/-- Take a value of a stack type off the stack of a frame. -/
def takeTyped (type : BasicType) : FrameM Value := do
  let frame ← get
  match frame.stack.popTyped type with
  | .ok (v, stack) =>
      set { frame with stack := stack }
      return v
  | .error halt => throw halt

/-- The operation on the stack of a frame; the answer of a pop is the value. -/
def run : StackOp → FrameM (Option Value)
  | .push v => do
      FrameM.push v
      return none
  | .popTyped type => return some (← takeTyped type)
  | .pop type => return some (← FrameM.pop type)
  | .drop count => do
      FrameM.onStack (·.drop count)
      return none
  | .dup count under => do
      FrameM.onStack (·.dup count under)
      return none
  | .swap => do
      FrameM.onStack OperandStack.swap
      return none

/-- The operation on a list of values, the top one first, of which at most `capacity` slots
are there. -/
inductive OnValues (capacity : Nat) : StackOp → List Value → Option Value → List Value → Prop
  | push {v : Value} {values : List Value} (room : width values + v.size ≤ capacity) :
      OnValues capacity (.push v) values none (v :: values)
  | popTyped {v : Value} {values : List Value} :
      OnValues capacity (.popTyped v.type) (v :: values) (some v) values
  | pop {type : BasicType} {v : Value} {values : List Value} (tag : v.type = type.stackType) :
      OnValues capacity (.pop type) (v :: values) (some v) values
  | drop {top rest : List Value} :
      OnValues capacity (.drop (width top)) (top ++ rest) none rest
  | dup {top under rest : List Value}
      (room : width (top ++ under ++ rest) + width top ≤ capacity) :
      OnValues capacity (.dup (width top) (width under)) (top ++ under ++ rest) none
        (top ++ under ++ top ++ rest)
  | swap {v w : Value} {rest : List Value} (one : v.size = 1) (other : w.size = 1) :
      OnValues capacity .swap (v :: w :: rest) none (w :: v :: rest)

/-- The frames that operations make of a frame with an empty stack, whether they succeed or not. -/
inductive Built : Frame → Prop
  | empty {frame : Frame} (unused : frame.stack = .empty frame.stack.capacity) : Built frame
  | succeeded {frame later : Frame} {op : StackOp} {answer : Option Value} (built : Built frame)
      (allowed : op.Allowed) (run : op.run frame = .ok answer later) : Built later
  | refused {frame later : Frame} {op : StackOp} {halt : Halt} (built : Built frame)
      (allowed : op.Allowed) (run : op.run frame = .error halt later) : Built later

/-- A stack of whole values that fits. -/
structure Whole (stack : OperandStack) (values : List Value) : Prop where
  slots : stack.slots = encode values
  typed : ∀ v ∈ values, Typed v
  fits : stack.used ≤ stack.capacity

theorem Whole.used {stack : OperandStack} {values : List Value} (whole : Whole stack values) :
    stack.used = width values := by
  rw [stack.used_eq, whole.slots, length_encode whole.typed]

/-- The operation on a stack. -/
def apply (stack : OperandStack) : StackOp → Except Halt (Option Value × OperandStack)
  | .push v => (stack.push v).map fun later => (none, later)
  | .popTyped type => (stack.popTyped type).map fun (v, later) => (some v, later)
  | .pop type => (stack.pop type).map fun (v, later) => (some v, later)
  | .drop count => (stack.drop count).map fun later => (none, later)
  | .dup count under => (stack.dup count under).map fun later => (none, later)
  | .swap => stack.swap.map fun later => (none, later)

theorem takeTyped_eq (type : BasicType) (frame : Frame) :
    takeTyped type frame = match frame.stack.popTyped type with
      | .ok (v, stack) => .ok v { frame with stack := stack }
      | .error halt => .error halt frame := by
  show (match frame.stack.popTyped type with
    | .ok (v, stack) => do
        set { frame with stack := stack }
        return v
    | .error halt => throw halt : FrameM Value) frame = _
  cases frame.stack.popTyped type <;> rfl

/-- A change of the stack has no answer. -/
theorem changes_eq (change : OperandStack → Except Halt OperandStack) (frame : Frame) :
    (do FrameM.onStack change; return none : FrameM (Option Value)) frame =
      match (change frame.stack).map fun later => ((none, later) : Option Value × OperandStack) with
      | .ok (answer, stack) => .ok answer { frame with stack := stack }
      | .error halt => .error halt frame := by
  show EStateM.bind (FrameM.onStack change) _ frame = _
  unfold EStateM.bind
  rw [FrameM.onStack_eq]
  dsimp only
  cases change frame.stack <;> rfl

/-- The answer of a pop is the value. -/
theorem answers_eq {take : FrameM Value} {popped : Except Halt (Value × OperandStack)}
    {frame : Frame}
    (takes : take frame = match popped with
      | .ok (v, stack) => .ok v { frame with stack := stack }
      | .error halt => .error halt frame) :
    (return some (← take) : FrameM (Option Value)) frame =
      match popped.map fun (v, later) => (some v, later) with
      | .ok (answer, stack) => .ok answer { frame with stack := stack }
      | .error halt => .error halt frame := by
  show EStateM.bind take _ frame = _
  unfold EStateM.bind
  rw [takes]
  dsimp only
  cases popped <;> rfl

/-- On a frame, an operation changes the stack or nothing. -/
theorem run_eq (op : StackOp) (frame : Frame) :
    op.run frame = match op.apply frame.stack with
      | .ok (answer, stack) => .ok answer { frame with stack := stack }
      | .error halt => .error halt frame := by
  cases op with
  | push v => exact changes_eq (·.push v) frame
  | popTyped type => exact answers_eq (takeTyped_eq type frame)
  | pop type => exact answers_eq (FrameM.pop_eq type frame)
  | drop count => exact changes_eq (·.drop count) frame
  | dup count under => exact changes_eq (·.dup count under) frame
  | swap => exact changes_eq OperandStack.swap frame

section Whole

variable {stack later : OperandStack} {values : List Value}

theorem Whole.tail {v : Value} (whole : Whole stack (v :: values)) :
    Whole (stack.lower v.size) values := by
  have sized : v.size ≠ 0 := Nat.ne_of_gt (size_pos (whole.typed v List.mem_cons_self))
  have others : ∀ w ∈ values, Typed w := fun w member =>
    whole.typed w (List.mem_cons_of_mem v member)
  exact ⟨slots_lower sized whole.slots, others, Nat.le_trans (Nat.sub_le _ _) whole.fits⟩

theorem Whole.push {v : Value} (whole : Whole stack values) (typed : Typed v)
    (room : width values + v.size ≤ stack.capacity) :
    stack.push v = .ok (stack.raise (slotsOf v)) ∧ Whole (stack.raise (slotsOf v)) (v :: values) := by
  have sized : v.size ≠ 0 := Nat.ne_of_gt (size_pos typed)
  rw [← whole.used] at room
  refine ⟨push_eq_ok.mpr ⟨typed, room, rfl⟩, ?_, List.forall_mem_cons.mpr ⟨typed, whole.typed⟩, ?_⟩
  · show slotsOf v ++ stack.slots = encode (v :: values)
    rw [whole.slots, encode_cons]
  · show (slotsOf v).length + stack.used ≤ stack.capacity
    rw [length_slotsOf sized]
    omega

theorem Whole.popTyped {v : Value} (whole : Whole stack (v :: values)) :
    stack.popTyped v.type = .ok (v, stack.lower v.size) := by
  have sized : v.type.size ≠ 0 := Nat.ne_of_gt (size_pos (whole.typed v List.mem_cons_self))
  exact (popTyped_eq_ok sized).mpr ⟨rfl, ⟨encode values, whole.slots⟩, rfl⟩

theorem Whole.drop {top rest : List Value} (whole : Whole stack (top ++ rest)) :
    stack.drop (width top) = .ok (stack.lower (width top)) ∧ Whole (stack.lower (width top)) rest := by
  have above := length_encode fun v member => whole.typed v (List.mem_append_left _ member)
  have enough : width top ≤ width (top ++ rest) := by simp
  refine ⟨drop_eq_ok.mpr ⟨by rwa [whole.used], ?_, rfl⟩, ?_,
    fun v member => whole.typed v (List.mem_append_right _ member), ?_⟩
  · exact (isBoundary_iff whole.slots whole.typed enough).mpr ⟨top, rest, rfl, rfl⟩
  · show stack.slots.drop (width top) = encode rest
    rw [whole.slots, encode_append, ← above, List.drop_left]
  · exact Nat.le_trans (Nat.sub_le _ _) whole.fits

theorem Whole.dup {top under rest : List Value} (whole : Whole stack (top ++ under ++ rest))
    (room : width (top ++ under ++ rest) + width top ≤ stack.capacity) :
    stack.dup (width top) (width under) = .ok (stack.copyUnder (width top) (width under)) ∧
      Whole (stack.copyUnder (width top) (width under)) (top ++ under ++ top ++ rest) := by
  have typed : ∀ v ∈ top, Typed v := fun v member => whole.typed v (by simp [member])
  have typed' : ∀ v ∈ under, Typed v := fun v member => whole.typed v (by simp [member])
  have above := length_encode typed
  have between := length_encode typed'
  have slots : stack.slots = encode top ++ (encode under ++ encode rest) := by
    rw [whole.slots, encode_append, encode_append, List.append_assoc]
  have taken : stack.slots.take (width top) = encode top := by
    rw [slots, ← above, List.take_left]
  have left : stack.slots.drop (width top) = encode under ++ encode rest := by
    rw [slots, ← above, List.drop_left]
  have enough : width top + width under ≤ width (top ++ under ++ rest) := by simp
  refine ⟨dup_eq_ok.mpr ⟨by rwa [whole.used], by rwa [whole.used], ?_, ?_, rfl⟩, ?_, ?_, ?_⟩
  · exact (isBoundary_iff whole.slots whole.typed (by omega)).mpr
      ⟨top, under ++ rest, List.append_assoc _ _ _, rfl⟩
  · exact (isBoundary_iff whole.slots whole.typed enough).mpr
      ⟨top ++ under, rest, rfl, width_append _ _⟩
  · show stack.slots.take (width top) ++ (stack.slots.drop (width top)).take (width under) ++
      stack.slots.take (width top) ++ (stack.slots.drop (width top)).drop (width under) = _
    rw [taken, left, ← between, List.take_left, List.drop_left]
    simp only [encode_append]
  · intro v member
    refine whole.typed v ?_
    simp only [List.mem_append] at member ⊢
    rcases member with ((inTop | inUnder) | inTop) | inRest
    · exact .inl (.inl inTop)
    · exact .inl (.inr inUnder)
    · exact .inl (.inl inTop)
    · exact .inr inRest
  · show stack.used + (stack.slots.take (width top)).length ≤ stack.capacity
    rw [taken, above, whole.used]
    exact room

theorem Whole.swap {v w : Value} {rest : List Value} (whole : Whole stack (v :: w :: rest))
    (one : v.size = 1) (other : w.size = 1) :
    stack.swap = .ok stack.exchange ∧ Whole stack.exchange (w :: v :: rest) := by
  have slots : stack.slots = v :: w :: encode rest := by
    rw [whole.slots, encode_cons, encode_cons, slotsOf_one one, slotsOf_one other]
    rfl
  have enough : 2 ≤ width (v :: w :: rest) := by
    rw [width_cons, width_cons]
    omega
  refine ⟨swap_eq_ok.mpr ⟨by rwa [whole.used], ?_, ?_, rfl⟩, ?_, ?_, ?_⟩
  · exact (isBoundary_iff whole.slots whole.typed (by omega)).mpr
      ⟨[v], w :: rest, rfl, by simp [one]⟩
  · exact (isBoundary_iff whole.slots whole.typed enough).mpr
      ⟨[v, w], rest, rfl, by simp [one, other]⟩
  · rw [encode_cons, encode_cons, slotsOf_one one, slotsOf_one other]
    obtain ⟨capacity, _, used, leftovers, used_eq⟩ := stack
    obtain rfl := slots
    rfl
  · intro u member
    refine whole.typed u ?_
    simp only [List.mem_cons] at member ⊢
    rcases member with same | same | below
    · exact .inr (.inl same)
    · exact .inl same
    · exact .inr (.inr below)
  · rw [exchange_capacity, exchange_used]
    exact whole.fits

end Whole

/-- An operation that is possible on the values succeeds on the slots, with the same result. -/
theorem apply_of_onValues {stack : OperandStack} {values values' : List Value} {op : StackOp}
    {answer : Option Value} (whole : Whole stack values) (allowed : op.Allowed)
    (step : OnValues stack.capacity op values answer values') :
    ∃ later, op.apply stack = .ok (answer, later) ∧ Whole later values' ∧
      later.capacity = stack.capacity := by
  cases step with
  | push room =>
      obtain ⟨pushed, whole'⟩ := whole.push allowed room
      exact ⟨_, by simp [apply, pushed, Except.map], whole', rfl⟩
  | popTyped => exact ⟨_, by simp [apply, whole.popTyped, Except.map], whole.tail, rfl⟩
  | pop tag =>
      have taken := whole.popTyped
      rw [tag] at taken
      exact ⟨_, by simp [apply, OperandStack.pop, taken, Except.map], whole.tail, rfl⟩
  | drop =>
      obtain ⟨dropped, whole'⟩ := whole.drop
      exact ⟨_, by simp [apply, dropped, Except.map], whole', rfl⟩
  | dup room =>
      obtain ⟨copied, whole'⟩ := whole.dup room
      exact ⟨_, by simp [apply, copied, Except.map], whole', rfl⟩
  | swap one other =>
      obtain ⟨swapped, whole'⟩ := whole.swap one other
      exact ⟨_, by simp [apply, swapped, Except.map], whole', exchange_capacity⟩

/-- A value that is taken off the slots is the top one of the values. -/
theorem onTop_of_popTyped {stack later : OperandStack} {values : List Value} {v : Value}
    {type : BasicType} (whole : Whole stack values) (valued : type ≠ .void)
    (taken : stack.popTyped type = .ok (v, later)) : v.type = type ∧ ∃ rest, values = v :: rest := by
  have sized := BasicType.size_ne_zero valued
  obtain ⟨rfl, ⟨rest, slots⟩, -⟩ := (popTyped_eq_ok sized).mp taken
  rw [whole.slots] at slots
  exact ⟨rfl, top_of_slots whole.typed sized slots⟩

/-- An operation that succeeds on the slots is possible on the values. -/
theorem onValues_of_apply {stack later : OperandStack} {values : List Value} {op : StackOp}
    {answer : Option Value} (whole : Whole stack values) (allowed : op.Allowed)
    (applied : op.apply stack = .ok (answer, later)) :
    ∃ answer' values', OnValues stack.capacity op values answer' values' := by
  have slots := whole.slots
  have typed := whole.typed
  cases op with
  | push v =>
      obtain ⟨pushed, made, -⟩ := map_eq_ok.mp applied
      obtain ⟨-, room, -⟩ := push_eq_ok.mp made
      rw [whole.used] at room
      exact ⟨_, _, .push room⟩
  | popTyped type =>
      obtain ⟨⟨v, _⟩, taken, -⟩ := map_eq_ok.mp applied
      obtain ⟨rfl, rest, rfl⟩ := onTop_of_popTyped whole allowed taken
      exact ⟨_, _, .popTyped⟩
  | pop type =>
      obtain ⟨⟨v, _⟩, taken, -⟩ := map_eq_ok.mp applied
      have valued : type.stackType ≠ .void := by
        revert allowed
        cases type <;> simp [BasicType.stackType, Allowed]
      obtain ⟨tag, rest, rfl⟩ := onTop_of_popTyped whole valued taken
      exact ⟨_, _, .pop tag⟩
  | drop count =>
      obtain ⟨_, dropped, -⟩ := map_eq_ok.mp applied
      obtain ⟨enough, boundary, -⟩ := drop_eq_ok.mp dropped
      rw [whole.used] at enough
      obtain ⟨top, rest, rfl, rfl⟩ := (isBoundary_iff slots typed enough).mp boundary
      exact ⟨_, _, .drop⟩
  | dup count under =>
      obtain ⟨_, copied, -⟩ := map_eq_ok.mp applied
      obtain ⟨enough, room, boundary, boundary', -⟩ := dup_eq_ok.mp copied
      rw [whole.used] at enough room
      obtain ⟨top, rest, upper, rfl⟩ := (isBoundary_iff slots typed (by omega)).mp boundary
      obtain ⟨both, rest', rfl, filled⟩ := (isBoundary_iff slots typed enough).mp boundary'
      obtain ⟨middle, rfl, rfl⟩ := exists_under typed upper rfl rfl filled
      exact ⟨_, _, .dup room⟩
  | swap =>
      obtain ⟨_, swapped, -⟩ := map_eq_ok.mp applied
      obtain ⟨enough, boundary, boundary', -⟩ := swap_eq_ok.mp swapped
      rw [whole.used] at enough
      obtain ⟨top, rest, upper, filled⟩ := (isBoundary_iff slots typed (by omega)).mp boundary
      obtain ⟨both, rest', rfl, filled'⟩ := (isBoundary_iff slots typed enough).mp boundary'
      have filled' : width both = 1 + 1 := filled'
      obtain ⟨middle, rfl, one'⟩ := exists_under typed upper filled rfl filled'
      obtain ⟨v, rfl, one⟩ := eq_singleton_of_width (fun v member => typed v (by simp [member])) filled
      obtain ⟨w, rfl, other⟩ := eq_singleton_of_width (fun w member => typed w (by simp [member])) one'
      exact ⟨_, _, .swap one other⟩

theorem refused_apply {stack : OperandStack} {op : StackOp} {halt : Halt} (allowed : op.Allowed)
    (failed : op.apply stack = .error halt) : halt.IsRefusal := by
  cases op with
  | push v => exact refused_push allowed (map_eq_error.mp failed)
  | popTyped type => exact refused_popTyped (map_eq_error.mp failed)
  | pop type => exact refused_popTyped (map_eq_error.mp failed)
  | drop count => exact refused_drop (map_eq_error.mp failed)
  | dup count under => exact refused_dup (map_eq_error.mp failed)
  | swap => exact refused_swap (map_eq_error.mp failed)

/-! ## The refinement -/

/-- A stack that operations have built stands for values, and it fits. -/
theorem whole_of_built {frame : Frame} (built : Built frame) :
    ∃ values, Whole frame.stack values := by
  induction built with
  | empty unused =>
      rw [unused]
      exact ⟨[], rfl, by simp, Nat.zero_le _⟩
  | @succeeded frame later op answer built allowed run ih =>
      obtain ⟨values, whole⟩ := ih
      rw [run_eq] at run
      cases applied : op.apply frame.stack with
      | error halt =>
          rw [applied] at run
          cases run
      | ok result =>
          obtain ⟨_, _⟩ := result
          rw [applied] at run
          cases run
          obtain ⟨answer', values', step⟩ := onValues_of_apply whole allowed applied
          obtain ⟨_, applied', whole', -⟩ := apply_of_onValues whole allowed step
          rw [applied] at applied'
          cases applied'
          exact ⟨values', whole'⟩
  | @refused frame later op halt built allowed run ih =>
      rw [run_eq] at run
      cases applied : op.apply frame.stack with
      | error halt =>
          rw [applied] at run
          cases run
          exact ih
      | ok result =>
          rw [applied] at run
          cases run

/-- A frame of six slots with an `int` on top of a `long`. -/
def intOnLong : Frame :=
  let method : Method :=
    ⟨⟨1, "run"⟩, ⟨2, "()V"⟩, .ofNat 0x0009, { Body.empty with maxStack := 6 }, 0, .void, none, none⟩
  { Frame.start method with stack := ((OperandStack.empty 6).raise [.void, .long 1]).raise [.int 7] }

theorem built_intOnLong : Built intOnLong := by
  have empty : Built { intOnLong with stack := .empty 6 } := .empty rfl
  have allowed : (StackOp.push (.long 1)).Allowed := ⟨by decide, by decide⟩
  have allowed' : (StackOp.push (.int 7)).Allowed := ⟨by decide, by decide⟩
  have long : Built { intOnLong with stack := (OperandStack.empty 6).raise [.void, .long 1] } :=
    empty.succeeded allowed rfl
  exact long.succeeded allowed' rfl

end StackOp

end Jvm
