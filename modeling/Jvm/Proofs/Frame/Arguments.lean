/-
# Jvm.Proofs.Frame.Arguments — what a call moves between stacks

A call takes its arguments off the operand stack of the caller, the last one first. What it gets
are values of the parameter types (`popArguments_eq_ok`), and what it took off are exactly the
slots of these values. A parameter type always takes a slot, which is why a pop of that type
cannot look above the top of the stack.
-/
import Jvm.Machine.Step
import Jvm.Proofs.Descriptor
import Jvm.Proofs.Frame.Activation

namespace Jvm

set_option autoImplicit false

/-! ## What a call passes -/

namespace Descriptor

/-- The types of the values that a call passes, the receiver first. -/
def argumentTypes (isStatic : Bool) (descriptor : String) : List BasicType :=
  (if isStatic then [] else [.object]) ++ (paramTypes descriptor).map BasicType.stackType

/-- From the top of the stack down, the parameters come first. -/
theorem reverse_argumentTypes (isStatic : Bool) (descriptor : String) :
    (argumentTypes isStatic descriptor).reverse =
      (paramTypes descriptor).reverse.map BasicType.stackType ++
        if isStatic then [] else [.object] := by
  unfold argumentTypes
  rw [List.reverse_append, List.map_reverse]
  cases isStatic <;> rfl

theorem size_of_paramTypes {descriptor : String} :
    ∀ type ∈ paramTypes descriptor, type.size ≠ 0 :=
  fun type member => BasicType.size_of_isHeld (isHeld_of_paramTypes descriptor type member)

theorem size_of_argumentTypes {isStatic : Bool} {descriptor : String} {arguments : List Value}
    (types : arguments.map Value.type = argumentTypes isStatic descriptor) :
    ∀ v ∈ arguments, v.size ≠ 0 := by
  intro v member
  have listed : v.type ∈ argumentTypes isStatic descriptor := types ▸ List.mem_map_of_mem member
  show v.type.size ≠ 0
  rcases List.mem_append.mp listed with receiver | parameter
  · cases isStatic
    · rw [List.mem_singleton.mp receiver]
      decide
    · cases receiver
  · obtain ⟨type, spelled, same⟩ := List.mem_map.mp parameter
    rw [← same, BasicType.size_stackType]
    exact size_of_paramTypes type spelled

end Descriptor

/-! ## Popping -/

namespace FrameM

open OperandStack

theorem pop_eq_ok {type : BasicType} {frame later : Frame} {v : Value} (sized : type.size ≠ 0)
    (popped : pop type frame = .ok v later) :
    v.type = type.stackType ∧ frame.stack.slots = slotsOf v ++ later.stack.slots ∧
      later = { frame with stack := later.stack } := by
  rw [pop_eq] at popped
  cases taken : frame.stack.pop type with
  | error halt =>
      rw [taken] at popped
      cases popped
  | ok result =>
      obtain ⟨w, stack⟩ := result
      rw [taken] at popped
      cases popped
      have sized' : type.stackType.size ≠ 0 := by rwa [BasicType.size_stackType]
      obtain ⟨tag, ⟨rest, slots⟩, rfl⟩ := (popTyped_eq_ok sized').mp taken
      rw [← tag] at sized'
      have left : (frame.stack.lower v.type.size).slots = rest := slots_lower sized' slots
      refine ⟨tag, ?_, rfl⟩
      show frame.stack.slots = slotsOf v ++ (frame.stack.lower type.stackType.size).slots
      rw [← tag, left, slots]

theorem popRef_eq_ok {frame later : Frame} {ref : Ref} (popped : popRef frame = .ok (some ref) later) :
    frame.stack.slots = .ref (some ref) :: later.stack.slots ∧
      later = { frame with stack := later.stack } := by
  obtain ⟨v, between, taken, answered⟩ := bind_eq_ok.mp popped
  obtain ⟨tag, slots, same⟩ := pop_eq_ok (by decide) taken
  split at answered
  · cases answered
    exact ⟨slots, same⟩
  · cases answered

theorem push_eq_ok {frame later : Frame} {v : Value} (pushed : push v frame = .ok () later) :
    later.stack.slots = slotsOf v ++ frame.stack.slots ∧
      later = { frame with stack := later.stack } := by
  unfold push at pushed
  rw [onStack_eq] at pushed
  cases made : frame.stack.push v with
  | error halt =>
      rw [made] at pushed
      cases pushed
  | ok stack =>
      rw [made] at pushed
      cases pushed
      obtain ⟨-, -, rfl⟩ := OperandStack.push_eq_ok.mp made
      exact ⟨rfl, rfl⟩

theorem push_of_room (frame : Frame) {v : Value} (typed : v ≠ .unset ∧ v ≠ .void)
    (room : frame.stack.slots.length + v.size ≤ frame.stack.capacity) :
    push v frame = .ok () { frame with stack := frame.stack.raise (slotsOf v) } := by
  have made := OperandStack.push_eq_ok.mpr ⟨typed, by rwa [frame.stack.used_eq], rfl⟩
  unfold push
  rw [onStack_eq, made]

theorem push_of_full (frame : Frame) {v : Value} (typed : v ≠ .unset ∧ v ≠ .void)
    (full : frame.stack.capacity < frame.stack.slots.length + v.size) :
    push v frame =
      .error (Cause.halt (.stackOverflow frame.stack.used frame.stack.capacity)) frame := by
  have refused : frame.stack.push v =
      .error (Cause.halt (.stackOverflow frame.stack.used frame.stack.capacity)) := by
    unfold OperandStack.push OperandStack.checkRoom
    rw [if_neg (by simpa [Value.isUnset] using typed), if_pos (by rwa [frame.stack.used_eq])]
    rfl
  unfold push
  rw [onStack_eq, refused]

/-- Taking values of several types off the stack, the first type on top. -/
theorem mapM_pop_eq_ok {types : List BasicType} {frame later : Frame} {values : List Value}
    (sized : ∀ type ∈ types, type.size ≠ 0) (popped : types.mapM pop frame = .ok values later) :
    values.map Value.type = types.map BasicType.stackType ∧
      frame.stack.slots = values.flatMap slotsOf ++ later.stack.slots ∧
      later = { frame with stack := later.stack } := by
  induction types generalizing frame values with
  | nil =>
      cases popped
      exact ⟨rfl, rfl, rfl⟩
  | cons type types ih =>
      rw [List.mapM_cons] at popped
      obtain ⟨v, next, first, popped⟩ := bind_eq_ok.mp popped
      obtain ⟨rest, last, others, popped⟩ := bind_eq_ok.mp popped
      cases popped
      obtain ⟨tag, slots, same⟩ := pop_eq_ok (sized type List.mem_cons_self) first
      obtain ⟨tags, slots', same'⟩ :=
        ih (fun other member => sized other (List.mem_cons_of_mem type member)) others
      refine ⟨by simp [tag, tags], ?_, ?_⟩
      · rw [slots, slots', List.flatMap_cons, List.append_assoc]
      · rw [same', same]

/-- The arguments of a call, the last one on top. -/
theorem popArguments_eq_ok {types : List BasicType} {frame later : Frame}
    {arguments : List Value} (sized : ∀ type ∈ types, type.size ≠ 0)
    (popped : Exec.popArguments types frame = .ok arguments later) :
    arguments.map Value.type = types.map BasicType.stackType ∧
      frame.stack.slots = arguments.reverse.flatMap slotsOf ++ later.stack.slots ∧
      later = { frame with stack := later.stack } := by
  obtain ⟨values, last, taken, popped⟩ := bind_eq_ok.mp popped
  cases popped
  have sized' : ∀ type ∈ types.reverse, type.size ≠ 0 :=
    fun type member => sized type (List.mem_reverse.mp member)
  obtain ⟨tags, slots, same⟩ := mapM_pop_eq_ok sized' taken
  refine ⟨?_, by rw [List.reverse_reverse]; exact slots, same⟩
  rw [List.map_reverse, tags, List.map_reverse, List.reverse_reverse]

theorem continues_popArguments (types : List BasicType) :
    Continues (Exec.popArguments types) := by
  have all : ∀ types : List BasicType, Continues (types.mapM pop) := by
    intro types
    induction types with
    | nil => exact continues_pure _
    | cons type types ih =>
        rw [List.mapM_cons]
        exact continues_bind (continues_pop type) fun _ => continues_bind ih fun _ =>
          continues_pure _
  exact continues_bind (all _) fun _ => continues_pure _

end FrameM

/-! ## The frame of the callee -/

namespace Frame

/-- The frame of a called method, at its start. -/
theorem withArguments_eq_ok {method : Method} {arguments : List Value} {callee : Frame}
    (made : Frame.withArguments method arguments = .ok callee) :
    ∃ locals, callee = Frame.withLocals method locals := by
  unfold Frame.withArguments at made
  cases placed : (Locals.unset method.body.maxLocals).writeAll 0 arguments with
  | error halt =>
      rw [placed] at made
      cases made
  | ok locals =>
      rw [placed] at made
      cases made
      exact ⟨locals, rfl⟩

end Frame

end Jvm
