/-
# Jvm.Proofs.Frame.Taking — when arguments can be taken off a stack

A call takes its arguments off the operand stack one after another, the last one first. Either the
top of the stack holds values of all the types (`Frame.Offers`), and then they are taken and what is
below stays (`popArguments_of_slots`), or the first type from the top that has no value there stops
the call: `OperandStack.Withholds` says what is wrong with it, a missing value or another type, and
`popArguments_of_withholds` that this is the fault that is raised.
-/
import Jvm.Proofs.Frame.Arguments
import Jvm.Proofs.Frame.Placement

namespace Jvm

set_option autoImplicit false

/-! ## Values on top of slots -/

namespace OperandStack

/-- Values of the given types, the first one on top, cannot be taken off the slots. The kind of the
fault says why: the first type that has no value there finds too few slots, or something else. -/
inductive Withholds : List Value → List BasicType → FaultKind → Prop
  | missing {slots : List Value} {type : BasicType} {types : List BasicType}
      (few : slots.length < type.size) : Withholds slots (type :: types) .frame
  | wrong {slots : List Value} {type : BasicType} {types : List BasicType}
      (enough : type.size ≤ slots.length)
      (other : ∀ v rest, slots = slotsOf v ++ rest → v.type ≠ type) :
      Withholds slots (type :: types) .type
  | deeper {slots rest : List Value} {type : BasicType} {types : List BasicType} {kind : FaultKind}
      {v : Value} (top : slots = slotsOf v ++ rest) (tag : v.type = type)
      (withheld : Withholds rest types kind) : Withholds slots (type :: types) kind

variable {slots : List Value} {types others : List BasicType} {kind : FaultKind}

/-- What is not withheld is there. -/
theorem withholds_or_holds (slots : List Value) (types : List BasicType) :
    (∃ kind, Withholds slots types kind) ∨
      ∃ values rest, values.map Value.type = types ∧ slots = encode values ++ rest := by
  induction types generalizing slots with
  | nil => exact .inr ⟨[], slots, rfl, rfl⟩
  | cons type types ih =>
      by_cases few : slots.length < type.size
      · exact .inl ⟨_, .missing few⟩
      by_cases there : ∃ v rest, slots = slotsOf v ++ rest ∧ v.type = type
      · obtain ⟨v, rest, top, tag⟩ := there
        rcases ih rest with ⟨kind, withheld⟩ | ⟨values, last, tags, same⟩
        · exact .inl ⟨kind, .deeper top tag withheld⟩
        · refine .inr ⟨v :: values, last, by rw [List.map_cons, tag, tags], ?_⟩
          rw [encode_cons, List.append_assoc, ← same, top]
      · refine .inl ⟨_, .wrong (Nat.not_lt.mp few) fun v rest top tag => ?_⟩
        exact there ⟨v, rest, top, tag⟩

/-- Of two groups of types the first one is withheld, or it is there and the second one is withheld
by the slots below. -/
theorem Withholds.of_append (withheld : Withholds slots (types ++ others) kind) :
    Withholds slots types kind ∨ ∃ values rest, values.map Value.type = types ∧
      slots = encode values ++ rest ∧ Withholds rest others kind := by
  induction types generalizing slots with
  | nil => exact .inr ⟨[], slots, rfl, rfl, withheld⟩
  | cons type types ih =>
      cases withheld with
      | missing few => exact .inl (.missing few)
      | wrong enough other => exact .inl (.wrong enough other)
      | @deeper _ _ _ _ _ v top tag withheld =>
          rcases ih withheld with above | ⟨values, rest, tags, same, withheld⟩
          · exact .inl (.deeper top tag above)
          · refine .inr ⟨v :: values, rest, by rw [List.map_cons, tag, tags], ?_, withheld⟩
            rw [encode_cons, List.append_assoc, ← same, top]

/-- A value that is on top is taken off. -/
theorem pop_of_slots {stack : OperandStack} {type : BasicType} {v : Value} {rest : List Value}
    (sized : type.size ≠ 0) (tag : v.type = type.stackType)
    (slots : stack.slots = slotsOf v ++ rest) :
    ∃ later : OperandStack, stack.pop type = .ok (v, later) ∧ later.slots = rest ∧
      later.capacity = stack.capacity := by
  have sized' : type.stackType.size ≠ 0 := by rwa [BasicType.size_stackType]
  refine ⟨_, (popTyped_eq_ok sized').mpr ⟨tag, ⟨rest, slots⟩, rfl⟩, ?_, rfl⟩
  rw [← tag] at sized' ⊢
  exact slots_lower sized' slots

theorem pop_of_few {stack : OperandStack} {type : BasicType}
    (few : stack.slots.length < type.stackType.size) :
    ∃ cause : Cause, stack.pop type = .error cause.halt ∧ cause.kind = .frame := by
  refine ⟨.stackUnderflow stack.used type.stackType.size, ?_, rfl⟩
  unfold pop popTyped checkUsed
  rw [if_pos (by rwa [stack.used_eq])]
  rfl

theorem pop_of_other {stack : OperandStack} {type : BasicType} (sized : type.size ≠ 0)
    (enough : type.stackType.size ≤ stack.slots.length)
    (other : ∀ v rest, stack.slots = slotsOf v ++ rest → v.type ≠ type.stackType) :
    ∃ cause : Cause, stack.pop type = .error cause.halt ∧ cause.kind = .type := by
  refine ⟨.operandType type.stackType (topType stack.slots), ?_, rfl⟩
  have sized' : type.stackType.size ≠ 0 := by rwa [BasicType.size_stackType]
  cases taken : stack.pop type with
  | ok result =>
      obtain ⟨tag, ⟨rest, slots⟩, -⟩ := (popTyped_eq_ok sized').mp taken
      exact absurd tag (other _ rest slots)
  | error halt =>
      unfold pop popTyped at taken
      rcases check_eq_error.mp taken with few | ⟨-, taken⟩
      · rw [checkUsed_eq_ok.mpr (by rwa [stack.used_eq])] at few
        cases few
      · split at taken
        · cases taken
        · cases taken
          rfl

end OperandStack

/-! ## Arguments on top of a stack -/

namespace Frame

/-- The arguments of a call are on top of the stack, the last one uppermost. -/
structure Offers (frame : Frame) (isStatic : Bool) (descriptor : String)
    (arguments : List Value) : Prop where
  types : arguments.map Value.type = Descriptor.argumentTypes isStatic descriptor
  slots : ∃ rest, frame.stack.slots = OperandStack.encode arguments.reverse ++ rest

/-- One of the arguments of a call is not there: the uppermost of these is missing, or something of
another type is in its place. -/
def Withholds (frame : Frame) (isStatic : Bool) (descriptor : String) (kind : FaultKind) : Prop :=
  OperandStack.Withholds frame.stack.slots (Descriptor.argumentTypes isStatic descriptor).reverse
    kind

theorem withholds_or_offers (frame : Frame) (isStatic : Bool) (descriptor : String) :
    (∃ kind, frame.Withholds isStatic descriptor kind) ∨
      ∃ arguments, frame.Offers isStatic descriptor arguments := by
  have either := OperandStack.withholds_or_holds frame.stack.slots
    (Descriptor.argumentTypes isStatic descriptor).reverse
  rcases either with withheld | ⟨values, rest, tags, slots⟩
  · exact .inl withheld
  · refine .inr ⟨values.reverse, ?_, rest, by rwa [List.reverse_reverse]⟩
    rw [List.map_reverse, tags, List.reverse_reverse]

/-- The first argument of a call with a receiver is a reference. -/
theorem Offers.exists_receiver {frame : Frame} {descriptor : String} {arguments : List Value}
    (offers : frame.Offers false descriptor arguments) :
    ∃ object rest, arguments = .ref object :: rest ∧
      rest.map Value.type = (Descriptor.paramTypes descriptor).map BasicType.stackType := by
  obtain ⟨receiver, rest, rfl, tag, tags⟩ := List.map_eq_cons_iff.mp offers.types
  cases receiver with
  | ref object => exact ⟨object, rest, rfl, tags⟩
  | mark mark => cases mark <;> cases tag
  | _ => cases tag

end Frame

/-! ## Taking them off -/

namespace FrameM

open OperandStack

variable (frame : Frame) {types : List BasicType} {kind : FaultKind}

theorem pop_frame_of_slots {type : BasicType} {v : Value} {rest : List Value}
    (sized : type.size ≠ 0) (tag : v.type = type.stackType)
    (slots : frame.stack.slots = slotsOf v ++ rest) :
    ∃ stack : OperandStack, pop type frame = .ok v { frame with stack := stack } ∧
      stack.slots = rest ∧ stack.capacity = frame.stack.capacity := by
  obtain ⟨stack, taken, same⟩ := pop_of_slots sized tag slots
  refine ⟨stack, ?_, same⟩
  rw [pop_eq, taken]

theorem pop_frame_of_error {type : BasicType} {halt : Halt}
    (refused : frame.stack.pop type = .error halt) : pop type frame = .error halt frame := by
  rw [pop_eq, refused]

/-- The values on top of the stack are taken off it. -/
theorem mapM_pop_of_slots {values rest : List Value} (sized : ∀ type ∈ types, type.size ≠ 0)
    (tags : values.map Value.type = types.map BasicType.stackType)
    (slots : frame.stack.slots = encode values ++ rest) :
    ∃ stack : OperandStack, types.mapM pop frame = .ok values { frame with stack := stack } ∧
      stack.slots = rest ∧ stack.capacity = frame.stack.capacity := by
  induction types generalizing frame values with
  | nil =>
      obtain rfl := List.map_eq_nil_iff.mp tags
      exact ⟨frame.stack, rfl, slots, rfl⟩
  | cons type types ih =>
      obtain ⟨v, values, rfl, tag, tags⟩ := List.map_eq_cons_iff.mp tags
      rw [encode_cons, List.append_assoc] at slots
      obtain ⟨between, first, slots, capacity⟩ :=
        pop_frame_of_slots frame (sized type List.mem_cons_self) tag slots
      obtain ⟨stack, others, slots, capacity'⟩ :=
        ih { frame with stack := between }
          (fun other member => sized other (List.mem_cons_of_mem type member)) tags slots
      refine ⟨stack, ?_, slots, capacity'.trans capacity⟩
      rw [List.mapM_cons, bind_of_ok first, bind_of_ok others]
      rfl

/-- What is withheld stops the frame with its fault, and only the stack may have changed. -/
theorem mapM_pop_of_withholds (sized : ∀ type ∈ types, type.size ≠ 0)
    (withheld : Withholds frame.stack.slots (types.map BasicType.stackType) kind) :
    ∃ (cause : Cause) (stack : OperandStack),
      types.mapM pop frame = .error cause.halt { frame with stack := stack } ∧
        cause.kind = kind := by
  induction types generalizing frame with
  | nil => cases withheld
  | cons type types ih =>
      have here := sized type List.mem_cons_self
      rw [List.mapM_cons]
      cases withheld with
      | missing few =>
          obtain ⟨cause, refused, kind⟩ := pop_of_few few
          exact ⟨cause, frame.stack, bind_of_error (pop_frame_of_error frame refused), kind⟩
      | wrong enough other =>
          obtain ⟨cause, refused, kind⟩ := pop_of_other here enough other
          exact ⟨cause, frame.stack, bind_of_error (pop_frame_of_error frame refused), kind⟩
      | deeper top tag withheld =>
          obtain ⟨between, first, slots, -⟩ := pop_frame_of_slots frame here tag top
          obtain ⟨cause, stack, others, kind⟩ :=
            ih { frame with stack := between }
              (fun other member => sized other (List.mem_cons_of_mem type member))
              (by rwa [slots])
          refine ⟨cause, stack, ?_, kind⟩
          rw [bind_of_ok first, bind_of_error others]

theorem popArguments_of_slots {arguments rest : List Value} (sized : ∀ type ∈ types, type.size ≠ 0)
    (tags : arguments.map Value.type = types.map BasicType.stackType)
    (slots : frame.stack.slots = encode arguments.reverse ++ rest) :
    ∃ stack : OperandStack,
      Exec.popArguments types frame = .ok arguments { frame with stack := stack } ∧
        stack.slots = rest ∧ stack.capacity = frame.stack.capacity := by
  have tags' : arguments.reverse.map Value.type = types.reverse.map BasicType.stackType := by
    rw [List.map_reverse, tags, List.map_reverse]
  have sized' : ∀ type ∈ types.reverse, type.size ≠ 0 :=
    fun type member => sized type (List.mem_reverse.mp member)
  obtain ⟨stack, taken, same⟩ := mapM_pop_of_slots frame sized' tags' slots
  refine ⟨stack, ?_, same⟩
  unfold Exec.popArguments
  rw [bind_of_ok taken, List.reverse_reverse]
  rfl

theorem popArguments_of_withholds (sized : ∀ type ∈ types, type.size ≠ 0)
    (withheld : Withholds frame.stack.slots (types.reverse.map BasicType.stackType) kind) :
    ∃ (cause : Cause) (stack : OperandStack),
      Exec.popArguments types frame = .error cause.halt { frame with stack := stack } ∧
        cause.kind = kind := by
  have sized' : ∀ type ∈ types.reverse, type.size ≠ 0 :=
    fun type member => sized type (List.mem_reverse.mp member)
  obtain ⟨cause, stack, taken, kind⟩ := mapM_pop_of_withholds frame sized' withheld
  exact ⟨cause, stack, bind_of_error taken, kind⟩

/-- A value is taken off the stack and read. -/
theorem pop_bind_of_slots {α : Type} {type : BasicType} {read : Value → FrameM α} {v : Value}
    {answer : α} {rest : List Value} (sized : type.size ≠ 0) (tag : v.type = type.stackType)
    (slots : frame.stack.slots = slotsOf v ++ rest) (reads : read v = pure answer) :
    ∃ stack : OperandStack,
      (pop type >>= read) frame = .ok answer { frame with stack := stack } ∧
        stack.slots = rest ∧ stack.capacity = frame.stack.capacity := by
  obtain ⟨stack, taken, same⟩ := pop_frame_of_slots frame sized tag slots
  refine ⟨stack, ?_, same⟩
  rw [bind_of_ok taken, reads]
  rfl

theorem popInt_of_slots {n : Int32} {rest : List Value}
    (slots : frame.stack.slots = .int n :: rest) :
    ∃ stack : OperandStack, popInt frame = .ok n { frame with stack := stack } ∧
      stack.slots = rest ∧ stack.capacity = frame.stack.capacity := by
  have tag : (Value.int n).type = BasicType.int.stackType := rfl
  exact pop_bind_of_slots frame (by decide) tag slots rfl

theorem popLong_of_slots {n : Int64} {rest : List Value}
    (slots : frame.stack.slots = .void :: .long n :: rest) :
    ∃ stack : OperandStack, popLong frame = .ok n { frame with stack := stack } ∧
      stack.slots = rest ∧ stack.capacity = frame.stack.capacity := by
  have tag : (Value.long n).type = BasicType.long.stackType := rfl
  exact pop_bind_of_slots frame (by decide) tag slots rfl

/-- A reference is taken off the stack, be it null or not. -/
theorem popRef_of_slots {object : Option Ref} {rest : List Value}
    (slots : frame.stack.slots = .ref object :: rest) :
    ∃ stack : OperandStack, popRef frame = .ok object { frame with stack := stack } ∧
      stack.slots = rest ∧ stack.capacity = frame.stack.capacity := by
  have tag : (Value.ref object).type = BasicType.object.stackType := rfl
  exact pop_bind_of_slots frame (by decide) tag slots rfl

theorem popRef_of_withholds (withheld : Withholds frame.stack.slots [.object] kind) :
    ∃ (cause : Cause) (stack : OperandStack),
      popRef frame = .error cause.halt { frame with stack := stack } ∧ cause.kind = kind := by
  have sized : ∀ type ∈ [BasicType.object], type.size ≠ 0 := by decide
  obtain ⟨cause, stack, taken, kind⟩ := mapM_pop_of_withholds frame sized withheld
  refine ⟨cause, stack, ?_, kind⟩
  rw [List.mapM_cons] at taken
  unfold popRef
  cases first : pop .object frame with
  | ok v later =>
      rw [bind_of_ok first] at taken
      cases taken
  | error halt later =>
      rw [bind_of_error first] at taken
      cases taken
      rw [bind_of_error first]

end FrameM

end Jvm
