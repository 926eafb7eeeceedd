/-
# Jvm.Proofs.Frame.References — references come from somewhere

The instructions that need only their frame make no references: what they leave in the variables and
on the operand stack, and in the slots above it, is a number or was there before. So if every
reference of a frame is to one of the first `count` objects of a heap, this is still so after any of
them (`LocalInstr.confines_run`), and of a value that is taken off the stack as well.
-/
import Jvm.Proofs.Frame.Arguments

namespace Jvm

set_option autoImplicit false

/-- If the value is a reference, then it is null or to one of the first `count` objects of the heap. -/
def Value.Within (heap count : Nat) : Value → Prop
  | .ref (some object) => object.heap = heap ∧ object.index < count
  | _ => True

theorem Value.Within.mono {heap count count' : Nat} {v : Value} (within : v.Within heap count)
    (more : count ≤ count') : v.Within heap count' := by
  unfold Value.Within at *
  split
  · exact ⟨within.1, Nat.lt_of_lt_of_le within.2 more⟩
  · trivial

/-- The value does not name an object. -/
def Value.IsPlain (v : Value) : Prop := ∀ object, v ≠ .ref (some object)

theorem Value.IsPlain.within {heap count : Nat} {v : Value} (plain : v.IsPlain) :
    v.Within heap count := by
  unfold Value.Within
  split
  · exact absurd rfl (plain _)
  · trivial

theorem Value.isPlain_zero (type : BasicType) : (Value.zero type).IsPlain := by
  cases type <;> exact nofun

section Places

variable (heap count : Nat)

/-- So are all values of a row. -/
def Locals.Within (locals : Locals) : Prop := ∀ v ∈ locals.toList, v.Within heap count

/-- All slots are, also those that are not in use any more. -/
structure OperandStack.Within (stack : OperandStack) : Prop where
  slots : ∀ v ∈ stack.slots, v.Within heap count
  leftovers : ∀ v ∈ stack.leftovers, v.Within heap count

structure Frame.Within (frame : Frame) : Prop where
  locals : frame.locals.Within heap count
  stack : frame.stack.Within heap count

end Places

variable {heap count count' : Nat}

/-! ## Variables -/

namespace Locals

variable {locals later : Locals}

theorem Within.mono (within : locals.Within heap count) (more : count ≤ count') :
    locals.Within heap count' := fun v member => (within v member).mono more

theorem within_unset (size : Nat) : (unset size).Within heap count := by
  intro v member
  obtain ⟨-, rfl⟩ : 0 < size ∧ v = .unset := by simpa [unset, Nat.pos_iff_ne_zero] using member
  trivial

theorem Within.set (within : locals.Within heap count) {slot : Nat} {v : Value}
    (held : v.Within heap count) : Locals.Within heap count (locals.setIfInBounds slot v) := by
  intro w member
  rw [Array.toList_setIfInBounds] at member
  rcases List.mem_or_eq_of_mem_set member with old | rfl
  · exact within w old
  · exact held

theorem Within.vacate (within : locals.Within heap count) (slot : Nat) :
    (locals.vacate slot).Within heap count := by
  unfold Locals.vacate
  split
  · exact within.set trivial
  · split
    · exact within.set trivial
    · exact within

theorem Within.store (within : locals.Within heap count) (slot : Nat) {v : Value}
    (held : v.Within heap count) : (locals.store slot v).Within heap count := by
  unfold Locals.store
  split
  · exact (((within.vacate _).vacate _).set held).set trivial
  · split
    · exact (within.vacate _).set held
    · exact within.set held

theorem Within.read (within : locals.Within heap count) {slot : Int} {type : BasicType} {v : Value}
    (read : locals.read slot type = .ok v) : v.Within heap count := by
  unfold Locals.read at read
  obtain ⟨-, read⟩ := OperandStack.check_eq_ok.mp read
  cases found : locals[slot.toNat]? with
  | none =>
      rw [found] at read
      cases read
  | some w =>
      have held := within w (Array.mem_toList_iff.mpr (Array.mem_of_getElem? found))
      rw [found] at read
      by_cases unset : w.isUnset = true
      · simp only [if_pos unset] at read
        cases read
      · by_cases other : w.type ≠ type
        · simp only [if_neg unset, if_pos other] at read
          cases read
        · simp only [if_neg unset, if_neg other] at read
          cases read
          exact held

theorem Within.writeAll (within : locals.Within heap count) {values : List Value}
    (held : ∀ v ∈ values, v.Within heap count) {slot : Nat}
    (written : locals.writeAll slot values = .ok later) : later.Within heap count := by
  induction values generalizing locals slot with
  | nil =>
      cases written
      exact within
  | cons v rest ih =>
      obtain ⟨held, rest⟩ := List.forall_mem_cons.mp held
      unfold Locals.writeAll Locals.write at written
      cases room : locals.checkRange slot v.size with
      | error halt =>
          rw [room] at written
          cases written
      | ok =>
          rw [room] at written
          exact ih (within.store _ held) rest written

end Locals

/-! ## Operand stacks -/

namespace OperandStack

variable {stack later : OperandStack}

theorem Within.mono (within : stack.Within heap count) (more : count ≤ count') :
    stack.Within heap count' :=
  ⟨fun v member => (within.slots v member).mono more,
    fun v member => (within.leftovers v member).mono more⟩

theorem within_empty (capacity : Nat) : (empty capacity).Within heap count := ⟨nofun, nofun⟩

theorem within_slotsOf {v : Value} (held : v.Within heap count) :
    ∀ w ∈ slotsOf v, w.Within heap count := by
  unfold slotsOf
  split
  · exact List.forall_mem_cons.mpr ⟨trivial, List.forall_mem_singleton.mpr held⟩
  · exact List.forall_mem_singleton.mpr held

theorem Within.push (within : stack.Within heap count) {v : Value} (held : v.Within heap count)
    (pushed : stack.push v = .ok later) : later.Within heap count := by
  obtain ⟨-, -, rfl⟩ := push_eq_ok.mp pushed
  exact ⟨List.forall_mem_append.mpr ⟨within_slotsOf held, within.slots⟩,
    fun w member => within.leftovers w (List.mem_of_mem_drop member)⟩

theorem Within.lower (within : stack.Within heap count) (number : Nat) :
    (stack.lower number).Within heap count := by
  refine ⟨fun v member => within.slots v (List.mem_of_mem_drop member),
    List.forall_mem_append.mpr ⟨fun v member => ?_, within.leftovers⟩⟩
  exact within.slots v (List.mem_of_mem_take (List.mem_reverse.mp member))

theorem Within.startSlot? (within : stack.Within heap count) {size : Nat} {v : Value}
    (starts : stack.startSlot? size = some v) : v.Within heap count := by
  unfold OperandStack.startSlot? at starts
  split at starts
  · rcases List.mem_append.mp (List.mem_of_mem_head? starts) with left | unused
    · exact within.leftovers v (List.mem_of_mem_take left)
    · rw [List.eq_of_mem_replicate unused]
      trivial
  · exact within.slots v (List.mem_of_mem_head? starts)
  · split at starts
    · rename_i slots
      obtain rfl := Option.some.inj starts
      refine within.slots _ ?_
      rw [slots]
      exact List.mem_cons_of_mem _ List.mem_cons_self
    · cases starts

theorem Within.popTyped (within : stack.Within heap count) {type : BasicType} {v : Value}
    (taken : stack.popTyped type = .ok (v, later)) :
    v.Within heap count ∧ later.Within heap count := by
  unfold OperandStack.popTyped at taken
  obtain ⟨-, taken⟩ := check_eq_ok.mp taken
  split at taken
  · rename_i found
    cases taken
    exact ⟨within.startSlot? (Option.filter_eq_some_iff.mp found).1, within.lower _⟩
  · cases taken

theorem Within.copyUnder (within : stack.Within heap count) (copied under : Nat) :
    (stack.copyUnder copied under).Within heap count := by
  have top : ∀ v ∈ stack.slots.take copied, v.Within heap count :=
    fun v member => within.slots v (List.mem_of_mem_take member)
  have rest : ∀ v ∈ stack.slots.drop copied, v.Within heap count :=
    fun v member => within.slots v (List.mem_of_mem_drop member)
  refine ⟨?_, fun v member => within.leftovers v (List.mem_of_mem_drop member)⟩
  refine List.forall_mem_append.mpr ⟨List.forall_mem_append.mpr ⟨List.forall_mem_append.mpr
    ⟨top, fun v member => ?_⟩, top⟩, fun v member => ?_⟩
  · exact rest v (List.mem_of_mem_take member)
  · exact rest v (List.mem_of_mem_drop member)

theorem Within.exchange (within : stack.Within heap count) : stack.exchange.Within heap count := by
  unfold OperandStack.exchange
  split
  · rename_i capacity top below rest used leftovers used_eq
    obtain ⟨first, slots⟩ := List.forall_mem_cons.mp within.slots
    obtain ⟨second, rest⟩ := List.forall_mem_cons.mp slots
    exact ⟨List.forall_mem_cons.mpr ⟨second, List.forall_mem_cons.mpr ⟨first, rest⟩⟩,
      within.leftovers⟩
  · exact within

end OperandStack

/-! ## Actions on frames -/

namespace Frame

theorem Within.mono {frame : Frame} (within : frame.Within heap count) (more : count ≤ count') :
    frame.Within heap count' := ⟨within.locals.mono more, within.stack.mono more⟩

theorem within_withLocals {locals : Locals} (within : locals.Within heap count) (method : Method) :
    (withLocals method locals).Within heap count := ⟨within, OperandStack.within_empty _⟩

theorem within_withArguments {method : Method} {arguments : List Value} {callee : Frame}
    (held : ∀ v ∈ arguments, v.Within heap count)
    (made : withArguments method arguments = .ok callee) : callee.Within heap count := by
  unfold withArguments at made
  cases placed : (Locals.unset method.body.maxLocals).writeAll 0 arguments with
  | error halt =>
      rw [placed] at made
      cases made
  | ok locals =>
      rw [placed] at made
      cases made
      exact within_withLocals ((Locals.within_unset _).writeAll held placed) method

end Frame

namespace FrameM

variable {α β : Type}

/-- The action makes no references, and what it answers is of the given kind. -/
def Confines (heap count : Nat) (action : FrameM α) (Answer : α → Prop) : Prop :=
  ∀ frame : Frame, frame.Within heap count → match action frame with
    | .ok v later => later.Within heap count ∧ Answer v
    | .error _ later => later.Within heap count

section Confines

variable {Answer : α → Prop} {Between : β → Prop}

theorem confines_pure {v : α} (answer : Answer v) : Confines heap count (pure v) Answer :=
  fun _ within => ⟨within, answer⟩

theorem confines_throw (halt : Halt) : Confines heap count (throw halt : FrameM α) Answer :=
  fun _ within => within

theorem Confines.bind {first : FrameM β} {next : β → FrameM α}
    (confines : Confines heap count first Between)
    (rest : ∀ v, Between v → Confines heap count (next v) Answer) :
    Confines heap count (first >>= next) Answer := by
  intro frame within
  have one := confines frame within
  cases run : first frame with
  | ok v middle =>
      rw [run] at one
      rw [bind_of_ok run]
      exact rest v one.2 middle one.1
  | error halt later =>
      rw [run] at one
      rw [bind_of_error run]
      exact one

theorem confines_onStack {change : OperandStack → Except Halt OperandStack}
    (keeps : ∀ stack later : OperandStack, stack.Within heap count → change stack = .ok later →
      later.Within heap count) : Confines heap count (onStack change) fun _ => True := by
  intro frame within
  rw [onStack_eq]
  cases made : change frame.stack with
  | ok stack => exact ⟨⟨within.locals, keeps _ _ within.stack made⟩, trivial⟩
  | error halt => exact within

theorem confines_push {v : Value} (held : v.Within heap count) :
    Confines heap count (push v) fun _ => True :=
  confines_onStack fun _ _ within pushed => within.push held pushed

theorem confines_pop (type : BasicType) :
    Confines heap count (pop type) fun v => v.Within heap count := by
  intro frame within
  rw [pop_eq]
  cases taken : frame.stack.pop type with
  | error halt => exact within
  | ok result =>
      obtain ⟨held, stack⟩ := within.stack.popTyped taken
      exact ⟨⟨within.locals, stack⟩, held⟩

theorem confines_readLocal (slot : Int) (type : BasicType) :
    Confines heap count (readLocal slot type) fun v => v.Within heap count := by
  intro frame within
  unfold readLocal
  rw [bind_get]
  cases read : frame.locals.read slot type with
  | ok v => exact ⟨within, within.locals.read read⟩
  | error halt => exact within

theorem confines_writeLocal (slot : Int) {v : Value} (held : v.Within heap count) :
    Confines heap count (writeLocal slot v) fun _ => True := by
  intro frame within
  unfold writeLocal
  rw [bind_get]
  cases frame.locals.checkRange slot v.size with
  | ok => exact ⟨⟨within.locals.store _ held, within.stack⟩, trivial⟩
  | error halt => exact within

end Confines

theorem confines_popInt : Confines heap count popInt fun _ => True :=
  (confines_pop _).bind fun v _ => by split <;> exact confines_pure trivial

theorem confines_popLong : Confines heap count popLong fun _ => True :=
  (confines_pop _).bind fun v _ => by split <;> exact confines_pure trivial

theorem confines_popFloat : Confines heap count popFloat fun _ => True :=
  (confines_pop _).bind fun v _ => by split <;> exact confines_pure trivial

theorem confines_popDouble : Confines heap count popDouble fun _ => True :=
  (confines_pop _).bind fun v _ => by split <;> exact confines_pure trivial

theorem confines_popRef :
    Confines heap count popRef fun object => (Value.ref object).Within heap count := by
  refine (confines_pop _).bind fun v held => ?_
  split
  · exact confines_pure held
  · exact confines_pure trivial

theorem confines_advance (length : Nat) : Confines heap count (advance length) fun _ => True :=
  fun _ within => ⟨⟨within.locals, within.stack⟩, trivial⟩

theorem confines_jump (offset : Int) : Confines heap count (jump offset) fun _ => True := by
  intro frame within
  rw [jump_eq]
  by_cases outside : (frame.bci : Int) + offset < 0 ∨
      (frame.method.codeSize : Int) ≤ frame.bci + offset
  · rw [if_pos outside]
    exact within
  · rw [if_neg outside]
    exact ⟨⟨within.locals, within.stack⟩, trivial⟩

theorem confines_popArguments (types : List BasicType) :
    Confines heap count (Exec.popArguments types) fun values => ∀ v ∈ values, v.Within heap count := by
  have all : ∀ types : List BasicType, Confines heap count (types.mapM pop)
      fun values => ∀ v ∈ values, v.Within heap count := by
    intro types
    induction types with
    | nil => exact confines_pure nofun
    | cons type types ih =>
        rw [List.mapM_cons]
        refine (confines_pop type).bind fun v held => ih.bind fun rest others => ?_
        exact confines_pure (List.forall_mem_cons.mpr ⟨held, others⟩)
  exact (all _).bind fun values held =>
    confines_pure fun v member => held v (List.mem_reverse.mp member)

/-! ### Instructions -/

theorem confines_arith (type : NumType) (op : ArithOp) :
    Confines heap count (arith type op) fun _ => True := by
  cases type with
  | int =>
      refine confines_popInt.bind fun b _ => confines_popInt.bind fun a _ => ?_
      split
      · exact confines_push trivial
      · exact confines_throw _
  | long =>
      refine confines_popLong.bind fun b _ => confines_popLong.bind fun a _ => ?_
      split
      · exact confines_push trivial
      · exact confines_throw _
  | float =>
      exact confines_popFloat.bind fun _ _ => confines_popFloat.bind fun _ _ => confines_push trivial
  | double =>
      exact confines_popDouble.bind fun _ _ => confines_popDouble.bind fun _ _ =>
        confines_push trivial

theorem confines_neg (type : NumType) : Confines heap count (neg type) fun _ => True := by
  cases type with
  | int => exact confines_popInt.bind fun _ _ => confines_push trivial
  | long => exact confines_popLong.bind fun _ _ => confines_push trivial
  | float => exact confines_popFloat.bind fun _ _ => confines_push trivial
  | double => exact confines_popDouble.bind fun _ _ => confines_push trivial

theorem confines_shift (wide : Bool) (op : ShiftOp) :
    Confines heap count (shift wide op) fun _ => True := by
  refine confines_popInt.bind fun number _ => ?_
  split
  · exact confines_popLong.bind fun _ _ => confines_push trivial
  · exact confines_popInt.bind fun _ _ => confines_push trivial

theorem confines_bitwise (wide : Bool) (op : BitOp) :
    Confines heap count (bitwise wide op) fun _ => True := by
  unfold bitwise
  split
  · exact confines_popLong.bind fun _ _ => confines_popLong.bind fun _ _ => confines_push trivial
  · exact confines_popInt.bind fun _ _ => confines_popInt.bind fun _ _ => confines_push trivial

theorem confines_compareReal (wide : Bool) (unordered : Int32) :
    Confines heap count (compareReal wide unordered) fun _ => True := by
  unfold compareReal
  split
  · exact confines_popDouble.bind fun _ _ => confines_popDouble.bind fun _ _ => confines_push trivial
  · exact confines_popFloat.bind fun _ _ => confines_popFloat.bind fun _ _ => confines_push trivial

theorem within_converted {target : NumType} {v : Value} (held : v.Within heap count) :
    (converted target v).Within heap count := by
  unfold converted
  split <;> first | exact held | (split <;> trivial)

end FrameM

namespace LocalInstr

open FrameM

/-- The instruction pushes no reference of its own. -/
def IsPlain : LocalInstr → Prop
  | .push v => v.IsPlain
  | _ => True

theorem confines_runPlain {instr : LocalInstr} (plain : instr.IsPlain) :
    Confines heap count instr.runPlain fun _ => True := by
  cases instr with
  | push v => exact confines_push (Value.IsPlain.within plain)
  | load type slot => exact (confines_readLocal _ _).bind fun _ held => confines_push held
  | store type slot => exact (confines_pop _).bind fun _ held => confines_writeLocal _ held
  | increment slot delta =>
      refine (confines_readLocal _ _).bind fun v _ => ?_
      split
      · exact confines_writeLocal _ trivial
      · exact confines_pure trivial
  | pop number =>
      show Confines heap count (onStack fun stack => stack.drop (number : Int)) _
      refine confines_onStack fun stack later within dropped => ?_
      obtain ⟨-, -, rfl⟩ := OperandStack.drop_eq_ok.mp dropped
      exact within.lower _
  | dup number under =>
      show Confines heap count (onStack fun stack => stack.dup (number : Int) (under : Int)) _
      refine confines_onStack fun stack later within copied => ?_
      obtain ⟨-, -, -, -, rfl⟩ := OperandStack.dup_eq_ok.mp copied
      exact within.copyUnder _ _
  | swap =>
      refine confines_onStack fun stack later within swapped => ?_
      obtain ⟨-, -, -, rfl⟩ := OperandStack.swap_eq_ok.mp swapped
      exact within.exchange
  | arith type op => exact confines_arith type op
  | neg type => exact confines_neg type
  | shift wide op => exact confines_shift wide op
  | bitwise wide op => exact confines_bitwise wide op
  | convert source target =>
      exact (confines_pop _).bind fun _ held => confines_push (within_converted held)
  | narrow type => exact confines_popInt.bind fun _ _ => confines_push trivial
  | compareLong =>
      exact confines_popLong.bind fun _ _ => confines_popLong.bind fun _ _ => confines_push trivial
  | compareReal wide unordered => exact confines_compareReal wide unordered
  | _ => exact confines_pure trivial

/-- An instruction that needs only its frame makes no references. -/
theorem confines_run {instr : LocalInstr} (plain : instr.IsPlain) (length : Nat) :
    Confines heap count (instr.run length) fun _ => True := by
  have jumpsIf (taken : Bool) (offset : Int) :
      Confines heap count (jumpIf taken offset length) fun _ => True := by
    unfold jumpIf
    split
    · exact confines_jump offset
    · exact confines_advance length
  cases instr with
  | ifZero condition offset => exact confines_popInt.bind fun _ _ => jumpsIf _ _
  | ifInts condition offset =>
      exact confines_popInt.bind fun _ _ => confines_popInt.bind fun _ _ => jumpsIf _ _
  | ifRefs same offset =>
      exact confines_popRef.bind fun _ _ => confines_popRef.bind fun _ _ => jumpsIf _ _
  | ifNull null offset => exact confines_popRef.bind fun _ _ => jumpsIf _ _
  | goto offset => exact confines_jump offset
  | tableSwitch fallback low high offsets => exact confines_popInt.bind fun _ _ => confines_jump _
  | lookupSwitch fallback pairs => exact confines_popInt.bind fun _ _ => confines_jump _
  | _ => exact (confines_runPlain plain).bind fun _ _ => confines_advance length

end LocalInstr

namespace Instr

theorem isPlain_smallConstant (code : Nat) : (smallConstant code).IsPlain := by
  unfold smallConstant
  split <;> exact nofun

theorem isPlain_ite {here : Prop} {_ : Decidable here} {one other : LocalInstr}
    (plain : one.IsPlain) (plain' : other.IsPlain) : (if here then one else other).IsPlain := by
  by_cases this : here
  · rwa [if_pos this]
  · rwa [if_neg this]

theorem isPlain_decodeLocal (code : Code) (bci : Nat) : (decodeLocal code bci).IsPlain := by
  unfold decodeLocal
  repeat' refine isPlain_ite ?_ ?_
  all_goals first
    | exact isPlain_smallConstant _
    | exact fun _ => nofun
    | trivial

/-- A decoded instruction that needs only its frame pushes no reference of its own. -/
theorem isPlain_of_decode {code : Code} {bci : Nat} {instr : LocalInstr}
    (decoded : decode code bci = .inFrame instr) : instr.IsPlain := by
  unfold decode at decoded
  split at decoded
  all_goals first | cases decoded; exact isPlain_decodeLocal code bci | cases decoded

end Instr

end Jvm
