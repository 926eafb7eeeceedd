/-
# Jvm.Proofs.Frame.Activation — what stays the same while a frame runs

A frame is one execution of a method from its start to its return. The instructions that need
only their frame move its position and change its variables and its operand stack; the method,
what the frame is for and the capacity of the stack stay (`Frame.Continues`,
`LocalInstr.continues_run`). Whatever else is to be known of the frame that an instruction leaves
follows from what it does to the position alone, if it holds of any change of the variables and
of the operand stack (`FrameM.Admits`, `FrameM.Admits.run`).
-/
import Jvm.Frame.Step
import Jvm.Proofs.OperandStack.Slots
import Jvm.Proofs.Sequence

namespace Jvm

set_option autoImplicit false

/-! ## Frames -/

/-- The same execution of the same method, wherever it has come to. -/
structure Frame.Continues (frame later : Frame) : Prop where
  method : later.method = frame.method
  isEntry : later.isEntry = frame.isEntry
  initializing : later.initializing = frame.initializing
  capacity : later.stack.capacity = frame.stack.capacity

theorem Frame.Continues.refl (frame : Frame) : frame.Continues frame := ⟨rfl, rfl, rfl, rfl⟩

theorem Frame.Continues.trans {first second third : Frame} (one : first.Continues second)
    (two : second.Continues third) : first.Continues third :=
  ⟨two.method.trans one.method, two.isEntry.trans one.isEntry,
    two.initializing.trans one.initializing, two.capacity.trans one.capacity⟩

namespace FrameM

variable {α β : Type}

/-- Whether it succeeds or stops, the action leaves a frame that the relation allows. -/
def Leads (R : Frame → Frame → Prop) (action : FrameM α) : Prop :=
  ∀ frame : Frame, match action frame with
    | .ok _ later => R frame later
    | .error _ later => R frame later

/-- Whether it succeeds or stops, the action leaves a frame of the same execution. -/
def Continues (action : FrameM α) : Prop :=
  ∀ frame : Frame, match action frame with
    | .ok _ later => frame.Continues later
    | .error _ later => frame.Continues later

section Leads

variable {R S T : Frame → Frame → Prop}

theorem Leads.of_ok {action : FrameM α} (leads : Leads R action) {frame later : Frame} {v : α}
    (run : action frame = .ok v later) : R frame later := by
  have kept := leads frame
  rwa [run] at kept

theorem Leads.of_error {action : FrameM α} (leads : Leads R action) {frame later : Frame}
    {halt : Halt} (run : action frame = .error halt later) : R frame later := by
  have kept := leads frame
  rwa [run] at kept

/-- An action in front of another. -/
theorem leads_bind_of {first : FrameM α} {next : α → FrameM β} (one : Leads R first)
    (rest : ∀ v, Leads S (next v)) (stopped : ∀ frame later, R frame later → T frame later)
    (trans : ∀ frame middle later, R frame middle → S middle later → T frame later) :
    Leads T (first >>= next) := by
  intro frame
  cases run : first frame with
  | ok v middle =>
      have kept := one.of_ok run
      rw [bind_of_ok run]
      cases finish : next v middle with
      | ok w later => exact trans _ _ _ kept ((rest v).of_ok finish)
      | error halt later => exact trans _ _ _ kept ((rest v).of_error finish)
  | error halt later =>
      rw [bind_of_error run]
      exact stopped _ _ (one.of_error run)

end Leads

theorem onStack_eq (change : OperandStack → Except Halt OperandStack) (frame : Frame) :
    onStack change frame = match change frame.stack with
      | .ok stack => .ok () { frame with stack := stack }
      | .error halt => .error halt frame := by
  show (match change frame.stack with
    | .ok stack => set { frame with stack := stack }
    | .error halt => throw halt : FrameM Unit) frame = _
  cases change frame.stack <;> rfl

theorem pop_eq (type : BasicType) (frame : Frame) :
    pop type frame = match frame.stack.pop type with
      | .ok (v, stack) => .ok v { frame with stack := stack }
      | .error halt => .error halt frame := by
  show (match frame.stack.pop type with
    | .ok (v, stack) => do
        set { frame with stack := stack }
        return v
    | .error halt => throw halt : FrameM Value) frame = _
  cases frame.stack.pop type <;> rfl

/-- A value is taken off the operand stack of the frame. -/
theorem pop_stack_eq_ok {type : BasicType} {frame later : Frame} {v : Value}
    (popped : pop type frame = .ok v later) : frame.stack.pop type = .ok (v, later.stack) := by
  rw [pop_eq] at popped
  cases taken : frame.stack.pop type with
  | error halt =>
      rw [taken] at popped
      cases popped
  | ok result =>
      rw [taken] at popped
      cases popped
      rfl

theorem jump_eq (offset : Int) (frame : Frame) :
    jump offset frame =
      if (frame.bci : Int) + offset < 0 ∨ (frame.method.codeSize : Int) ≤ frame.bci + offset then
        .error (Cause.halt (.branchTarget (frame.bci + offset) frame.method.codeSize)) frame
      else .ok () { frame with bci := (frame.bci + offset).toNat } := by
  show (if _ then fail _ else set _ : FrameM Unit) frame = _
  split <;> rfl

/-- A relation that allows any change of the variables and of the operand stack within its
capacity. -/
structure Admits (R : Frame → Frame → Prop) : Prop where
  refl : ∀ frame : Frame, R frame frame
  trans : ∀ first second third : Frame, R first second → R second third → R first third
  works : ∀ (frame : Frame) (stack : OperandStack) (locals : Locals),
    stack.capacity = frame.stack.capacity →
      R frame { frame with stack := stack, locals := locals }

/-! ## Groups of instructions -/

namespace Admits

variable {R : Frame → Frame → Prop}

theorem pure (admits : Admits R) (v : α) : Leads R (Pure.pure v : FrameM α) := admits.refl

theorem throw (admits : Admits R) (halt : Halt) : Leads R (MonadExcept.throw halt : FrameM α) :=
  admits.refl

theorem get (admits : Admits R) : Leads R (MonadState.get : FrameM Frame) := admits.refl

theorem fail (admits : Admits R) (cause : Cause) : Leads R (FrameM.fail cause : FrameM α) :=
  admits.throw _

theorem bind (admits : Admits R) {first : FrameM α} {next : α → FrameM β} (one : Leads R first)
    (rest : ∀ v, Leads R (next v)) : Leads R (first >>= next) :=
  leads_bind_of one rest (fun _ _ kept => kept) admits.trans

theorem onStack (admits : Admits R) {change : OperandStack → Except Halt OperandStack}
    (capacity : ∀ stack later, change stack = .ok later → later.capacity = stack.capacity) :
    Leads R (onStack change) := by
  intro frame
  rw [onStack_eq]
  cases made : change frame.stack with
  | ok stack => exact admits.works frame stack frame.locals (capacity _ _ made)
  | error halt => exact admits.refl frame

theorem push (admits : Admits R) (v : Value) : Leads R (push v) := by
  refine admits.onStack fun stack later pushed => ?_
  obtain ⟨-, -, rfl⟩ := OperandStack.push_eq_ok.mp pushed
  rfl

theorem pop (admits : Admits R) (type : BasicType) : Leads R (pop type) := by
  intro frame
  rw [pop_eq]
  cases taken : frame.stack.pop type with
  | ok result =>
      exact admits.works frame result.2 frame.locals (OperandStack.capacity_popTyped taken)
  | error halt => exact admits.refl frame

theorem readLocal (admits : Admits R) (slot : Int) (type : BasicType) :
    Leads R (readLocal slot type) :=
  admits.bind admits.get fun frame => by
    split
    · exact admits.pure _
    · exact admits.throw _

theorem writeLocal (admits : Admits R) (slot : Int) (v : Value) : Leads R (writeLocal slot v) :=
  admits.bind admits.get fun frame => by
    split
    · exact fun frame => admits.works frame frame.stack _ rfl
    · exact admits.throw _

theorem popInt (admits : Admits R) : Leads R popInt :=
  admits.bind (admits.pop _) fun v => by split <;> exact admits.pure _

theorem popLong (admits : Admits R) : Leads R popLong :=
  admits.bind (admits.pop _) fun v => by split <;> exact admits.pure _

theorem popFloat (admits : Admits R) : Leads R popFloat :=
  admits.bind (admits.pop _) fun v => by split <;> exact admits.pure _

theorem popDouble (admits : Admits R) : Leads R popDouble :=
  admits.bind (admits.pop _) fun v => by split <;> exact admits.pure _

theorem popRef (admits : Admits R) : Leads R popRef :=
  admits.bind (admits.pop _) fun v => by split <;> exact admits.pure _

theorem arith (admits : Admits R) (type : NumType) (op : ArithOp) : Leads R (arith type op) := by
  cases type with
  | int =>
      refine admits.bind admits.popInt fun b => admits.bind admits.popInt fun a => ?_
      split
      · exact admits.push _
      · exact admits.fail _
  | long =>
      refine admits.bind admits.popLong fun b => admits.bind admits.popLong fun a => ?_
      split
      · exact admits.push _
      · exact admits.fail _
  | float =>
      exact admits.bind admits.popFloat fun _ => admits.bind admits.popFloat fun _ =>
        admits.push _
  | double =>
      exact admits.bind admits.popDouble fun _ => admits.bind admits.popDouble fun _ =>
        admits.push _

theorem neg (admits : Admits R) (type : NumType) : Leads R (neg type) := by
  cases type with
  | int => exact admits.bind admits.popInt fun _ => admits.push _
  | long => exact admits.bind admits.popLong fun _ => admits.push _
  | float => exact admits.bind admits.popFloat fun _ => admits.push _
  | double => exact admits.bind admits.popDouble fun _ => admits.push _

theorem shift (admits : Admits R) (wide : Bool) (op : ShiftOp) : Leads R (shift wide op) := by
  refine admits.bind admits.popInt fun count => ?_
  split
  · exact admits.bind admits.popLong fun _ => admits.push _
  · exact admits.bind admits.popInt fun _ => admits.push _

theorem bitwise (admits : Admits R) (wide : Bool) (op : BitOp) : Leads R (bitwise wide op) := by
  unfold FrameM.bitwise
  split
  · exact admits.bind admits.popLong fun _ => admits.bind admits.popLong fun _ => admits.push _
  · exact admits.bind admits.popInt fun _ => admits.bind admits.popInt fun _ => admits.push _

theorem compareReal (admits : Admits R) (wide : Bool) (unordered : Int32) :
    Leads R (compareReal wide unordered) := by
  unfold FrameM.compareReal
  split
  · exact admits.bind admits.popDouble fun _ => admits.bind admits.popDouble fun _ =>
      admits.push _
  · exact admits.bind admits.popFloat fun _ => admits.bind admits.popFloat fun _ => admits.push _

/-- All but the jumps, without the move to the next instruction. -/
theorem runPlain (admits : Admits R) (instr : LocalInstr) : Leads R instr.runPlain := by
  cases instr with
  | push v => exact admits.push v
  | load type slot => exact admits.bind (admits.readLocal _ _) fun _ => admits.push _
  | store type slot => exact admits.bind (admits.pop _) fun _ => admits.writeLocal _ _
  | increment slot delta =>
      refine admits.bind (admits.readLocal _ _) fun v => ?_
      split
      · exact admits.writeLocal _ _
      · exact admits.pure _
  | pop count =>
      show Leads R (FrameM.onStack fun stack => stack.drop (count : Int))
      refine admits.onStack fun stack later dropped => ?_
      obtain ⟨-, -, rfl⟩ := OperandStack.drop_eq_ok.mp dropped
      rfl
  | dup count under =>
      show Leads R (FrameM.onStack fun stack => stack.dup (count : Int) (under : Int))
      refine admits.onStack fun stack later copied => ?_
      obtain ⟨-, -, -, -, rfl⟩ := OperandStack.dup_eq_ok.mp copied
      rfl
  | swap =>
      refine admits.onStack fun stack later swapped => ?_
      obtain ⟨-, -, -, rfl⟩ := OperandStack.swap_eq_ok.mp swapped
      exact OperandStack.exchange_capacity
  | arith type op => exact admits.arith type op
  | neg type => exact admits.neg type
  | shift wide op => exact admits.shift wide op
  | bitwise wide op => exact admits.bitwise wide op
  | convert source target => exact admits.bind (admits.pop _) fun _ => admits.push _
  | narrow type => exact admits.bind admits.popInt fun _ => admits.push _
  | compareLong =>
      exact admits.bind admits.popLong fun _ => admits.bind admits.popLong fun _ => admits.push _
  | compareReal wide unordered => exact admits.compareReal wide unordered
  | _ => exact admits.pure _

/-- A whole instruction, for a relation that allows what moves the position. -/
theorem run (admits : Admits R) {S : Frame → Frame → Prop} {length : Nat}
    (moves : Leads S (advance length)) (jumps : ∀ offset, Leads S (jump offset))
    (stopped : ∀ frame later, R frame later → S frame later)
    (trans : ∀ frame middle later, R frame middle → S middle later → S frame later)
    (instr : LocalInstr) : Leads S (instr.run length) := by
  have jumpsIf : ∀ taken offset, Leads S (jumpIf taken offset length) := by
    intro taken offset
    unfold jumpIf
    split
    · exact jumps offset
    · exact moves
  cases instr with
  | ifZero condition offset =>
      exact leads_bind_of admits.popInt (fun _ => jumpsIf _ _) stopped trans
  | ifInts condition offset =>
      refine leads_bind_of admits.popInt (fun b => ?_) stopped trans
      exact leads_bind_of admits.popInt (fun _ => jumpsIf _ _) stopped trans
  | ifRefs same offset =>
      refine leads_bind_of admits.popRef (fun b => ?_) stopped trans
      exact leads_bind_of admits.popRef (fun _ => jumpsIf _ _) stopped trans
  | ifNull null offset =>
      exact leads_bind_of admits.popRef (fun _ => jumpsIf _ _) stopped trans
  | goto offset => exact jumps offset
  | tableSwitch fallback low high offsets =>
      exact leads_bind_of admits.popInt (fun _ => jumps _) stopped trans
  | lookupSwitch fallback pairs =>
      exact leads_bind_of admits.popInt (fun _ => jumps _) stopped trans
  | _ => exact leads_bind_of (admits.runPlain _) (fun _ => moves) stopped trans

end Admits

/-! ## The same execution -/

theorem Continues.of_ok {action : FrameM α} (continues : Continues action) {frame later : Frame}
    {v : α} (run : action frame = .ok v later) : frame.Continues later :=
  Leads.of_ok continues run

theorem Continues.of_error {action : FrameM α} (continues : Continues action)
    {frame later : Frame} {halt : Halt} (run : action frame = .error halt later) :
    frame.Continues later :=
  Leads.of_error continues run

theorem admits_continues : Admits Frame.Continues where
  refl := Frame.Continues.refl
  trans _ _ _ := Frame.Continues.trans
  works _ _ _ capacity := ⟨rfl, rfl, rfl, capacity⟩

theorem continues_pure (v : α) : Continues (pure v) := admits_continues.pure v

theorem continues_bind {first : FrameM α} {next : α → FrameM β} (one : Continues first)
    (rest : ∀ v, Continues (next v)) : Continues (first >>= next) :=
  admits_continues.bind one rest

theorem continues_push (v : Value) : Continues (push v) := admits_continues.push v

theorem continues_pop (type : BasicType) : Continues (pop type) := admits_continues.pop type

theorem continues_popRef : Continues popRef := admits_continues.popRef

theorem continues_advance (length : Nat) : Continues (advance length) :=
  fun _ => ⟨rfl, rfl, rfl, rfl⟩

theorem continues_jump (offset : Int) : Continues (jump offset) := by
  intro frame
  rw [jump_eq]
  by_cases outside : (frame.bci : Int) + offset < 0 ∨
      (frame.method.codeSize : Int) ≤ frame.bci + offset
  · rw [if_pos outside]
    exact .refl frame
  · rw [if_neg outside]
    exact ⟨rfl, rfl, rfl, rfl⟩

end FrameM

theorem LocalInstr.continues_run (instr : LocalInstr) (length : Nat) :
    FrameM.Continues (instr.run length) :=
  FrameM.admits_continues.run (FrameM.continues_advance length) FrameM.continues_jump
    (fun _ _ continues => continues) (fun _ _ _ => Frame.Continues.trans) instr

end Jvm
