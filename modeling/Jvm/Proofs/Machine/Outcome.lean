/-
# Jvm.Proofs.Machine.Outcome — what one step does to the call stack

A step of the machine executes the next instruction of the top frame. Whatever the instruction
is, there are few things that can become of the call stack (`Outcome`): the top frame stays, the
frame of an initializer or of a called method is put on it, or it returns. Only the return of a
result to a frame below writes into a frame that is not on top. A step that halts leaves the top
frame where it is (`ends_step_outcome`).

What a call takes off the caller, and what a native method gives it, is said by `CallOutcome`.
-/
import Jvm.Proofs.Frame.Arguments
import Jvm.Proofs.Machine.Lookup
import Jvm.Proofs.Machine.TopFrame

namespace Jvm

set_option autoImplicit false

/-- The instruction that a frame executes next, with its length. -/
def Frame.next? (frame : Frame) : Option (Instr × Nat) :=
  let code := frame.method.code
  match code[frame.bci]? with
  | none => none
  | some byte =>
      if Opcode.isExecutable byte.toNat then
        (code.instructionLength? code.size frame.bci).map fun length =>
          (Instr.decode code frame.bci, length)
      else none

theorem Frame.next?_eq_decode {frame : Frame} {byte : UInt8} {length : Nat}
    (present : frame.method.code[frame.bci]? = some byte)
    (executable : Opcode.isExecutable byte.toNat = true)
    (measured : frame.method.code.instructionLength? frame.method.code.size frame.bci = some length) :
    frame.next? = some (Instr.decode frame.method.code frame.bci, length) := by
  simp only [next?, present, executable, measured, if_true, Option.map_some]

/-- The byte at the position of a frame. -/
def Frame.opcode (frame : Frame) : Nat := (frame.method.code.byteAt frame.bci).toNat

/-- The machine once the instruction at the position of its top frame is traced. -/
def Machine.traced (machine : Machine) (top : Frame) : Machine :=
  (Exec.traceInstruction top.opcode).after machine

/-- What a call takes off the stack of the caller, which then stands behind the instruction. -/
structure Frame.Passes (caller : Frame) (kind : InvokeKind) (descriptor : String) (length : Nat)
    (arguments : List Value) (later : Frame) : Prop where
  same : later = { caller with bci := caller.bci + length, stack := later.stack }
  capacity : later.stack.capacity = caller.stack.capacity
  slots : caller.stack.slots = arguments.reverse.flatMap OperandStack.slotsOf ++ later.stack.slots
  types : arguments.map Value.type =
    (if kind = .static then [] else [.object]) ++
      (Descriptor.paramTypes descriptor).map BasicType.stackType

theorem Frame.Passes.continues {caller later : Frame} {kind : InvokeKind} {descriptor : String}
    {length : Nat} {arguments : List Value}
    (passes : caller.Passes kind descriptor length arguments later) : caller.Continues later := by
  refine ⟨?_, ?_, ?_, passes.capacity⟩ <;> rw [passes.same]

/-- The slots that the result of a method takes on the stack of its caller. -/
def Method.resultSlots (method : Method) (v : Value) : List Value :=
  if method.result.stackType = .void then [] else OperandStack.slotsOf v

namespace Machine

/-- What can become of the frames `top :: below` in one step that calls a method. -/
inductive CallOutcome (before : Machine) (top : Frame) (below : List Frame) (kind : InvokeKind)
    (length : Nat) : Machine → Prop
  | starts {later : Machine} (starts : before.Starts later) :
      CallOutcome before top below kind length later
  | native {asked answered later : Machine} {method : Method} {native : Native}
      {arguments : List Value} {caller : Frame} {answer : Option Value} {stack : OperandStack}
      (passes : top.Passes kind method.descriptor length arguments caller)
      (bound : method.native = some native) (asks : asked.thread.frames = caller :: below)
      (ran : native.run arguments asked = .ok answer answered) (grows : before.Grows later)
      (frames : later.thread.frames = { caller with stack := stack } :: below)
      (capacity : stack.capacity = caller.stack.capacity)
      (slots : stack.slots = method.resultSlots (answer.getD .void) ++ caller.stack.slots) :
      CallOutcome before top below kind length later
  | enters {grown : Machine} {method : Method} {arguments : List Value} {caller callee : Frame}
      (passes : top.Passes kind method.descriptor length arguments caller)
      (grows : before.Grows grown) (frames : grown.thread.frames = caller :: below)
      (room : grown.thread.depth < grown.options.maxDepth)
      (declared : ∃ c ∈ grown.classes, method ∈ c.methods)
      (made : Frame.withArguments method arguments = .ok callee) :
      CallOutcome before top below kind length (grown.pushFrame callee)

/-- The top frame has returned. An entry frame answers with its result, and any other pushes it on
the frame below, if there is one. -/
inductive Leaves (before : Machine) (top : Frame) (below : List Frame) :
    Option Value → Machine → Prop
  | answers {later : Machine} {v : Value} (grows : before.Grows later) (entry : top.isEntry = true)
      (tag : v.type = top.method.result.stackType) (frames : later.thread.frames = below) :
      Leaves before top below (some v) later
  | returns {later : Machine} (grows : before.Grows later) (inner : top.isEntry = false)
      (void : top.method.result.stackType = .void) (frames : later.thread.frames = below) :
      Leaves before top below none later
  | hands {later : Machine} {v : Value} {caller : Frame} {rest : List Frame}
      {popped pushed : OperandStack} (grows : before.Grows later) (inner : top.isEntry = false)
      (valued : top.method.result.stackType ≠ .void)
      (pop : top.stack.pop top.method.result.stackType = .ok (v, popped))
      (cut : below = caller :: rest) (push : caller.stack.push v = .ok pushed)
      (frames : later.thread.frames = { caller with stack := pushed } :: rest) :
      Leaves before top below none later

/-- What can become of the frames `top :: below` when the top one executes an instruction, with the
answer of the step. -/
inductive Outcome (before : Machine) (top : Frame) (below : List Frame) (instr : Instr) :
    Option Value → Machine → Prop
  | stays {later : Machine} (stays : before.Stays top below later) :
      Outcome before top below instr none later
  | starts {later : Machine} (starts : before.Starts later) :
      Outcome before top below instr none later
  | enters {grown : Machine} {method : Method} {arguments : List Value} {callee : Frame}
      (stays : before.Stays top below grown) (room : grown.thread.depth < grown.options.maxDepth)
      (declared : ∃ c ∈ grown.classes, method ∈ c.methods)
      (made : Frame.withArguments method arguments = .ok callee) :
      Outcome before top below instr none (grown.pushFrame callee)
  | leaves {answer : Option Value} {later : Machine}
      (returns : instr = .ret top.method.result.stackType)
      (leaves : before.Leaves top below answer later) :
      Outcome before top below instr answer later

theorem CallOutcome.outcome {before later : Machine} {top : Frame} {below : List Frame}
    {kind : InvokeKind} {length : Nat} {instr : Instr}
    (called : before.CallOutcome top below kind length later) :
    before.Outcome top below instr none later := by
  cases called with
  | starts starts => exact .starts starts
  | native passes bound asks ran grows frames capacity slots =>
      refine .stays ⟨grows, _, ?_, frames⟩
      exact passes.continues.trans ⟨rfl, rfl, rfl, capacity⟩
  | enters passes grows frames room declared made =>
      exact .enters ⟨grows, _, passes.continues, frames⟩ room declared made

end Machine

namespace Exec

open Machine

variable {α : Type} {before machine : Machine} {top : Frame} {below : List Frame} {instr : Instr}

theorem topFrame_eq_ok (frames : machine.thread.frames = top :: below) :
    topFrame machine = .ok top machine := by
  unfold topFrame
  rw [bind_get, frames]
  rfl

theorem holder_eq_ok {c : LinkedClass} (holds : top.method.owner.bind machine.classOf? = some c) :
    holder top machine = .ok c machine := by
  obtain ⟨id, owner, known⟩ := Option.bind_eq_some_iff.mp holds
  unfold holder
  rw [owner]
  exact classOf_eq_ok.mpr ⟨known, rfl⟩

theorem ends_holder (frame : Frame) :
    (holder frame).Ends machine
      (fun c later => later = machine ∧ frame.method.owner.bind machine.classOf? = some c)
      fun _ _ => True := by
  unfold holder
  cases owner : frame.method.owner with
  | none => exact trivial
  | some id =>
      refine ends_iff.mpr ⟨fun c later ran => ?_, fun _ _ _ => trivial⟩
      obtain ⟨found, rfl⟩ := classOf_eq_ok.mp ran
      exact ⟨rfl, found⟩

theorem ends_bind_topFrame {next : Frame → Exec α} {Done : α → Machine → Prop}
    {Stopped : Halt → Machine → Prop} (frames : machine.thread.frames = top :: below)
    (rest : (next top).Ends machine Done Stopped) :
    (topFrame >>= next).Ends machine Done Stopped := by
  unfold topFrame
  rw [bind_assoc]
  refine ends_bind_get ?_
  rw [frames]
  exact rest

section Keeps

variable {P : Machine → Prop}

theorem keeps_holder (frame : Frame) : Keeps P (holder frame) := by
  unfold holder
  split
  · exact keeps_classOf _
  · exact keeps_violate _

theorem keeps_currentPool : Keeps P currentPool :=
  keeps_bind keeps_topFrame fun frame => keeps_bind (keeps_holder frame) fun _ => keeps_pure _

end Keeps

/-- A property of both ends that speaks of the machine alone. -/
theorem Keeps.outcome {action : Exec Unit} (keeps : Keeps (before.Stays top below) action)
    (stays : before.Stays top below machine) :
    action.Ends machine (fun _ later => before.Outcome top below instr none later)
      fun _ later => before.Stays top below later :=
  (keeps machine stays).mono (fun _ _ stays => .stays stays) fun _ _ stays => stays

/-- A property that work on the top frame keeps, and whatever leaves the call stack and the records
alone. -/
structure Local (P : Machine → Prop) : Prop where
  onTop : ∀ {α : Type} {action : FrameM α}, FrameM.Continues action → Keeps P (Exec.onTop action)
  steady : ∀ {α : Type} {action : Exec α}, (∀ machine : Machine, Keeps machine.Steady action) →
    Keeps P action

theorem local_stays : Local (before.Stays top below) where
  onTop continues := keeps_onTop continues
  steady keeps := .stays fun _ => .aside keeps

/-! ## Constants, objects and fields -/

theorem continues_push_advance (v : Value) (length : Nat) :
    FrameM.Continues (do
      FrameM.push v
      FrameM.advance length) :=
  FrameM.continues_bind (FrameM.continues_push v) fun _ => FrameM.continues_advance length

section Local

variable {P : Machine → Prop}

theorem Local.loadConstant (kept : Local P) (index : Nat) (wide : Bool) (length : Nat) :
    Keeps P (loadConstant index wide length) := by
  refine keeps_bind keeps_currentPool fun pool => ?_
  refine keeps_bind (keeps_ofFault _) fun constant => ?_
  refine keeps_bind (kept.steady fun _ => keeps_loadedValue constant) fun v => ?_
  exact kept.onTop (continues_push_advance v length)

theorem keeps_checkField (ref : Ref) (field : LinkedField) : Keeps P (checkField ref field) := by
  refine keeps_bind (keeps_object ref) fun object => ?_
  refine keeps_bind (keeps_classOf _) fun c => ?_
  split
  · exact keeps_fail _
  · exact keeps_pure _

theorem Local.getField (kept : Local P) (linked : LinkedField) (length : Nat) :
    Keeps P (getField linked length) := by
  refine keeps_bind (kept.onTop FrameM.continues_popRef) fun object => ?_
  cases object with
  | none => exact keeps_fail _
  | some ref =>
      refine keeps_bind (keeps_checkField ref linked) fun _ => ?_
      refine keeps_bind (kept.steady fun _ => keeps_field _ _) fun v => ?_
      exact kept.onTop (continues_push_advance v length)

theorem Local.setField (kept : Local P) (linked : LinkedField) (length : Nat) :
    Keeps P (setField linked length) := by
  refine keeps_bind (kept.onTop (FrameM.continues_pop _)) fun v => ?_
  refine keeps_bind (kept.onTop FrameM.continues_popRef) fun object => ?_
  cases object with
  | none => exact keeps_fail _
  | some ref =>
      refine keeps_bind (keeps_checkField ref linked) fun _ => ?_
      refine keeps_bind (kept.steady fun _ => keeps_putField _ _ _) fun _ => ?_
      exact kept.onTop (FrameM.continues_advance length)

end Local

/-- What is done with a class once it is ready, if nothing has touched the frames before. -/
theorem ends_whenReady {c : LinkedClass} {action : Exec Unit} (aside : before.Aside machine)
    (frames : before.thread.frames = top :: below)
    (rest : ∀ ready : Machine, before.Aside ready →
      action.Ends ready (fun _ later => before.Outcome top below instr none later)
        fun _ later => before.Stays top below later) :
    (do if ← Initialization.ensureReady c then action).Ends machine
      (fun _ later => before.Outcome top below instr none later)
      fun _ later => before.Stays top below later := by
  refine (Initialization.ends_ensureReady c aside).before (fun ready later ends => ?_)
    fun _ _ aside => .of_aside aside frames
  cases ready with
  | true => exact rest later ends
  | false => exact ends_pure (.starts ends)

theorem ends_create (index length : Nat) (aside : before.Aside machine)
    (frames : before.thread.frames = top :: below) :
    (create index length).Ends machine (fun _ later => before.Outcome top below instr none later)
      fun _ later => before.Stays top below later := by
  refine keeps_currentPool.before aside (fun pool machine aside => ?_)
    fun _ _ aside => .of_aside aside frames
  refine (Linking.ends_resolveNew pool index (Steady.refl machine)).before
    (fun c later found => ?_) fun _ _ steady => .of_aside (aside.trans steady.toAside) frames
  refine ends_whenReady (aside.trans found.1.toAside) frames fun ready aside => ?_
  refine Keeps.outcome ?_ (.of_aside aside frames)
  refine keeps_bind (.stays fun _ => .aside fun _ => keeps_allocate c) fun ref => ?_
  exact keeps_onTop (continues_push_advance _ length)

theorem ends_getStatic (field : LinkedField) (length : Nat) (aside : before.Aside machine)
    (frames : before.thread.frames = top :: below) :
    (getStatic field length).Ends machine (fun _ later => before.Outcome top below instr none later)
      fun _ later => before.Stays top below later := by
  refine ends_whenReady aside frames fun ready aside => ?_
  refine Keeps.outcome ?_ (.of_aside aside frames)
  refine keeps_bind (.stays fun _ => .aside fun _ => keeps_read _ _) fun v => ?_
  exact keeps_onTop (continues_push_advance v length)

theorem ends_putStatic (field : LinkedField) (length : Nat) (aside : before.Aside machine)
    (frames : before.thread.frames = top :: below) :
    (putStatic field length).Ends machine (fun _ later => before.Outcome top below instr none later)
      fun _ later => before.Stays top below later := by
  refine ends_whenReady aside frames fun ready aside => ?_
  refine Keeps.outcome ?_ (.of_aside aside frames)
  refine keeps_bind (keeps_onTop (FrameM.continues_pop _)) fun v => ?_
  refine keeps_bind (.stays fun _ => keeps_write _ _ _) fun _ => ?_
  exact keeps_onTop (FrameM.continues_advance length)

theorem ends_accessField (access : FieldAccess) (index length : Nat)
    (aside : before.Aside machine) (frames : before.thread.frames = top :: below) :
    (accessField access index length).Ends machine
      (fun _ later => before.Outcome top below instr none later)
      fun _ later => before.Stays top below later := by
  refine keeps_currentPool.before aside (fun pool machine aside => ?_)
    fun _ _ aside => .of_aside aside frames
  refine (Linking.ends_resolveField pool index access (Steady.refl machine)).before
    (fun field later found => ?_) fun _ _ steady => .of_aside (aside.trans steady.toAside) frames
  have aside' := aside.trans found.1.toAside
  cases access with
  | getStatic => exact ends_getStatic field length aside' frames
  | putStatic => exact ends_putStatic field length aside' frames
  | getField => exact (local_stays.getField field length).outcome (.of_aside aside' frames)
  | putField => exact (local_stays.setField field length).outcome (.of_aside aside' frames)

/-! ## Calls -/

theorem ends_callNative {kind : InvokeKind} {length : Nat} {method : Method}
    {arguments : List Value} {caller : Frame}
    (passes : top.Passes kind method.descriptor length arguments caller)
    (grows : before.Grows machine) (frames : machine.thread.frames = caller :: below) :
    (callNative method arguments).Ends machine
      (fun _ later => before.CallOutcome top below kind length later)
      fun _ later => before.Stays top below later := by
  have stays : before.Stays top below machine := ⟨grows, caller, passes.continues, frames⟩
  unfold callNative
  split
  · exact ends_throw stays
  · rename_i native bound
    refine ((keeps_native native arguments machine (Aside.refl machine)).and ends_self).before
      (fun answer answered ends => ?_) fun _ _ ends => stays.aside ends.1
    obtain ⟨aside, ran⟩ := ends
    have grows' := grows.trans aside.toGrows
    have frames' := aside.frames.trans frames
    dsimp only
    by_cases void : method.result.stackType = .void
    · rw [if_neg (by simpa using void)]
      exact ends_pure (.native passes bound frames ran grows' frames' rfl
        (by simp [Method.resultSlots, void]))
    · rw [if_pos (by simpa using void)]
      refine ends_guard (fun _ => stays.aside aside) fun _ => ?_
      refine ends_onTop frames' (fun _ frame run => ?_) fun _ frame run =>
        .withTop grows' frames' (passes.continues.trans ((FrameM.continues_push _).of_error run))
      have continues := (FrameM.continues_push _).of_ok run
      obtain ⟨slots, same⟩ := FrameM.push_eq_ok run
      refine .native passes bound frames ran (grows'.trans (grows_withTop _ _)) ?_
        continues.capacity ?_
      · rw [frames_withTop frames', ← same]
      · rw [slots, Method.resultSlots, if_neg void]

theorem ends_enter {kind : InvokeKind} {length : Nat} {method : Method}
    {arguments : List Value} {caller : Frame}
    (passes : top.Passes kind method.descriptor length arguments caller)
    (grows : before.Grows machine) (frames : machine.thread.frames = caller :: below)
    (declared : ∃ c ∈ machine.classes, method ∈ c.methods) :
    (enter method arguments).Ends machine
      (fun _ later => before.CallOutcome top below kind length later)
      fun _ later => before.Stays top below later := by
  have stays : before.Stays top below machine := ⟨grows, caller, passes.continues, frames⟩
  unfold enter
  split
  · exact ends_callNative passes grows frames
  · split
    · exact ends_throw stays
    · refine ends_bind_ofHalt (fun callee made => ?_) fun _ _ => stays
      exact ends_pushFrame (fun room => .enters passes grows frames room declared made)
        fun _ => stays

theorem ends_popReceiver (method : Method) (frames : machine.thread.frames = top :: below) :
    (popReceiver method).Ends machine
      (fun ref later => ∃ stack : OperandStack, top.stack.slots = .ref (some ref) :: stack.slots ∧
        stack.capacity = top.stack.capacity ∧ later = machine.withTop { top with stack := stack })
      fun _ later => ∃ frame, top.Continues frame ∧ later = machine.withTop frame := by
  refine ends_bind_onTop frames (fun object popped run => ?_) fun _ frame run =>
    ⟨frame, FrameM.continues_popRef.of_error run, rfl⟩
  have continues := FrameM.continues_popRef.of_ok run
  cases object with
  | none => exact ends_throw ⟨popped, continues, rfl⟩
  | some ref =>
      obtain ⟨slots, same⟩ := FrameM.popRef_eq_ok run
      exact ends_pure ⟨popped.stack, slots, continues.capacity, by rw [← same]⟩

theorem ends_callee (kind : InvokeKind) {method : Method} (receiver : Ref)
    (declared : ∃ c ∈ machine.classes, method ∈ c.methods) :
    (callee kind method receiver).Ends machine
      (fun selected later => machine.Steady later ∧
        (∃ c ∈ later.classes, selected ∈ c.methods) ∧ selected.descriptor = method.descriptor)
      fun _ later => machine.Steady later := by
  have steady := Steady.refl machine
  have selecting : (do
      let c ← classOf (← object receiver).classId
      Linking.selectVirtual c method).Ends machine
      (fun selected later => machine.Steady later ∧
        (∃ c ∈ later.classes, selected ∈ c.methods) ∧ selected.descriptor = method.descriptor)
      fun _ later => machine.Steady later := by
    refine Keeps.before (P := (· = machine)) (keeps_object receiver) rfl ?_ ?_
    · rintro object _ rfl
      refine ends_bind_classOf (fun c _ => ?_) fun _ => steady
      exact Linking.ends_selectVirtual c method steady declared
    · rintro _ _ rfl
      exact steady
  cases kind with
  | virtual => exact selecting
  | interface => exact selecting
  | special => exact ends_pure ⟨steady, declared, rfl⟩
  | static => exact ends_pure ⟨steady, declared, rfl⟩

theorem ends_callWith {kind : InvokeKind} {method : Method} {length : Nat}
    (aside : before.Aside machine) (frames : before.thread.frames = top :: below)
    (declared : ∃ c ∈ machine.classes, method ∈ c.methods) :
    (callWith kind method length).Ends machine
      (fun _ later => before.CallOutcome top below kind length later)
      fun _ later => before.Stays top below later := by
  have grows := aside.toGrows
  have frames' := aside.frames.trans frames
  have stays : before.Stays top below machine := .of_aside aside frames
  unfold callWith
  dsimp only
  refine ends_guard (fun _ => stays) fun _ => ?_
  refine ends_bind_onTop frames' (fun arguments popped run => ?_) fun _ frame run =>
    .withTop grows frames' ((FrameM.continues_popArguments _).of_error run)
  have continues := (FrameM.continues_popArguments _).of_ok run
  obtain ⟨types, slots, same⟩ := FrameM.popArguments_eq_ok Descriptor.size_of_paramTypes run
  obtain ⟨stack, rfl⟩ : ∃ stack, popped = { top with stack := stack } := ⟨_, same⟩
  have grows' := grows.trans (grows_withTop machine { top with stack := stack })
  have framesPopped := frames_withTop frames' { top with stack := stack }
  split
  · refine ends_bind_onTop framesPopped (fun _ caller moved => ?_) fun _ _ moved => by cases moved
    cases moved
    refine ends_enter ?_ (grows'.trans (grows_withTop _ _)) (frames_withTop framesPopped _) declared
    exact ⟨rfl, continues.capacity, slots, types⟩
  · rename_i instance'
    refine (ends_popReceiver method framesPopped).before (fun receiver called taken => ?_)
      fun _ _ stopped => ?_
    · obtain ⟨stack', slots', capacity, withTop⟩ := taken
      have framesTaken : called.thread.frames = { top with stack := stack' } :: below := by
        rw [withTop]
        exact frames_withTop framesPopped _
      have grown : before.Grows called := by
        rw [withTop]
        exact grows'.trans (grows_withTop _ _)
      have known : ∃ c ∈ called.classes, method ∈ c.methods := by
        rw [withTop]
        exact declared
      have taken : top.Continues { top with stack := stack' } :=
        ⟨rfl, rfl, rfl, capacity.trans continues.capacity⟩
      refine (ends_callee kind receiver known).before (fun selected found ends => ?_)
        fun _ _ steady => ⟨grown.trans steady.toGrows, _, taken, steady.frames.trans framesTaken⟩
      obtain ⟨steady, declared', descriptor⟩ := ends
      have framesFound := steady.frames.trans framesTaken
      refine ends_bind_onTop framesFound (fun _ caller moved => ?_) fun _ _ moved => by cases moved
      cases moved
      refine ends_enter ?_ ((grown.trans steady.toGrows).trans (grows_withTop _ _))
        (frames_withTop framesFound _) declared'
      refine ⟨rfl, capacity.trans continues.capacity, ?_, ?_⟩
      · rw [slots, List.reverse_cons, List.flatMap_append, List.append_assoc, slots']
        rfl
      · rw [descriptor, List.map_cons, types, if_neg instance']
        rfl
    · obtain ⟨frame, continues', rfl⟩ := stopped
      exact .withTop grows' framesPopped (continues.trans continues')

theorem ends_readyToCall (kind : InvokeKind) (method : Method) (aside : before.Aside machine) :
    (readyToCall kind method).Ends machine
      (fun ready later => if ready = true then before.Aside later else before.Starts later)
      fun _ later => before.Aside later := by
  unfold readyToCall
  split
  · exact ends_bind_classOf (fun c _ => Initialization.ends_ensureReady c aside) fun _ => aside
  · exact ends_throw aside
  · exact ends_pure aside

theorem ends_invoke (kind : InvokeKind) (index length : Nat) (aside : before.Aside machine)
    (frames : before.thread.frames = top :: below) :
    (invoke kind index length).Ends machine
      (fun _ later => before.CallOutcome top below kind length later)
      fun _ later => before.Stays top below later := by
  have stays : ∀ later, before.Aside later → before.Stays top below later :=
    fun _ aside => .of_aside aside frames
  refine keeps_topFrame.before aside (fun frame machine aside => ?_) fun _ _ => stays _
  refine (keeps_holder frame).before aside (fun caller machine aside => ?_) fun _ _ => stays _
  refine (Linking.ends_resolveInvoke caller.pool index kind (some caller)
    (Steady.refl machine)).before (fun method found ends => ?_)
    fun _ _ steady => stays _ (aside.trans steady.toAside)
  obtain ⟨steady, declared⟩ := ends
  have aside' := aside.trans steady.toAside
  refine (ends_readyToCall kind method (Aside.refl found)).before (fun ready later ends => ?_)
    fun _ _ aside => stays _ (aside'.trans aside)
  cases ready with
  | true =>
      obtain ⟨c, known, member⟩ := declared
      exact ends_callWith (aside'.trans ends) frames ⟨c, ends.mem known, member⟩
  | false => exact ends_pure (.starts (.after_aside aside' ends))

/-! ## Returning -/

theorem ends_leave {frame : Frame} {rest : List Frame} {Stopped : Halt → Machine → Prop}
    (frames : machine.thread.frames = frame :: rest) (left : Frame) :
    (leave left).Ends machine (fun _ later => machine.Grows later ∧ later.thread.frames = rest)
      Stopped := by
  have popped : ∀ later : Machine, machine.Aside later →
      machine.Grows later.popFrame ∧ later.popFrame.thread.frames = rest := by
    intro later aside
    refine ⟨aside.toGrows.step rfl rfl rfl rfl rfl rfl, ?_⟩
    show later.thread.frames.tail = rest
    rw [aside.frames, frames, List.tail_cons]
  unfold leave
  split
  · exact popped _ (keeps_setState _ _ machine (Aside.refl machine))
  · exact popped machine (Aside.refl machine)

theorem ends_bind_pushOnCaller {β : Type} {next : Unit → Exec β} {Done : β → Machine → Prop}
    {Stopped : Halt → Machine → Prop} {v : Value} (frames : machine.thread.frames = top :: below)
    (done : ∀ (caller : Frame) (rest : List Frame) (pushed : OperandStack) (later : Machine),
      below = caller :: rest → caller.stack.push v = .ok pushed → machine.Grows later →
        later.thread.frames = top :: { caller with stack := pushed } :: rest →
          (next ()).Ends later Done Stopped)
    (stopped : ∀ halt, Stopped halt machine) :
    (pushOnCaller v >>= next).Ends machine Done Stopped := by
  unfold pushOnCaller
  rw [bind_assoc]
  refine ends_bind_thread ?_
  rw [frames]
  cases below with
  | nil => exact stopped _
  | cons caller rest =>
      dsimp only
      cases push : caller.stack.push v with
      | error halt => exact stopped halt
      | ok pushed =>
          refine ends_bind_modify (done caller rest pushed _ rfl push
            ((Grows.refl machine).step rfl rfl rfl rfl rfl rfl) ?_)
          show machine.thread.frames.modify 1 _ = _
          rw [frames]
          rfl

theorem ends_returnValue (type : BasicType) (aside : before.Aside machine)
    (frames : before.thread.frames = top :: below) :
    (returnValue type).Ends machine
      (fun answer later => before.Outcome top below (.ret type) answer later)
      fun _ later => before.Stays top below later := by
  have frames' := aside.frames.trans frames
  have stays : before.Stays top below machine := .of_aside aside frames
  refine ends_bind_topFrame frames' ?_
  dsimp only
  refine ends_guard (fun _ => stays) fun agrees => ?_
  obtain rfl : type = top.method.result.stackType := Decidable.not_not.mp agrees
  by_cases void : top.method.result.stackType = .void
  · rw [if_pos void, pure_bind, if_neg fun valued => valued.2 void]
    refine (ends_leave frames' top).bind fun _ later left => ends_pure ?_
    have grows := aside.toGrows.trans left.1
    cases entry : top.isEntry with
    | true => exact .leaves rfl (.answers grows entry void.symm left.2)
    | false => exact .leaves rfl (.returns grows entry void left.2)
  · rw [if_neg void]
    refine ends_bind_onTop frames' (fun v popped run => ?_) fun _ _ run =>
      .withTop aside.toGrows frames' ((FrameM.continues_pop _).of_error run)
    have framesPopped := frames_withTop frames' popped
    have grows := aside.toGrows.trans (grows_withTop machine popped)
    cases entry : top.isEntry with
    | true =>
        rw [if_neg (by simp)]
        refine (ends_leave framesPopped top).bind fun _ later left => ends_pure ?_
        have sized : top.method.result.stackType.size ≠ 0 := BasicType.size_ne_zero void
        have tag := (FrameM.pop_eq_ok sized run).1
        rw [BasicType.stackType_stackType] at tag
        exact .leaves rfl (.answers (grows.trans left.1) entry tag left.2)
    | false =>
        rw [if_pos ⟨by simp, void⟩]
        refine ends_bind_pushOnCaller framesPopped (fun caller rest pushed later cut push kept => ?_)
          fun _ => .withTop aside.toGrows frames' ((FrameM.continues_pop _).of_ok run)
        intro framesPushed
        refine (ends_leave framesPushed top).bind fun _ last left => ends_pure ?_
        exact .leaves rfl (.hands ((grows.trans kept).trans left.1) entry void (FrameM.pop_stack_eq_ok run)
          cut push left.2)

/-! ## One step -/

theorem ends_execute (instr : Instr) (length : Nat) (aside : before.Aside machine)
    (frames : before.thread.frames = top :: below) :
    (execute instr length).Ends machine
      (fun answer later => before.Outcome top below instr answer later)
      fun _ later => before.Stays top below later := by
  have stays : before.Stays top below machine := .of_aside aside frames
  cases instr with
  | inFrame instr =>
      exact (Keeps.outcome (keeps_onTop (instr.continues_run length)) stays).bind
        fun _ _ outcome => ends_pure outcome
  | constant index wide =>
      exact ((local_stays.loadConstant index wide length).outcome stays).bind
        fun _ _ outcome => ends_pure outcome
  | ret type => exact ends_returnValue type aside frames
  | field access index =>
      exact (ends_accessField access index length aside frames).bind
        fun _ _ outcome => ends_pure outcome
  | invoke kind index =>
      exact (ends_invoke kind index length aside frames).bind
        fun _ _ called => ends_pure called.outcome
  | allocate index =>
      exact (ends_create index length aside frames).bind fun _ _ outcome => ends_pure outcome

theorem keeps_traceInstruction (opcode : Nat) : Keeps before.Steady (traceInstruction opcode) := by
  refine keeps_bind keeps_get fun machine => ?_
  split
  · exact keeps_bind keeps_topFrame fun frame => keeps_trace _ _
  · exact keeps_pure _

/-- A step is the execution of the next instruction of the top frame, after a trace line that keeps
what is known of the machine. -/
theorem ends_step_of (Known : Machine → Prop) {P : Machine → Prop}
    {Done : Option Value → Machine → Prop} (frames : machine.thread.frames = top :: below)
    (known : Known machine) (traces : ∀ opcode, Keeps Known (traceInstruction opcode))
    (stuck : ∀ later, Known later → P later)
    (executes : ∀ instr length traced, top.next? = some (instr, length) → Known traced →
      (execute instr length).Ends traced Done fun _ => P) :
    step.Ends machine Done fun _ => P := by
  refine ends_bind_topFrame frames ?_
  dsimp only
  have here := stuck machine known
  split
  · exact ends_mapFault (ends_throw here)
  · rename_i byte present
    refine ends_mapFault ?_
    unfold executeAt
    dsimp only
    refine ends_guard (fun _ => here) fun executable => ?_
    split
    · exact ends_throw here
    · rename_i length measured
      refine (traces _).before known (fun _ traced known => ?_) fun _ _ known => stuck _ known
      refine executes _ length traced ?_ known
      have decodes : Opcode.isExecutable byte.toNat = true := by simpa using executable
      simp only [Frame.next?, present, decodes, measured, if_true, Option.map_some]

theorem exists_of_next? {next : Instr × Nat}
    (stands : machine.thread.frames.head?.bind Frame.next? = some next) :
    ∃ top below, machine.thread.frames = top :: below ∧ top.next? = some next := by
  obtain ⟨top, first, next⟩ := Option.bind_eq_some_iff.mp stands
  obtain ⟨below, frames⟩ := List.head?_eq_some_iff.mp first
  exact ⟨top, below, frames, next⟩

/-- Tracing an instruction adds at most a line to the log. -/
theorem traceInstruction_eq (frames : machine.thread.frames = top :: below) (opcode : Nat) :
    ∃ log : List String, traceInstruction opcode machine = .ok () { machine with log := log } := by
  unfold traceInstruction
  rw [bind_get]
  by_cases wanted : machine.options.traceBytecodes = true
  · have traced (line : String) : trace (·.traceBytecodes) line machine =
        .ok () { machine with log := (line ++ "\n") :: machine.log } :=
      congrArg (EStateM.Result.ok ()) (if_pos wanted)
    rw [if_pos wanted, bind_of_ok (topFrame_eq_ok frames), traced]
    exact ⟨_, rfl⟩
  · rw [if_neg wanted]
    exact ⟨machine.log, rfl⟩

theorem traced_eq (frames : machine.thread.frames = top :: below) :
    ∃ log : List String, machine.traced top = { machine with log := log } := by
  obtain ⟨log, traced⟩ := traceInstruction_eq frames top.opcode
  refine ⟨log, ?_⟩
  unfold Machine.traced Exec.after
  rw [traced]

/-- A step traces the next instruction and executes it. -/
theorem step_eq_traced {instr : Instr} {length : Nat} (frames : machine.thread.frames = top :: below)
    (next : top.next? = some (instr, length)) :
    step machine = atSite top.method top.bci (some top.opcode) (execute instr length)
      (machine.traced top) := by
  unfold Frame.next? at next
  dsimp only at next
  split at next
  · cases next
  · rename_i byte present
    have opcode : top.opcode = byte.toNat := by
      rw [Frame.opcode, Code.byteAt, Array.getD_eq_getD_getElem?, present, Option.getD_some]
    split at next
    · rename_i executable
      obtain ⟨_, measured, same⟩ := Option.map_eq_some_iff.mp next
      obtain ⟨rfl, rfl⟩ := Prod.mk.inj same
      obtain ⟨log, traced⟩ := traceInstruction_eq frames top.opcode
      unfold step Machine.traced Exec.after
      rw [bind_of_ok (topFrame_eq_ok frames)]
      dsimp only
      rw [present, traced]
      dsimp only
      rw [opcode] at traced ⊢
      unfold atSite executeAt
      simp only [executable, not_true_eq_false, if_false]
      rw [measured]
      dsimp only
      unfold mapFault
      rw [bind_of_ok traced]
    · cases next

/-- A trace line is all that a step adds to the execution of the next instruction. -/
theorem step_eq {instr : Instr} {length : Nat} (frames : machine.thread.frames = top :: below)
    (next : top.next? = some (instr, length)) :
    ∃ (opcode : Nat) (log : List String),
      step machine = atSite top.method top.bci (some opcode) (execute instr length)
        { machine with log := log } := by
  obtain ⟨log, traced⟩ := traced_eq frames
  exact ⟨top.opcode, log, traced ▸ step_eq_traced frames next⟩

section InFrame

variable {instr : LocalInstr} {length : Nat} {later : Frame}
  (frames : machine.thread.frames = top :: below)
  (next : top.next? = some (.inFrame instr, length))

include frames next

/-- An instruction that needs only its frame changes nothing else, a trace line apart. -/
theorem step_of_run (run : instr.run length top = .ok () later) :
    ∃ log : List String,
      step machine = .ok none ({ machine with log := log }.withTop later) := by
  obtain ⟨opcode, log, stepped⟩ := step_eq frames next
  have frames' : ({ machine with log := log } : Machine).thread.frames = top :: below := frames
  have ran : execute (.inFrame instr) length { machine with log := log } =
      .ok none ({ machine with log := log }.withTop later) := bind_of_ok (onTop_of_ok frames' run)
  refine ⟨log, ?_⟩
  rw [stepped]
  exact mapFault_eq_ok.mpr ran

theorem step_of_run_error {cause : Cause} (run : instr.run length top = .error cause.halt later) :
    ∃ (log : List String) (fault : Fault),
      step machine = .error (.fault fault) ({ machine with log := log }.withTop later) ∧
        fault.cause = cause := by
  obtain ⟨opcode, log, stepped⟩ := step_eq frames next
  have frames' : ({ machine with log := log } : Machine).thread.frames = top :: below := frames
  have ran : execute (.inFrame instr) length { machine with log := log } =
      .error cause.halt ({ machine with log := log }.withTop later) :=
    bind_of_error (onTop_of_error frames' run)
  refine ⟨log, (Fault.of cause).atSite (siteOf top.method top.bci (some opcode)), ?_, rfl⟩
  rw [stepped]
  unfold atSite mapFault
  rw [ran]
  rfl

end InFrame

theorem ends_step {P : Machine → Prop} {Done : Option Value → Machine → Prop}
    (frames : machine.thread.frames = top :: below) (stuck : ∀ later, machine.Steady later → P later)
    (executes : ∀ instr length traced, top.next? = some (instr, length) → machine.Steady traced →
      (execute instr length).Ends traced Done fun _ => P) :
    step.Ends machine Done fun _ => P :=
  ends_step_of machine.Steady frames (Steady.refl machine)
    (fun opcode => keeps_traceInstruction opcode) stuck executes

/-- What a step does to the call stack. -/
theorem ends_step_outcome (frames : machine.thread.frames = top :: below) :
    step.Ends machine
      (fun answer later => ∃ instr length, top.next? = some (instr, length) ∧
        machine.Outcome top below instr answer later)
      fun _ later => machine.Stays top below later :=
  ends_step frames (fun _ steady => .of_aside steady.toAside frames)
    fun instr length _ next steady => (ends_execute instr length steady.toAside frames).mono
      (fun _ _ outcome => ⟨instr, length, next, outcome⟩) fun _ _ stays => stays

end Exec

end Jvm
