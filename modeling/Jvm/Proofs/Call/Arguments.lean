/-
# Jvm.Proofs.Call.Arguments — what an invoke instruction passes to its method

Once the method of an invoke instruction is found and no initializer has to run before it (`Due`),
everything is decided by the stack of the caller. If it withholds an argument, or the receiver is
null, then the step raises the fault and nothing has run. Otherwise the arguments are taken off, and
the method that runs gets exactly them: a native method as its arguments, any other in the first
variables of its frame (`Enters`). `step_passes_arguments` says so of every step that executes an
invoke instruction.
-/
import Jvm.Proofs.Call.InstanceFields
import Jvm.Proofs.Frame.Taking

namespace Jvm

set_option autoImplicit false

namespace Exec

open Machine
open OperandStack (width)

variable {machine ready : Machine} {top caller : Frame} {below : List Frame} {kind : InvokeKind}
  {method called : Method} {index length : Nat} {arguments : List Value} {flaw : FaultKind}

/-! ## Entering a method -/

/-- What becomes of the answer of a native method. -/
def pushAnswer (method : Method) (answer : Option Value) : Exec Unit := do
  let result := answer.getD .void
  let type := method.result.stackType
  if type ≠ .void then
    if result.type ≠ type then fail (.nativeResult method.describe result.type)
    onTop (FrameM.push result)

/-- A frame can be made for the method with its arguments, and the call stack has room for it. -/
structure HasRoom (machine : Machine) (method : Method) (arguments : List Value) : Prop where
  inner : method.isNative = false
  code : method.isAbstract = false ∧ method.hasCode = true
  locals : width arguments ≤ method.body.maxLocals
  depth : machine.thread.depth < machine.options.maxDepth

theorem enter_of_native {native : Native} (outer : method.isNative = true)
    (bound : method.native = some native) :
    enter method arguments = native.run arguments >>= pushAnswer method := by
  unfold enter callNative
  rw [if_pos outer, bound]
  rfl

theorem pushFrame_eq (frame : Frame) (machine : Machine) :
    Exec.pushFrame frame machine = if machine.options.maxDepth ≤ machine.thread.depth then
        .error (Cause.halt (.callDepth machine.options.maxDepth frame.method.describe)) machine
      else .ok () (machine.pushFrame frame) := by
  unfold Exec.pushFrame
  rw [bind_get]
  split <;> rfl

theorem enter_of_hasRoom (sized : ∀ v ∈ arguments, v.size ≠ 0)
    (room : HasRoom machine method arguments) :
    enter method arguments machine =
      .ok () (machine.pushFrame (Frame.ofArguments method arguments)) := by
  unfold enter
  rw [if_neg (by simp [room.inner]), if_neg (by simp [room.code]),
    Frame.withArguments_of_fits sized room.locals]
  show Exec.pushFrame _ machine = _
  rw [pushFrame_eq, if_neg (Int.not_le.mpr room.depth)]

/-- If there is nothing to run, or no room for it, then nothing is done. -/
theorem enter_refused (sized : ∀ v ∈ arguments, v.size ≠ 0)
    (unbound : method.isNative = true → method.native = none)
    (full : ¬ HasRoom machine method arguments) :
    ∃ cause : Cause, enter method arguments machine = .error cause.halt machine := by
  unfold enter
  by_cases outer : method.isNative = true
  · rw [if_pos outer]
    unfold callNative
    rw [unbound outer]
    exact ⟨_, rfl⟩
  rw [if_neg outer]
  by_cases code : method.isAbstract = true ∨ ¬ method.hasCode = true
  · rw [if_pos code]
    exact ⟨_, rfl⟩
  rw [if_neg code]
  by_cases fits : width arguments ≤ method.body.maxLocals
  · rw [Frame.withArguments_of_fits sized fits]
    have deep : machine.options.maxDepth ≤ machine.thread.depth :=
      Int.not_lt.mp fun room => full ⟨by simpa using outer, by simpa using code, fits, room⟩
    refine ⟨.callDepth machine.options.maxDepth method.describe, ?_⟩
    show Exec.pushFrame _ machine = _
    rw [pushFrame_eq, if_pos deep]
    rfl
  · obtain ⟨cause, refused, -⟩ := Frame.withArguments_of_not_fits sized (Nat.not_le.mp fits)
    rw [refused]
    exact ⟨cause, rfl⟩

/-! ## Taking the arguments off -/

/-- The method that runs: the one that was found, or one that the receiver selects. -/
inductive Selects (machine : Machine) (kind : InvokeKind) (method : Method) :
    List Value → Method → Prop
  | static {arguments : List Value} (static : kind = .static) :
      Selects machine kind method arguments method
  | receiver {receiver : Ref} {rest : List Value} {called : Method} (dynamic : kind ≠ .static)
      (chosen : callee kind method receiver machine = .ok called machine) :
      Selects machine kind method (.ref (some receiver) :: rest) called

/-- The search for it changes nothing. -/
theorem ends_callee_same (kind : InvokeKind) (method : Method) (receiver : Ref)
    (machine : Machine) :
    (callee kind method receiver).Ends machine (fun _ later => later = machine)
      fun _ later => later = machine := by
  have selecting : Keeps (· = machine) (do
      let c ← classOf (← object receiver).classId
      Linking.selectVirtual c method) := by
    refine keeps_bind (keeps_object receiver) fun object => ?_
    refine keeps_bind (keeps_classOf _) fun c => ?_
    unfold Linking.selectVirtual
    dsimp only
    split
    · exact keeps_pure _
    · refine keeps_bind keeps_get fun machine => ?_
      split
      · exact keeps_fail _
      · split
        · exact keeps_fail _
        · exact keeps_pure _
  cases kind with
  | virtual => exact selecting machine rfl
  | interface => exact selecting machine rfl
  | special => exact ends_pure rfl
  | static => exact ends_pure rfl

theorem callWith_of_many
    (many : parameterLimit < (Descriptor.paramTypes method.descriptor).length) :
    callWith kind method length machine = .error (Cause.halt .tooManyParameters) machine := by
  unfold callWith
  dsimp only
  rw [if_pos many]
  rfl

theorem popReceiver_of_withholds (method : Method) (frames : machine.thread.frames = top :: below)
    (withheld : OperandStack.Withholds top.stack.slots [.object] flaw) :
    ∃ (cause : Cause) (stack : OperandStack),
      popReceiver method machine = .error cause.halt (machine.withTop { top with stack := stack }) ∧
        cause.kind = flaw := by
  obtain ⟨cause, stack, taken, kind⟩ := FrameM.popRef_of_withholds top withheld
  exact ⟨cause, stack, bind_of_error (onTop_of_error frames taken), kind⟩

/-- The receiver of a call, once it is off the stack. -/
def receiverOf (method : Method) : Option Ref → Exec Ref
  | some receiver => pure receiver
  | none => fail (.nullReceiver method.ownerName method.name method.descriptor)

theorem popReceiver_of_slots (method : Method) (frames : machine.thread.frames = top :: below)
    {object : Option Ref} {rest : List Value} (slots : top.stack.slots = .ref object :: rest) :
    ∃ stack : OperandStack,
      popReceiver method machine =
        receiverOf method object (machine.withTop { top with stack := stack }) ∧
      stack.slots = rest ∧ stack.capacity = top.stack.capacity := by
  obtain ⟨stack, taken, same⟩ := FrameM.popRef_of_slots top slots
  refine ⟨stack, ?_, same⟩
  unfold popReceiver
  rw [bind_of_ok (onTop_of_ok frames taken)]
  cases object <;> rfl

section Few

variable (few : (Descriptor.paramTypes method.descriptor).length ≤ parameterLimit)
  (frames : machine.thread.frames = top :: below)

include few frames

/-- An argument that is withheld stops the call with its fault. -/
theorem callWith_of_withholds (withheld : top.Withholds (kind == .static) method.descriptor flaw) :
    ∃ (cause : Cause) (stack : OperandStack),
      callWith kind method length machine =
        .error cause.halt (machine.withTop { top with stack := stack }) ∧ cause.kind = flaw := by
  unfold Frame.Withholds at withheld
  rw [Descriptor.reverse_argumentTypes] at withheld
  unfold callWith
  dsimp only
  rw [if_neg (Nat.not_lt.mpr few)]
  rcases withheld.of_append with withheld | ⟨values, rest, tags, slots, withheld⟩
  · obtain ⟨cause, stack, taken, same⟩ :=
      FrameM.popArguments_of_withholds top Descriptor.size_of_paramTypes withheld
    exact ⟨cause, stack, bind_of_error (onTop_of_error frames taken), same⟩
  · -- the parameters are there, so it is the receiver that is not
    have tags' : values.reverse.map Value.type =
        (Descriptor.paramTypes method.descriptor).map BasicType.stackType := by
      rw [List.map_reverse, tags, List.map_reverse, List.reverse_reverse]
    obtain ⟨stack, taken, slots, -⟩ := FrameM.popArguments_of_slots top
      Descriptor.size_of_paramTypes tags' (by rwa [List.reverse_reverse])
    rw [bind_of_ok (onTop_of_ok frames taken)]
    have below := frames_withTop frames { top with stack := stack }
    have refused (withheld : OperandStack.Withholds rest [.object] flaw) :=
      popReceiver_of_withholds method below (slots ▸ withheld)
    cases kind with
    | static => cases withheld
    | _ =>
        obtain ⟨cause, last, taken, same⟩ := refused withheld
        exact ⟨cause, last, bind_of_error taken, same⟩

/-- The arguments of a call without a receiver are taken off, and the method gets them. -/
theorem callWith_of_offers_static (offers : top.Offers true method.descriptor arguments) :
    ∃ caller, top.Passes .static method.descriptor length arguments caller ∧
      callWith .static method length machine = enter method arguments (machine.withTop caller) := by
  obtain ⟨tags, rest, slots⟩ := offers
  obtain ⟨stack, taken, slots', capacity⟩ :=
    FrameM.popArguments_of_slots top Descriptor.size_of_paramTypes tags slots
  refine ⟨{ top with bci := top.bci + length, stack := stack }, ⟨rfl, capacity, ?_, tags⟩, ?_⟩
  · rw [slots, slots']
    rfl
  · unfold callWith
    dsimp only
    rw [if_neg (Nat.not_lt.mpr few)]
    rw [bind_of_ok (onTop_of_ok frames taken)]
    rfl

/-- The arguments of a call with a receiver are taken off. -/
theorem callWith_of_offers (dynamic : kind ≠ .static) {object : Option Ref} {rest : List Value}
    (offers : top.Offers false method.descriptor (.ref object :: rest)) :
    ∃ stack : OperandStack,
      top.Passes kind method.descriptor length (.ref object :: rest)
        { top with bci := top.bci + length, stack := stack } ∧
      callWith kind method length machine = (do
        let receiver ← receiverOf method object
        let selected ← callee kind method receiver
        onTop (FrameM.advance length)
        enter selected (.ref (some receiver) :: rest))
          (machine.withTop { top with stack := stack }) := by
  obtain ⟨types, below, slots⟩ := offers
  have tags := (List.cons.inj types).2
  rw [List.reverse_cons, OperandStack.encode_append, List.append_assoc] at slots
  obtain ⟨between, taken, slots', capacity⟩ :=
    FrameM.popArguments_of_slots top Descriptor.size_of_paramTypes tags slots
  have frames' := frames_withTop frames { top with stack := between }
  obtain ⟨stack, received, last, capacity'⟩ := popReceiver_of_slots method frames' slots'
  refine ⟨stack, ⟨rfl, capacity'.trans capacity, ?_, ?_⟩, ?_⟩
  · rw [slots, last, List.reverse_cons, List.flatMap_append, List.append_assoc]
    rfl
  · rw [types, if_neg dynamic]
    rfl
  · unfold callWith
    dsimp only
    rw [if_neg (Nat.not_lt.mpr few), bind_of_ok (onTop_of_ok frames taken)]
    cases kind with
    | static => exact absurd rfl dynamic
    | _ =>
        refine (bind_of_eq received).trans ?_
        cases object <;> rfl

end Few

/-! ## Executing the instruction -/

/-- The method of an invoke instruction is found, and no initializer has to run before it. -/
def Due (machine : Machine) (top : Frame) (kind : InvokeKind) (index : Nat) (method : Method)
    (ready : Machine) : Prop :=
  ∃ c linked, top.method.owner.bind machine.classOf? = some c ∧
    Linking.resolveInvoke c.pool index kind (some c) machine = .ok method linked ∧
    readyToCall kind method linked = .ok true ready

theorem Due.aside (due : Due machine top kind index method ready) : machine.Aside ready := by
  obtain ⟨c, linked, -, found, asked⟩ := due
  have steady := (Linking.ends_resolveInvoke c.pool index kind (some c) (Steady.refl machine)).of_ok
    found
  exact steady.1.toAside.trans ((ends_readyToCall kind method (Aside.refl linked)).of_ok asked)

theorem invoke_of_due (frames : machine.thread.frames = top :: below)
    (due : Due machine top kind index method ready) :
    invoke kind index length machine = callWith kind method length ready := by
  obtain ⟨c, linked, holds, found, asked⟩ := due
  unfold invoke
  rw [bind_of_ok (topFrame_eq_ok frames), bind_of_ok (holder_eq_ok holds), bind_of_ok found,
    bind_of_ok asked, if_pos rfl]

/-- Otherwise the frame of an initializer is put on the stack, or all frames stay. -/
theorem ends_invoke_of_not_due (frames : machine.thread.frames = top :: below)
    (never : ∀ method ready, ¬ Due machine top kind index method ready) :
    (invoke kind index length).Ends machine (fun _ later => machine.Starts later)
      fun _ later => later.thread.frames = top :: below := by
  refine ends_bind_topFrame frames ?_
  refine (Ends.and ((keeps_holder top) machine (Aside.refl machine)) (ends_holder top)).before
    (fun c here ended => ?_) fun _ _ ended => ended.1.frames.trans frames
  obtain ⟨rfl, holds⟩ := ended.2
  have found := Linking.ends_resolveInvoke c.pool index kind (some c) (Steady.refl here)
  refine (found.and ends_self).before (fun method linked ended => ?_)
    fun _ _ ended => ended.1.frames.trans frames
  have aside := ended.1.1.toAside
  refine ((ends_readyToCall kind method (Aside.refl linked)).and ends_self).before
    (fun answer later asked => ?_) fun _ _ asked => (aside.trans asked.1).frames.trans frames
  cases answer with
  | true => exact absurd ⟨c, linked, holds, ended.2, asked.2⟩ (never method later)
  | false => exact ends_pure (.after_aside aside asked.1)

theorem steady_traced (machine : Machine) (top : Frame) : machine.Steady (machine.traced top) :=
  (keeps_traceInstruction top.opcode machine (Steady.refl machine)).after

/-- What becomes of a method that is called with arguments, where the caller is behind the
instruction already: it is native and gets them, or it starts in a frame that holds them, or there
is nothing to run or no room for it. -/
structure Enters (machine passed : Machine) (top : Frame) (called : Method)
    (arguments : List Value) : Prop where
  native : ∀ native, called.isNative = true → called.native = some native →
    step machine = atSite top.method top.bci (some top.opcode) (do
      pushAnswer called (← native.run arguments)
      return none) passed
  frame : HasRoom passed called arguments → ∃ frame : Frame, frame.StartsWith called arguments ∧
    step machine = .ok none (passed.pushFrame frame)
  refused : (called.isNative = true → called.native = none) → ¬ HasRoom passed called arguments →
    ∃ fault, step machine = .error (.fault fault) passed

/-- What becomes of a call whose arguments have been taken off. A null receiver, or one that selects
no method, stops it there. -/
structure Hands (machine popped passed : Machine) (top : Frame) (kind : InvokeKind)
    (method : Method) (arguments : List Value) : Prop where
  null : kind ≠ .static → arguments.head? = some .null →
    ∃ fault, step machine = .error (.fault fault) popped ∧ fault.kind = .throwable ∧
      fault.reason = some .nullPointer
  unselected : (∀ called, ¬ Selects popped kind method arguments called) →
    ∃ halt, step machine = .error halt popped
  enters : ∀ called, Selects popped kind method arguments called →
    Enters machine passed top called arguments

/-- What becomes of an invoke instruction whose method is due. The fault for an argument that is
withheld leaves everything but the stack of the caller as it was. Otherwise exactly the arguments
are taken off it. -/
structure Calls (machine : Machine) (top : Frame) (below : List Frame) (kind : InvokeKind)
    (method : Method) (length : Nat) (ready : Machine) : Prop where
  frames : ready.thread.frames = top :: below
  many : 255 < (Descriptor.paramTypes method.descriptor).length →
    ∃ fault, step machine = .error (.fault fault) ready ∧ fault.kind = .format
  either : (∃ flaw, top.Withholds (kind == .static) method.descriptor flaw) ∨
    ∃ arguments, top.Offers (kind == .static) method.descriptor arguments
  withheld : (Descriptor.paramTypes method.descriptor).length ≤ 255 →
    ∀ flaw, top.Withholds (kind == .static) method.descriptor flaw →
      ∃ fault stack, step machine = .error (.fault fault)
        (ready.withTop { top with stack := stack }) ∧ fault.kind = flaw
  passes : (Descriptor.paramTypes method.descriptor).length ≤ 255 →
    ∀ arguments, top.Offers (kind == .static) method.descriptor arguments →
      ∃ caller, top.Passes kind method.descriptor length arguments caller ∧
        Hands machine (ready.withTop { top with stack := caller.stack }) (ready.withTop caller) top
          kind method arguments

theorem frames_of_due (frames : machine.thread.frames = top :: below)
    (due : Due (machine.traced top) top kind index method ready) :
    ready.thread.frames = top :: below :=
  ((steady_traced machine top).toAside.trans due.aside).frames.trans frames

section Step

variable (frames : machine.thread.frames = top :: below)
  (next : top.next? = some (.invoke kind index, length))

include frames next

theorem ends_step_of_not_due
    (never : ∀ method ready, ¬ Due (machine.traced top) top kind index method ready) :
    step.Ends machine (fun _ later => machine.Starts later)
      fun _ later => later.thread.frames = top :: below := by
  have aside := (steady_traced machine top).toAside
  unfold Ends
  rw [step_eq_traced frames next]
  refine ends_mapFault ?_
  refine (ends_invoke_of_not_due (aside.frames.trans frames) never).bind fun _ later starts => ?_
  exact ends_pure (.after_aside aside starts)

variable (due : Due (machine.traced top) top kind index method ready)

include due

/-- A step that executes an invoke instruction whose method is due calls it. -/
theorem step_of_due : step machine =
    atSite top.method top.bci (some top.opcode) (do
      callWith kind method length
      return none) ready := by
  have frames' := (steady_traced machine top).toAside.frames.trans frames
  rw [step_eq_traced frames next]
  exact mapFault_of_eq (bind_of_eq (invoke_of_due frames' due))

theorem step_of_ok {later : Machine}
    (called : callWith kind method length ready = .ok () later) :
    step machine = .ok none later := by
  rw [step_of_due frames next due]
  unfold atSite mapFault
  rw [bind_of_ok called]
  rfl

theorem step_of_halt {halt : Halt} {later : Machine}
    (stopped : callWith kind method length ready = .error halt later) :
    step machine = .error (halt.mapFault fun fault =>
      fault.atSite (siteOf top.method top.bci (some top.opcode))) later := by
  rw [step_of_due frames next due]
  unfold atSite mapFault
  rw [bind_of_error stopped]

theorem step_of_cause {cause : Cause} {later : Machine}
    (stopped : callWith kind method length ready = .error cause.halt later) :
    ∃ fault, step machine = .error (.fault fault) later ∧ fault.cause = cause :=
  ⟨_, step_of_halt frames next due stopped, rfl⟩

/-- The method that runs gets the arguments. -/
theorem enters_of_callWith (sized : ∀ v ∈ arguments, v.size ≠ 0)
    (calls : callWith kind method length ready =
      enter called arguments (ready.withTop caller)) :
    Enters machine (ready.withTop caller) top called arguments where
  native native outer bound := by
    rw [step_of_due frames next due]
    refine mapFault_of_eq ((bind_of_eq calls).trans ?_)
    rw [enter_of_native outer bound, bind_assoc]
  frame room := by
    refine ⟨_, Frame.startsWith_ofArguments sized room.locals, ?_⟩
    exact step_of_ok frames next due (calls.trans (enter_of_hasRoom sized room))
  refused unbound full := by
    obtain ⟨cause, stopped⟩ := enter_refused sized unbound full
    obtain ⟨fault, raised, -⟩ := step_of_cause frames next due (calls.trans stopped)
    exact ⟨fault, raised⟩

theorem hands_of_offers_static {arguments : List Value}
    (few : (Descriptor.paramTypes method.descriptor).length ≤ parameterLimit)
    (static : kind = .static) (offers : top.Offers true method.descriptor arguments) :
    ∃ caller, top.Passes kind method.descriptor length arguments caller ∧
      Hands machine (ready.withTop { top with stack := caller.stack }) (ready.withTop caller) top
        kind method arguments := by
  subst static
  obtain ⟨caller, passes, calls⟩ :=
    callWith_of_offers_static few (frames_of_due frames due) offers
  have sized := Descriptor.size_of_argumentTypes offers.types
  refine ⟨caller, passes, fun dynamic => absurd rfl dynamic, fun never => ?_,
    fun called selects => ?_⟩
  · exact absurd (.static rfl) (never method)
  · cases selects with
    | static => exact enters_of_callWith frames next due sized calls
    | receiver dynamic => exact absurd rfl dynamic

/-- A null receiver is the end of the call. -/
theorem hands_of_null {stack : OperandStack} {rest : List Value} (dynamic : kind ≠ .static)
    (stopped : callWith kind method length ready =
      .error (Cause.halt (.nullReceiver method.ownerName method.name method.descriptor))
        (ready.withTop { top with stack := stack })) :
    Hands machine (ready.withTop { top with stack := stack }) (ready.withTop caller) top kind method
      (.null :: rest) where
  null _ _ := by
    obtain ⟨fault, raised, cause⟩ := step_of_cause frames next due stopped
    exact ⟨fault, raised, congrArg Cause.kind cause, congrArg Cause.reason cause⟩
  unselected _ := ⟨_, step_of_halt frames next due stopped⟩
  enters called selects := by
    cases selects with
    | static static => exact absurd static dynamic

/-- Any other receiver has its method called, or stops the call as well. -/
theorem hands_of_receiver {stack : OperandStack} {receiver : Ref} {rest : List Value}
    (dynamic : kind ≠ .static) (sized : ∀ v ∈ Value.ref (some receiver) :: rest, v.size ≠ 0)
    (calls : callWith kind method length ready = (do
      let selected ← callee kind method receiver
      onTop (FrameM.advance length)
      enter selected (.ref (some receiver) :: rest)) (ready.withTop { top with stack := stack })) :
    Hands machine (ready.withTop { top with stack := stack })
      (ready.withTop { top with bci := top.bci + length, stack := stack }) top kind method
      (.ref (some receiver) :: rest) where
  null _ null := nomatch null
  unselected never := by
    have same := ends_iff.mp
      (ends_callee_same kind method receiver (ready.withTop { top with stack := stack }))
    cases chosen : callee kind method receiver (ready.withTop { top with stack := stack }) with
    | ok called later =>
        obtain rfl := same.1 called later chosen
        exact absurd (.receiver dynamic chosen) (never called)
    | error halt later =>
        obtain rfl := same.2 halt later chosen
        exact ⟨_, step_of_halt frames next due (calls.trans (bind_of_error chosen))⟩
  enters called selects := by
    cases selects with
    | static static => exact absurd static dynamic
    | receiver _ chosen =>
        have frames' := frames_withTop (frames_of_due frames due) { top with stack := stack }
        have moved : onTop (FrameM.advance length) (ready.withTop { top with stack := stack }) =
            .ok () (ready.withTop { top with bci := top.bci + length, stack := stack }) :=
          onTop_of_ok frames' rfl
        exact enters_of_callWith frames next due sized
          (calls.trans ((bind_of_ok chosen).trans (bind_of_ok moved)))

theorem hands_of_offers {arguments : List Value}
    (few : (Descriptor.paramTypes method.descriptor).length ≤ parameterLimit)
    (dynamic : kind ≠ .static) (offers : top.Offers false method.descriptor arguments) :
    ∃ caller, top.Passes kind method.descriptor length arguments caller ∧
      Hands machine (ready.withTop { top with stack := caller.stack }) (ready.withTop caller) top
        kind method arguments := by
  obtain ⟨object, rest, rfl, -⟩ := offers.exists_receiver
  obtain ⟨stack, passes, calls⟩ :=
    callWith_of_offers few (frames_of_due frames due) dynamic offers
  refine ⟨_, passes, ?_⟩
  cases object with
  | none => exact hands_of_null frames next due dynamic (calls.trans (bind_of_error rfl))
  | some receiver =>
      have sized := Descriptor.size_of_argumentTypes offers.types
      exact hands_of_receiver frames next due dynamic sized (calls.trans (bind_of_ok rfl))

end Step

/-- A step that executes an invoke instruction calls its method if that is due, and then what it
passes are exactly the arguments on top of the stack, in declared order and behind the receiver.
- A method that is not due is not called: an initializer starts, or the step halts with all frames
  as they were.
- An argument that is withheld, or a null receiver, is the fault of the step, which has then changed
  nothing but the stack of the caller.
- Otherwise the caller stands behind the instruction with what was below the arguments, and the
  method that runs gets them: a native one as a list, any other in the first variables of a frame
  that is at its start. -/
theorem step_passes_arguments (frames : machine.thread.frames = top :: below)
    (next : top.next? = some (.invoke kind index, length)) :
    ((∀ method ready, ¬ Due (machine.traced top) top kind index method ready) →
      step.Ends machine (fun _ later => machine.Starts later)
        fun _ later => later.thread.frames = top :: below) ∧
    ∀ method ready, Due (machine.traced top) top kind index method ready →
      Calls machine top below kind method length ready := by
  refine ⟨ends_step_of_not_due frames next, fun method ready due => ?_⟩
  have frames' := frames_of_due frames due
  refine ⟨frames', fun many => ?_, Frame.withholds_or_offers _ _ _, fun few flaw withheld => ?_,
    fun few arguments offers => ?_⟩
  · obtain ⟨fault, raised, cause⟩ := step_of_cause frames next due (callWith_of_many many)
    exact ⟨fault, raised, congrArg Cause.kind cause⟩
  · obtain ⟨cause, stack, stopped, same⟩ := callWith_of_withholds few frames' withheld
    obtain ⟨fault, raised, rfl⟩ := step_of_cause frames next due stopped
    exact ⟨fault, stack, raised, same⟩
  · by_cases static : kind = .static
    · rw [static] at offers
      exact hands_of_offers_static frames next due few static offers
    · rw [beq_eq_false_iff_ne.mpr static] at offers
      exact hands_of_offers frames next due few static offers

/-- The file of a class with a method `take(JI)V`, and a static method `run` that makes an instance
and calls `take` on it with 1 and 2. -/
def passerFile : List UInt8 :=
  [202, 254, 186, 190, 0, 0, 0, 52, 0, 12, 1, 0, 6, 80, 97, 115, 115, 101, 114, 7, 0, 1, 1, 0, 16,
    106, 97, 118, 97, 47, 108, 97, 110, 103, 47, 79, 98, 106, 101, 99, 116, 7, 0, 3, 1, 0, 4, 67,
    111, 100, 101, 1, 0, 4, 116, 97, 107, 101, 1, 0, 5, 40, 74, 73, 41, 86, 12, 0, 6, 0, 7, 10, 0,
    2, 0, 8, 1, 0, 3, 114, 117, 110, 1, 0, 3, 40, 41, 86, 0, 33, 0, 2, 0, 4, 0, 0, 0, 0, 0, 2, 0,
    9, 0, 10, 0, 11, 0, 1, 0, 5, 0, 0, 0, 21, 0, 4, 0, 0, 0, 0, 0, 9, 187, 0, 2, 10, 5, 183, 0, 9,
    177, 0, 0, 0, 0, 0, 1, 0, 6, 0, 7, 0, 1, 0, 5, 0, 0, 0, 13, 0, 0, 0, 4, 0, 0, 0, 1, 177, 0, 0,
    0, 0, 0, 0]

/-- The call of `take` is next. -/
@[irreducible] def passing : Machine :=
  let loaded := (blank .standard .empty (.empty 8388608)).withBuiltins.withFile "Passer" passerFile
  (loaded.during? "run" 16 [] 3).getD loaded

/-- The instance, the `long` and the `int` are taken off the stack, which is empty then, and are the
four variables of the frame of `take`. -/
theorem step_passes_arguments_passing :
    ∃ top below method ready caller frame, passing.thread.frames = top :: below ∧
      top.next? = some (.invoke .special 9, 3) ∧
      Due (passing.traced top) top .special 9 method ready ∧
      top.Passes .special method.descriptor 3 [.ref (some ⟨0, 0⟩), .long 1, .int 2] caller ∧
      caller.stack.slots = [] ∧ caller.bci = top.bci + 3 ∧
      frame.StartsWith method [.ref (some ⟨0, 0⟩), .long 1, .int 2] ∧
      step passing = .ok none ((ready.withTop caller).pushFrame frame) := by
  obtain ⟨stands, top, first, slots, c, holder, method, found, types, inner, code, locals, room⟩ :
      passing.thread.frames.head?.bind Frame.next? = some (.invoke .special 9, 3) ∧
      ∃ top ∈ passing.thread.frames.head?,
        top.stack.slots = [.int 2, .void, .long 1, .ref (some ⟨0, 0⟩)] ∧
        ∃ c ∈ top.method.owner.bind (passing.traced top).classOf?,
        ∃ method ∈ (Linking.resolveInvoke c.pool (9 : Nat) .special (some c)).answer?
          (passing.traced top), Descriptor.paramTypes method.descriptor = [.long, .int] ∧
            method.isNative = false ∧ (method.isAbstract = false ∧ method.hasCode = true) ∧
            method.body.maxLocals = 4 ∧
            let ready := (Linking.resolveInvoke c.pool (9 : Nat) .special (some c)).after
              (passing.traced top)
            ((ready.thread.depth - 1 + 1 : Nat) : Int) < ready.options.maxDepth := by
    decide +kernel
  obtain ⟨below, frames⟩ := List.head?_eq_some_iff.mp first
  have next : top.next? = some (.invoke .special 9, 3) := by
    rwa [frames, List.head?_cons, Option.bind_some] at stands
  have due : Due (passing.traced top) top .special 9 method _ :=
    ⟨c, _, holder, run_of_answer? found, rfl⟩
  have calls := (step_passes_arguments frames next).2 method _ due
  have few : (Descriptor.paramTypes method.descriptor).length ≤ 255 := by
    rw [types]
    decide
  have offers : top.Offers (InvokeKind.special == .static) method.descriptor
      [.ref (some ⟨0, 0⟩), .long 1, .int 2] :=
    ⟨by rw [Descriptor.argumentTypes, types]; rfl, [], slots⟩
  obtain ⟨caller, passes, hands⟩ := calls.passes few _ offers
  have enters := hands.enters method (.receiver (by decide) rfl)
  obtain ⟨frame, starts, stepped⟩ := enters.frame ⟨inner, code, by rw [locals]; decide, room⟩
  have left : caller.stack.slots = [] :=
    List.self_eq_append_right.mp (slots.symm.trans passes.slots)
  exact ⟨top, below, method, _, caller, frame, frames, next, due, passes, left,
    congrArg Frame.bci passes.same, starts, stepped⟩

end Exec

end Jvm
