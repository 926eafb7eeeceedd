/-
# Jvm.Proofs.Machine.Isolation — frames do not touch each other

A step changes no frame below the one that it executes, but for the result that a return pushes on
the frame below it. So a caller finds its own frame again when a method that it has called is
done: an `Invocation` leads from the state before a call instruction to the state in which the
caller is on top again, through as many steps, calls and initializers as it takes, and
`frames_isolated` says that the caller then stands behind the instruction, with the result in the
place of the receiver and the arguments.
-/
import Jvm.Proofs.Machine.Session

namespace Jvm

set_option autoImplicit false

namespace Machine

/-- A call instruction of the top frame has come to its end, and its caller is on top again. What
was called is a native method, or a method whose frame has run and returned. Before that, the
instruction may have found that a class is not ready: then the initializer has run, and the same
instruction was executed again. -/
inductive Invocation : Machine → Machine → Prop
  | direct {first last : Machine} (ran : Exec.step first = .ok none last)
      (back : last.thread.depth = first.thread.depth) : Invocation first last
  | called {first entered last : Machine} {callee : Frame} {rest : List Frame}
      (ran : Exec.step first = .ok none entered) (frames : entered.thread.frames = callee :: rest)
      (called : callee.initializing = none)
      (deeper : entered.thread.depth = first.thread.depth + 1)
      (runs : Runs first.thread.depth entered last)
      (back : last.thread.depth = first.thread.depth) : Invocation first last
  | initialized {first started again last : Machine} {initializer : Frame} {rest : List Frame}
      {id : ClassId} (ran : Exec.step first = .ok none started)
      (frames : started.thread.frames = initializer :: rest)
      (initializes : initializer.initializing = some id)
      (deeper : started.thread.depth = first.thread.depth + 1)
      (runs : Runs first.thread.depth started again)
      (back : again.thread.depth = first.thread.depth) (rest : Invocation again last) :
      Invocation first last

/-- The value that a call of a method with the arguments gives: what the native action answers, or
what the return instruction takes off the stack of the frame that executes the method. -/
inductive Gives (method : Method) (arguments : List Value) (last : Machine) : Value → Prop
  | native {native : Native} {asked answered : Machine} {answer : Option Value}
      (bound : method.native = some native)
      (ran : native.run arguments asked = .ok answer answered) :
      Gives method arguments last (answer.getD .void)
  | returned {callee frame : Frame} {below : List Frame} {returning : Machine} {length : Nat}
      {v : Value} (made : Frame.withArguments method arguments = .ok callee)
      (continues : callee.Continues frame) (frames : returning.thread.frames = frame :: below)
      (next : frame.next? = some (.ret method.result.stackType, length))
      (ran : Exec.step returning = .ok none last)
      (pop : method.result.stackType ≠ .void →
        ∃ popped, frame.stack.pop method.result.stackType = .ok (v, popped)) :
      Gives method arguments last v

end Machine

namespace Exec

open Machine

variable {machine : Machine} {top : Frame} {below : List Frame}

/-- A step of a call instruction. -/
theorem ends_step_invoke {kind : InvokeKind} {index length : Nat}
    (frames : machine.thread.frames = top :: below)
    (next : top.next? = some (.invoke kind index, length)) :
    step.Ends machine (fun _ later => machine.CallOutcome top below kind length later)
      fun _ later => machine.Stays top below later := by
  refine ends_step frames (fun _ steady => .of_aside steady.toAside frames)
    fun instr length' traced next' steady => ?_
  obtain ⟨rfl, rfl⟩ : .invoke kind index = instr ∧ length = length' := by
    simpa using next.symm.trans next'
  exact (ends_invoke kind index length steady.toAside frames).bind fun _ _ called =>
    ends_pure called

/-- The frames below the one that executes an instruction stay as they are, but for the result that
a return pushes on the first of them. -/
theorem ends_step_below (frames : machine.thread.frames = top :: below) :
    step.Ends machine
      (fun _ later => (∃ above, later.thread.frames = above ++ below) ∨
        ∃ (type : BasicType) (length : Nat) (v : Value) (popped pushed : OperandStack)
          (caller : Frame) (rest : List Frame),
          top.next? = some (.ret type, length) ∧ type ≠ .void ∧ top.isEntry = false ∧
          top.stack.pop type = .ok (v, popped) ∧ below = caller :: rest ∧
          later.thread.frames = { caller with stack := pushed } :: rest ∧
          pushed.slots = OperandStack.slotsOf v ++ caller.stack.slots ∧
          pushed.capacity = caller.stack.capacity)
      fun _ later => ∃ above, later.thread.frames = above ++ below := by
  refine (ends_step_outcome frames).mono (fun answer later ended => ?_) fun _ later stays => ?_
  · obtain ⟨instr, length, next, outcome⟩ := ended
    cases outcome with
    | stays stays =>
        obtain ⟨frame, -, frames'⟩ := stays.frames
        exact .inl ⟨[frame], frames'⟩
    | starts starts =>
        obtain ⟨grown, c, method, aside, room, known, found, rfl⟩ := starts
        refine .inl ⟨[{ Frame.start method with initializing := some c.id }, top], ?_⟩
        show _ :: grown.thread.frames = _
        rw [aside.frames, frames]
        rfl
    | @enters grown method arguments callee stays room declared made =>
        obtain ⟨frame, -, frames'⟩ := stays.frames
        refine .inl ⟨[callee, frame], ?_⟩
        show callee :: grown.thread.frames = _
        rw [frames']
        rfl
    | leaves returns leaves =>
        cases leaves with
        | answers grows entry tag frames' => exact .inl ⟨[], frames'⟩
        | returns grows inner void frames' => exact .inl ⟨[], frames'⟩
        | @hands later v caller rest popped pushed grows inner valued pop cut push frames' =>
            obtain ⟨-, -, rfl⟩ := OperandStack.push_eq_ok.mp push
            rw [returns] at next
            exact .inr ⟨_, length, v, popped, _, caller, rest, next, valued, inner, pop, cut,
              frames', rfl, rfl⟩
  · obtain ⟨frame, -, frames'⟩ := stays.frames
    exact ⟨[frame], frames'⟩

end Exec

namespace Machine

variable {first last : Machine} {top : Frame} {below : List Frame}

/-- An initializer returns nothing to the frame that it interrupted. -/
theorem frames_after_initializer {started again : Machine} (sourced : first.Sourced)
    (frames : first.thread.frames = top :: below) (starts : first.Starts started)
    (runs : Runs first.thread.depth started again)
    (back : again.thread.depth = first.thread.depth) : again.thread.frames = top :: below := by
  obtain ⟨grown, c, method, aside, room, known, found, rfl⟩ := starts
  have void : method.result = .void := (aside.sourced sourced c known).initializer found
  have floor : first.thread.depth = (top :: below).length := by
    rw [Thread.depth_eq_length, frames]
  rw [floor] at runs back
  have carries : ({ Frame.start method with initializing := some c.id } : Frame).Carries
      (top :: below) (grown.thread.frames.cons { Frame.start method with initializing := some c.id }) := by
    rw [aside.frames, frames]
    exact .bare (.refl _)
  obtain ⟨middle, frame, answer, -, departs⟩ := runs.departs carries back
  have same : frame.method = method := departs.continues.method
  have inner : frame.isEntry = false := departs.continues.isEntry
  cases departs.leaves with
  | answers grows entry => exact absurd (entry.symm.trans inner) (by simp)
  | returns grows inner void frames => exact frames
  | hands grows inner valued => exact absurd (by rw [same, void]; rfl) valued

theorem depth_of_frames {machine : Machine} (frames : machine.thread.frames = top :: below) :
    machine.thread.depth = below.length + 1 := by
  rw [Thread.depth_eq_length, frames, List.length_cons]

theorem Starts.depth (starts : first.Starts last) :
    last.thread.depth = first.thread.depth + 1 := by
  obtain ⟨grown, c, method, aside, room, known, found, rfl⟩ := starts
  show grown.thread.depth + 1 = _
  rw [Thread.depth_eq_length, Thread.depth_eq_length, aside.frames]

/-- A method with a frame of its own has returned to its caller. -/
theorem frames_after_return {method : Method} {arguments : List Value} {caller callee : Frame}
    {entered : Machine} (made : Frame.withArguments method arguments = .ok callee)
    (frames : entered.thread.frames = callee :: caller :: below)
    (runs : Runs (caller :: below).length entered last)
    (back : last.thread.depth = (caller :: below).length) :
    ∃ (v : Value) (stack : OperandStack), Gives method arguments last v ∧
      last.thread.frames = { caller with stack := stack } :: below ∧
      stack.slots = method.resultSlots v ++ caller.stack.slots ∧
      stack.capacity = caller.stack.capacity := by
  obtain ⟨locals, rfl⟩ := Frame.withArguments_eq_ok made
  have carries : (Frame.withLocals method locals).Carries (caller :: below)
      entered.thread.frames := by
    rw [frames]
    exact .bare (.refl _)
  obtain ⟨middle, frame, answer, ran, departs⟩ := runs.departs carries back
  have same : frame.method = method := departs.continues.method
  have inner : frame.isEntry = false := departs.continues.isEntry
  obtain ⟨length, next⟩ := departs.next
  rw [same] at next
  have leaves := departs.leaves
  cases leaves with
  | answers grows entry => exact absurd (entry.symm.trans inner) (by simp)
  | returns grows _ void frames' =>
      rw [same] at void
      refine ⟨.void, caller.stack, ?_, frames', by rw [Method.resultSlots, if_pos void]; rfl, rfl⟩
      exact .returned made departs.continues departs.frames next ran fun valued => absurd void valued
  | @hands _ v caller' rest popped pushed grows _ valued pop cut push frames' =>
      obtain ⟨rfl, rfl⟩ := List.cons.inj cut
      obtain ⟨-, -, rfl⟩ := OperandStack.push_eq_ok.mp push
      rw [same] at valued pop
      refine ⟨v, _, ?_, frames', by rw [Method.resultSlots, if_neg valued]; rfl, rfl⟩
      exact .returned made departs.continues departs.frames next ran fun _ => ⟨popped, pop⟩

/-- The caller is on top again, behind the instruction, with the result in the place of the receiver
and the arguments. -/
theorem frames_after_invocation {kind : InvokeKind} {index length : Nat}
    (invocation : Invocation first last) (sourced : first.Sourced)
    (frames : first.thread.frames = top :: below)
    (next : top.next? = some (.invoke kind index, length)) :
    ∃ (method : Method) (arguments rest : List Value) (v : Value) (stack : OperandStack),
      Gives method arguments last v ∧
      top.stack.slots = arguments.reverse.flatMap OperandStack.slotsOf ++ rest ∧
      arguments.map Value.type = (if kind = .static then [] else [.object]) ++
        (Descriptor.paramTypes method.descriptor).map BasicType.stackType ∧
      last.thread.frames = { top with bci := top.bci + length, stack := stack } :: below ∧
      stack.slots = method.resultSlots v ++ rest ∧ stack.capacity = top.stack.capacity := by
  induction invocation with
  | @direct first last ran back =>
      have depth := depth_of_frames frames
      cases (Exec.ends_step_invoke frames next).of_ok ran with
      | starts starts =>
          rw [starts.depth] at back
          omega
      | native passes bound asks ran grows frames' capacity slots =>
          exact ⟨_, _, _, _, _, .native bound ran, passes.slots, passes.types,
            by rw [frames', passes.same], slots, capacity.trans passes.capacity⟩
      | @enters grown _ _ _ callee passes grows frames' =>
          have deep : (grown.pushFrame callee).thread.depth = grown.thread.depth + 1 := rfl
          rw [deep, depth_of_frames frames'] at back
          omega
  | @called first entered last callee rest ran top' called deeper runs back =>
      have depth := depth_of_frames frames
      cases (Exec.ends_step_invoke frames next).of_ok ran with
      | starts starts =>
          obtain ⟨grown, c, method, aside, room, known, found, rfl⟩ := starts
          obtain ⟨rfl, -⟩ := List.cons.inj top'
          cases called
      | native passes bound asks ran grows frames' =>
          rw [depth_of_frames frames'] at deeper
          omega
      | @enters grown _ _ caller callee' passes grows frames' room declared made =>
          rw [depth] at runs back
          have framesEntered : (grown.pushFrame callee').thread.frames =
              callee' :: caller :: below := congrArg (callee' :: ·) frames'
          obtain ⟨v, stack, gives, framesBack, slots, capacity⟩ :=
            frames_after_return made framesEntered runs back
          exact ⟨_, _, _, v, stack, gives, passes.slots, passes.types,
            by rw [framesBack, passes.same], slots, capacity.trans passes.capacity⟩
  | @initialized first started again last initializer rest id ran top' initializes deeper runs back
      later ih =>
      have depth := depth_of_frames frames
      cases (Exec.ends_step_invoke frames next).of_ok ran with
      | starts starts =>
          have grows := starts.grows.trans runs.grows
          exact ih (grows.sourced sourced)
            (frames_after_initializer sourced frames starts runs back)
      | native passes bound asks ran grows frames' =>
          rw [depth_of_frames frames'] at deeper
          omega
      | @enters grown _ _ caller callee' passes grows frames' room declared made =>
          obtain ⟨locals, rfl⟩ := Frame.withArguments_eq_ok made
          obtain ⟨rfl, -⟩ := List.cons.inj top'
          cases initializes

/-- Frames are isolated. A step leaves the frames below the one that it executes alone, but for the
result that a return pushes on the first of them; and a caller whose call instruction has come to
its end has only the result in the place of the receiver and the arguments, and stands behind the
instruction. -/
theorem frames_isolated (frames : first.thread.frames = top :: below) :
    Exec.step.Ends first
      (fun _ later => (∃ above, later.thread.frames = above ++ below) ∨
        ∃ (type : BasicType) (length : Nat) (v : Value) (popped pushed : OperandStack)
          (caller : Frame) (rest : List Frame),
          top.next? = some (.ret type, length) ∧ type ≠ .void ∧ top.isEntry = false ∧
          top.stack.pop type = .ok (v, popped) ∧ below = caller :: rest ∧
          later.thread.frames = { caller with stack := pushed } :: rest ∧
          pushed.slots = OperandStack.slotsOf v ++ caller.stack.slots ∧
          pushed.capacity = caller.stack.capacity)
      (fun _ later => ∃ above, later.thread.frames = above ++ below) ∧
    ∀ (kind : InvokeKind) (index length : Nat), first.Sourced →
      top.next? = some (.invoke kind index, length) → Invocation first last →
      ∃ (method : Method) (arguments rest : List Value) (v : Value) (stack : OperandStack),
        Gives method arguments last v ∧
        top.stack.slots = arguments.reverse.flatMap OperandStack.slotsOf ++ rest ∧
        arguments.map Value.type = (if kind = .static then [] else [.object]) ++
          (Descriptor.paramTypes method.descriptor).map BasicType.stackType ∧
        last.thread.frames = { top with bci := top.bci + length, stack := stack } :: below ∧
        stack.slots = method.resultSlots v ++ rest ∧ stack.capacity = top.stack.capacity :=
  ⟨Exec.ends_step_below frames, fun _ _ _ sourced next invocation =>
    frames_after_invocation invocation sourced frames next⟩

/-! ## A call of `add` -/

/-- The machine after a number of steps. -/
def stepped (machine : Machine) : Nat → Machine
  | 0 => machine
  | count + 1 => Exec.step.after (machine.stepped count)

/-- The next step neither halts nor answers. -/
def stepsOn (machine : Machine) : Bool :=
  match Exec.step machine with
  | .ok none _ => true
  | _ => false

theorem step_of_stepsOn {machine : Machine} (on : machine.stepsOn = true) :
    Exec.step machine = .ok none (Exec.step.after machine) := by
  unfold stepsOn at on
  unfold Exec.after
  split at on
  · rename_i ran
    rw [ran]
  · cases on

/-- Steps that all start above a base are a run. -/
theorem runs_stepped (machine : Machine) (base count : Nat)
    (on : ∀ k < count, (machine.stepped k).stepsOn = true ∧ base < (machine.stepped k).thread.depth) :
    Runs base machine (machine.stepped count) := by
  induction count with
  | zero => exact .refl
  | succ count ih =>
      have before : ∀ k < count,
          (machine.stepped k).stepsOn = true ∧ base < (machine.stepped k).thread.depth :=
        fun k below => on k (Nat.lt_succ_of_lt below)
      obtain ⟨here, deep⟩ := on count (Nat.lt_succ_self count)
      exact .step (ih before) deep (step_of_stepsOn here)

/-- A run goes the way of the steps. -/
theorem Runs.exists_stepped {base : Nat} {first last : Machine} (runs : Runs base first last) :
    ∃ count, last = first.stepped count ∧ ∀ k < count, base < (first.stepped k).thread.depth := by
  induction runs with
  | refl => exact ⟨0, rfl, fun k below => absurd below (Nat.not_lt_zero k)⟩
  | step runs deep ran ih =>
      obtain ⟨count, rfl, deeper⟩ := ih
      refine ⟨count + 1, ?_, fun k below => ?_⟩
      · show _ = Exec.step.after _
        unfold Exec.after
        rw [ran]
      · rcases Nat.lt_succ_iff_lt_or_eq.mp below with earlier | rfl
        · exact deeper k earlier
        · exact deep

theorem grows_stepped (machine : Machine) (count : Nat) : machine.Grows (machine.stepped count) := by
  induction count with
  | zero => exact Grows.refl machine
  | succ count ih => exact Exec.Keeps.after Exec.keeps_step_grows ih

/-- The index and length of the static call instruction at which the top frame stands. -/
def staticCall? (machine : Machine) : Option (Nat × Nat) :=
  match machine.thread.frames.head?.bind Frame.next? with
  | some (.invoke .static index, length) => some (index, length)
  | _ => none

theorem next_of_staticCall? {machine : Machine} {index length : Nat}
    (calls : machine.staticCall? = some (index, length)) :
    ∃ top below, machine.thread.frames = top :: below ∧
      top.next? = some (.invoke .static index, length) := by
  unfold staticCall? at calls
  split at calls
  · rename_i next
    obtain ⟨rfl, rfl⟩ : _ ∧ _ := by simpa using calls
    cases frames : machine.thread.frames with
    | nil => simp [frames] at next
    | cons top below =>
        rw [frames] at next
        exact ⟨top, below, rfl, next⟩
  · cases calls

/-- A call that enters a frame, and is back after a number of steps above it. -/
theorem invocation_stepped {machine : Machine} {count : Nat} (on : machine.stepsOn = true)
    (enters : (machine.stepped 1).thread.frames.head?.map Frame.initializing = some none)
    (within : ∀ k < count, ((machine.stepped 1).stepped k).stepsOn = true ∧
      machine.thread.depth < ((machine.stepped 1).stepped k).thread.depth)
    (deeper : (machine.stepped 1).thread.depth = machine.thread.depth + 1)
    (back : ((machine.stepped 1).stepped count).thread.depth = machine.thread.depth) :
    Invocation machine ((machine.stepped 1).stepped count) := by
  cases frames : (machine.stepped 1).thread.frames with
  | nil => simp [frames] at enters
  | cons callee rest =>
      have called : callee.initializing = none := by simpa [frames] using enters
      exact .called (step_of_stepsOn on) frames called deeper (runs_stepped _ _ count within) back

/-- Inside of `addFive`, before it calls `add`. -/
def callingAdd : Machine :=
  match (adding.classes.flatMap (·.methods)).find? (·.name == "addFive") with
  | none => adding
  | some method =>
      match Frame.withArguments method [.int 37] with
      | .error _ => adding
      | .ok frame => (adding.pushFrame { frame with isEntry := true }).stepped 2

theorem sourced_callingAdd : callingAdd.Sourced := by
  have sourced : adding.Sourced := session_adding.sourced
  unfold callingAdd
  split
  · exact sourced
  · split
    · exact sourced
    · exact ((grows_pushFrame adding _).trans (grows_stepped _ 2)).sourced sourced

theorem frames_isolated_add :
    ∃ top below, callingAdd.thread.frames = top :: below ∧ callingAdd.Sourced ∧
      top.next? = some (.invoke .static 11, 3) ∧
      Invocation callingAdd ((callingAdd.stepped 1).stepped 4) ∧
      ∃ (method : Method) (arguments rest : List Value) (v : Value) (stack : OperandStack),
        Gives method arguments ((callingAdd.stepped 1).stepped 4) v ∧
        top.stack.slots = arguments.reverse.flatMap OperandStack.slotsOf ++ rest ∧
        arguments.map Value.type = (Descriptor.paramTypes method.descriptor).map BasicType.stackType ∧
        ((callingAdd.stepped 1).stepped 4).thread.frames =
          { top with bci := top.bci + 3, stack := stack } :: below ∧
        stack.slots = method.resultSlots v ++ rest ∧ stack.capacity = top.stack.capacity := by
  have stands : callingAdd.staticCall? = some (11, 3) := by decide +kernel
  obtain ⟨top, below, frames, next⟩ := next_of_staticCall? stands
  have invocation : Invocation callingAdd ((callingAdd.stepped 1).stepped 4) :=
    invocation_stepped (by decide +kernel) (by decide +kernel) (by decide +kernel)
      (by decide +kernel) (by decide +kernel)
  exact ⟨top, below, frames, sourced_callingAdd, next, invocation,
    (frames_isolated frames).2 .static 11 3 sourced_callingAdd next invocation⟩

end Machine

end Jvm
