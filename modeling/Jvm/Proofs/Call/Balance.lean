/-
# Jvm.Proofs.Call.Balance — a call leaves the call stack as it found it

A call from outside puts an entry frame on the call stack and executes instructions until that
frame has returned; before that it may run initializers in the same way. Whether the call answers
or halts, the call stack is afterwards the one that it was (`ends_run`): a run that succeeds ends
when the frame at its bottom returns, and a run that halts leaves its frames above those of the
caller, where the call drops them.
-/
import Jvm.Proofs.Machine.Session

namespace Jvm

set_option autoImplicit false

open Machine Exec

variable {before machine : Machine} {floor : List Frame}

/-! ## Running above a floor -/

/-- The frames of the floor are there, below any others. -/
def Machine.StandsOn (machine : Machine) (floor : List Frame) : Prop :=
  ∃ above, machine.thread.frames = above ++ floor

/-- A frame whose result does not go to the frame below: it answers to the outside, or it has none. -/
def Frame.IsClosed (frame : Frame) : Prop :=
  frame.isEntry = true ∨ frame.isEntry = false ∧ frame.method.result.stackType = .void

/-- A run to the floor ends with the floor, and with the answer of the entry frame. -/
theorem Exec.ends_runAbove_floor (result : Value) (fuel : Nat)
    (frames : machine.thread.frames = floor) :
    (runAbove floor.length result fuel).Ends machine
      (fun v later => later.thread.frames = floor ∧ v = result)
      fun _ later => later.StandsOn floor := by
  cases fuel with
  | zero => exact ⟨[], frames⟩
  | succ fuel =>
      refine ends_bind_thread ?_
      rw [if_neg (by rw [Thread.depth_eq_length, frames]; exact Nat.lt_irrefl _)]
      exact ends_pure ⟨frames, rfl⟩

theorem Exec.ends_runAbove {bottom : Frame} (closed : bottom.IsClosed)
    (result : Value) (fuel : Nat) (carries : bottom.Carries floor machine.thread.frames) :
    (runAbove floor.length result fuel).Ends machine
      (fun v later => later.thread.frames = floor ∧
        (bottom.isEntry = true → v.type = bottom.method.result.stackType))
      fun _ later => later.StandsOn floor := by
  induction fuel generalizing machine with
  | zero => exact carries.exists_append
  | succ fuel ih =>
      refine ends_bind_thread ?_
      rw [if_pos (by rw [Thread.depth_eq_length]; exact carries.length_lt)]
      refine (ends_step_carries carries).before (fun answer later ended => ?_)
        fun _ _ carries => carries.exists_append
      rcases ended with ⟨rfl, carries'⟩ | ⟨frame, departs⟩
      · exact ih carries'
      · have method : frame.method = bottom.method := departs.continues.method
        have isEntry : frame.isEntry = bottom.isEntry := departs.continues.isEntry
        cases departs.leaves with
        | @answers later v grows entry tag frames =>
            refine (ends_runAbove_floor v fuel frames).mono (fun w last ended => ?_)
              fun _ _ stands => stands
            exact ⟨ended.1, fun _ => by rw [ended.2, tag, method]⟩
        | returns grows inner void frames =>
            refine (ends_runAbove_floor result fuel frames).mono (fun w last ended => ?_)
              fun _ _ stands => stands
            exact ⟨ended.1, fun entry => absurd (entry.symm.trans (isEntry.symm.trans inner)) (by simp)⟩
        | hands grows inner valued =>
            rw [isEntry] at inner
            rw [method] at valued
            rcases closed with entry | ⟨-, void⟩
            · exact absurd (entry.symm.trans inner) (by simp)
            · exact absurd void valued

namespace Call

/-! ## The parts of a call -/

/-- Every initializer that has been started is finished when its class is ready. -/
theorem ends_initializeFully (fuel : Nat) (c : LinkedClass) (tries : Nat) (sourced : machine.Sourced)
    (frames : machine.thread.frames = floor) :
    (initializeFully fuel c tries).Ends machine
      (fun _ later => machine.Grows later ∧ later.thread.frames = floor)
      fun _ later => later.StandsOn floor := by
  induction tries generalizing machine with
  | zero => exact ⟨[], frames⟩
  | succ tries ih =>
      refine ends_bind_thread ?_
      refine (Initialization.ends_ensureReady c (Aside.refl machine)).before
        (fun ready later ends => ?_) fun _ _ aside => ⟨[], aside.frames.trans frames⟩
      cases ready with
      | true => exact ends_pure ⟨ends.toGrows, ends.frames.trans frames⟩
      | false =>
          obtain ⟨grown, d, method, aside, room, known, found, rfl⟩ := ends
          have void : method.result = .void := (aside.sourced sourced d known).initializer found
          have closed : ({ Frame.start method with initializing := some d.id } : Frame).IsClosed :=
            .inr ⟨rfl, congrArg BasicType.stackType void⟩
          have carries : ({ Frame.start method with initializing := some d.id } : Frame).Carries floor
              (grown.pushFrame { Frame.start method with initializing := some d.id }).thread.frames := by
            show Frame.Carries _ floor (_ :: grown.thread.frames)
            rw [aside.frames, frames]
            exact .bare (.refl _)
          have base : machine.thread.depth = floor.length := by
            rw [Thread.depth_eq_length, frames]
          rw [base]
          refine ((ends_runAbove closed .void fuel carries).and
            (upholds_runAbove (fun _ grows => grows) keeps_step_grows _ _ _ _ (Grows.refl _))).before
            (fun _ again ended => ?_) fun _ _ ended => ended.1
          have grows : machine.Grows again :=
            (aside.toGrows.trans (grows_pushFrame grown _)).trans ended.2
          refine (ih (grows.sourced sourced) ended.1.1).mono (fun _ later last => ?_)
            fun _ _ stands => stands
          exact ⟨grows.trans last.1, last.2⟩

/-- A native action of the right result gives a value of it. -/
theorem ends_native {native : Native} {result : BasicType} (fits : native.fits result = true)
    (arguments : List Value) :
    (native.run arguments).Ends machine
      (fun answer later => machine.Aside later ∧
        (answer.getD (if result = .void then .void else .unset)).type = result.stackType)
      fun _ later => machine.Aside later := by
  have keeps := keeps_native native arguments machine (Aside.refl machine)
  have answers : (native.run arguments).Ends machine
      (fun answer _ => (answer.getD (if result = .void then .void else .unset)).type =
        result.stackType) fun _ _ => True := by
    unfold Native.fits at fits
    split at fits
    · exact ends_pure rfl
    · exact (keeps_true _).before trivial (fun _ _ _ => ends_pure rfl) fun _ _ _ => trivial
    · refine (keeps_true _).before trivial (fun text _ _ => ?_) fun _ _ _ => trivial
      exact (keeps_true _).before trivial (fun _ _ _ => ends_pure rfl) fun _ _ _ => trivial
    · exact (keeps_true _).before trivial (fun _ _ _ => ends_pure rfl) fun _ _ _ => trivial
    · exact ends_pure rfl
    · exact ends_pure rfl
    · exact ends_pure rfl
    · cases fits
  exact (keeps.and answers).mono (fun _ _ ended => ended) fun _ _ ended => ended.1

theorem ends_runNative {method : Method} (sound : method.Sound) (arguments : List Value) :
    (runNative method arguments).Ends machine
      (fun v later => machine.Aside later ∧ v.type = method.result.stackType)
      fun _ later => machine.Aside later := by
  unfold runNative
  split
  · exact ends_throw (Aside.refl machine)
  · rename_i native bound
    exact (ends_native (sound.native native bound) arguments).bind fun answer later ended =>
      ends_pure ended

theorem ends_runReady (fuel : Nat) {method : Method} (sound : method.Sound)
    (arguments : List Value) (frames : machine.thread.frames = floor) :
    (runReady fuel method arguments).Ends machine
      (fun v later => later.thread.frames = floor ∧ v.type = method.result.stackType)
      fun _ later => later.StandsOn floor := by
  unfold runReady
  split
  · exact (ends_runNative sound arguments).mono
      (fun v later ended => ⟨ended.1.frames.trans frames, ended.2⟩)
      fun _ _ aside => ⟨[], aside.frames.trans frames⟩
  · split
    · exact ends_throw ⟨[], frames⟩
    · refine ends_bind_thread ?_
      refine ends_bind_ofHalt (fun callee made => ?_) fun _ _ => ⟨[], frames⟩
      obtain ⟨locals, rfl⟩ := Frame.withArguments_eq_ok made
      have base : machine.thread.depth = floor.length := by
        rw [Thread.depth_eq_length, frames]
      rw [base]
      let entry : Frame := { Frame.withLocals method locals with isEntry := true }
      have pushing : (Exec.pushFrame entry).Ends machine
          (fun _ later => later.thread.frames = entry :: floor) fun _ later => later.StandsOn floor :=
        ends_pushFrame (fun _ => congrArg (entry :: ·) frames) fun _ => ⟨[], frames⟩
      refine pushing.bind fun _ pushed framesPushed => ?_
      have closed : entry.IsClosed := .inl rfl
      have carries : entry.Carries floor pushed.thread.frames := by
        rw [framesPushed]
        exact .bare (.refl _)
      exact (ends_runAbove closed .void fuel carries).mono
        (fun v later ended => ⟨ended.1, ended.2 rfl⟩) fun _ _ stands => stands

theorem ends_runChecked (fuel : Nat) {method : Method} (sound : method.Sound)
    (arguments : List Value) (sourced : machine.Sourced) (frames : machine.thread.frames = floor) :
    (runChecked fuel method arguments).Ends machine
      (fun v later => later.thread.frames = floor ∧ v.type = method.result.stackType)
      fun _ later => later.StandsOn floor := by
  have here : machine.StandsOn floor := ⟨[], frames⟩
  refine ends_bind_ofCause (fun _ _ => ?_) fun _ _ => here
  split
  · exact ends_throw here
  · refine ends_bind_classOf (fun c _ => ?_) fun _ => here
    exact (ends_initializeFully fuel c fuel sourced frames).bind fun _ later ended =>
      ends_runReady fuel sound arguments ended.2

/-! ## Unwinding -/

theorem frames_dropFrame (thread : Thread) : thread.dropFrame.frames = thread.frames.tail := by
  unfold Thread.dropFrame
  split
  · rename_i none
    rw [none]
    rfl
  · rename_i frame rest frames
    have same : (thread.abandon frame.initializing).frames = thread.frames := by
      unfold Thread.abandon
      split <;> rfl
    show (thread.abandon frame.initializing).frames.tail = _
    rw [same]

theorem frames_dropFrames (count : Nat) (thread : Thread) :
    (thread.dropFrames count).frames = thread.frames.drop count := by
  induction count generalizing thread with
  | zero => rfl
  | succ count ih =>
      show (thread.dropFrame.dropFrames count).frames = _
      rw [ih, frames_dropFrame, List.drop_tail]

/-- What stands on the floor is dropped to the floor. -/
theorem frames_unwindTo (stands : machine.StandsOn floor) :
    (machine.thread.unwindTo floor.length).frames = floor := by
  obtain ⟨above, frames⟩ := stands
  unfold Thread.unwindTo
  rw [frames_dropFrames, Thread.depth_eq_length, frames, List.length_append, Nat.add_sub_cancel,
    List.drop_left]

/-! ## A call -/

/-- Whether a call answers or halts, the call stack and the state of the thread are afterwards what
they were. An answer has the type of the result of the method. -/
theorem ends_run (fuel : Nat) {method : Method} (sound : method.Sound) (arguments : List Value)
    (sourced : machine.Sourced) :
    (run fuel method arguments).Ends machine
      (fun v later => later.thread.calls = machine.thread.calls ∧
        later.thread.state = machine.thread.state ∧ v.type = method.result.stackType)
      fun _ later => later.thread.calls = machine.thread.calls ∧
        later.thread.state = machine.thread.state := by
  have base : machine.thread.depth = machine.thread.frames.length := machine.thread.depth_eq_length
  refine ends_bind_thread ?_
  refine ends_bind_modify ?_
  have sourced' : (begun machine).Sourced := sourced
  refine (ends_onHalt ((ends_runChecked fuel sound arguments sourced' rfl).mono
    (fun _ _ done => done) fun _ later stands => ?_)).bind fun v later done => ?_
  · refine ⟨CallStack.ext ?_, rfl⟩
    show (later.thread.unwindTo machine.thread.depth).frames = machine.thread.frames
    rw [base]
    exact frames_unwindTo stands
  · exact ends_bind_modify (ends_pure ⟨CallStack.ext done.1, rfl, done.2⟩)

/-- No part of a call makes the call stack deeper than the options allow. -/
theorem kept_bounded : Kept Bounded Bounded where
  weaken _ bounded := bounded
  state _ _ bounded := bounded
  ready c machine _ bounded := by
    refine (Initialization.ends_ensureReady c (Aside.refl machine)).mono (fun ready later ends => ?_)
      fun _ later aside => aside.bounded bounded
    cases ready with
    | true => exact Aside.bounded ends bounded
    | false => exact ends.bounded
  step := keeps_step_bounded
  native native arguments machine bounded :=
    (keeps_native native arguments machine (Aside.refl machine)).mono
      (fun _ _ aside => aside.bounded bounded) fun _ _ aside => aside.bounded bounded
  enter frame _ _ machine _ bounded := by
    refine ends_pushFrame (fun room => ?_) fun _ => bounded
    show ((machine.thread.depth + 1 : Nat) : Int) ≤ machine.options.maxDepth
    omega
  unwind machine depth state bounded := by
    have shallower : (machine.thread.unwindTo depth).depth ≤ machine.thread.depth := by
      rw [Thread.depth_eq_length, Thread.depth_eq_length]
      unfold Thread.unwindTo
      rw [frames_dropFrames, List.length_drop]
      exact Nat.sub_le _ _
    show ((machine.thread.unwindTo depth).depth : Int) ≤ machine.options.maxDepth
    have room : (machine.thread.depth : Int) ≤ machine.options.maxDepth := bounded
    omega

/-- A call is balanced. Whether it answers or halts, the call stack and the state of the thread are
afterwards what they were, and an answer has the type that the descriptor of the method declares.
Wherever the call passes, the depth is the number of the frames and is within its limit. -/
theorem run_balanced {method : Method} {arguments : List Value} (sourced : machine.Sourced)
    (declared : ∃ c ∈ machine.classes, method ∈ c.methods) :
    (∀ fuel : Nat, (run fuel method arguments).Ends machine
      (fun v later => later.thread.calls = machine.thread.calls ∧
        later.thread.state = machine.thread.state ∧
        v.type = (Descriptor.resultType method.descriptor).stackType)
      fun _ later => later.thread.calls = machine.thread.calls ∧
        later.thread.state = machine.thread.state) ∧
    ∀ passed, Passes method arguments machine passed →
      passed.thread.depth = passed.thread.frames.length ∧
        ((machine.thread.depth : Int) ≤ machine.options.maxDepth →
          (passed.thread.depth : Int) ≤ passed.options.maxDepth) := by
  obtain ⟨c, known, member⟩ := declared
  have sound : method.Sound := (sourced c known).method member
  refine ⟨fun fuel => ?_, fun passed passes => ⟨passed.thread.depth_eq_length, fun bounded => ?_⟩⟩
  · rw [← sound.result]
    exact ends_run fuel sound arguments sourced
  · exact kept_bounded.passes passes bounded

theorem run_balanced_addFive :
    adding.Sourced ∧ ∃ method : Method, method.name = "addFive" ∧
      (∃ c ∈ adding.classes, method ∈ c.methods) ∧
      (∀ fuel : Nat, (run fuel method [.int 37]).Ends adding
        (fun v later => later.thread.calls = adding.thread.calls ∧
          later.thread.state = adding.thread.state ∧
          v.type = (Descriptor.resultType method.descriptor).stackType)
        fun _ later => later.thread.calls = adding.thread.calls ∧
          later.thread.state = adding.thread.state) ∧
      ∀ passed, Passes method [.int 37] adding passed →
        passed.thread.depth = passed.thread.frames.length ∧
          ((adding.thread.depth : Int) ≤ adding.options.maxDepth →
            (passed.thread.depth : Int) ≤ passed.options.maxDepth) := by
  have sourced : adding.Sourced := session_adding.sourced
  obtain ⟨c, known, method, member, name⟩ :
      ∃ c ∈ adding.classes, ∃ method ∈ c.methods, method.name = "addFive" := by decide +kernel
  have declared : ∃ c ∈ adding.classes, method ∈ c.methods := ⟨c, known, member⟩
  exact ⟨sourced, method, name, declared, run_balanced sourced declared⟩

end Call

end Jvm
