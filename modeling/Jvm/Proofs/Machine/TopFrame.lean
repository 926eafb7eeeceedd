/-
# Jvm.Proofs.Machine.TopFrame — actions on the top frame

An action on the top frame replaces it and leaves the frames below alone. As long as a frame
stays on top, whatever the machine does, `before.Stays top below` holds: the frames below are as
they were, and the top one is the same execution as before.

Asking for a class to be ready is the other way to change the call stack without returning: it
leaves the stack alone or puts the frame of an initializer on it (`Starts`).
-/
import Jvm.Machine.Step
import Jvm.Proofs.Frame.Activation
import Jvm.Proofs.Machine.Growth

namespace Jvm

set_option autoImplicit false

namespace Machine

/-- The machine with another frame in the place of the top one. -/
def withTop (machine : Machine) (frame : Frame) : Machine := machine.popFrame.pushFrame frame

theorem frames_withTop {machine : Machine} {top : Frame} {below : List Frame}
    (frames : machine.thread.frames = top :: below) (frame : Frame) :
    (machine.withTop frame).thread.frames = frame :: below := by
  show frame :: machine.thread.frames.tail = frame :: below
  rw [frames, List.tail_cons]

theorem grows_withTop (machine : Machine) (frame : Frame) : machine.Grows (machine.withTop frame) :=
  (Grows.refl machine).step rfl rfl rfl rfl rfl rfl

/-- The frames below are as they were, and the top one is the same execution. -/
structure Stays (before : Machine) (top : Frame) (below : List Frame) (later : Machine) : Prop where
  grows : before.Grows later
  frames : ∃ frame, top.Continues frame ∧ later.thread.frames = frame :: below

variable {before machine : Machine} {top : Frame} {below : List Frame}

theorem Stays.of_aside (aside : before.Aside machine) (frames : before.thread.frames = top :: below) :
    before.Stays top below machine :=
  ⟨aside.toGrows, top, .refl top, aside.frames.trans frames⟩

theorem Stays.aside {later : Machine} (stays : before.Stays top below machine)
    (aside : machine.Aside later) : before.Stays top below later := by
  obtain ⟨frame, continues, frames⟩ := stays.frames
  exact ⟨stays.grows.trans aside.toGrows, frame, continues, aside.frames.trans frames⟩

theorem Stays.withTop {frame later : Frame} (grows : before.Grows machine)
    (frames : machine.thread.frames = frame :: below) (continues : top.Continues later) :
    before.Stays top below (machine.withTop later) :=
  ⟨grows.trans (grows_withTop machine later), later, continues, frames_withTop frames later⟩

/-- The frame of an initializer has been put on top of the frames. -/
def Starts (before later : Machine) : Prop :=
  ∃ (grown : Machine) (c : LinkedClass) (method : Method), before.Aside grown ∧
    grown.thread.depth < grown.options.maxDepth ∧ c ∈ grown.classes ∧
    c.initializer? = some method ∧
    later = grown.pushFrame { Frame.start method with initializing := some c.id }

theorem Starts.after_aside {middle later : Machine} (aside : before.Aside middle)
    (starts : middle.Starts later) : before.Starts later := by
  obtain ⟨grown, c, method, grows, room, known, found, rfl⟩ := starts
  exact ⟨grown, c, method, aside.trans grows, room, known, found, rfl⟩

end Machine

namespace Exec

open Machine

variable {α β : Type} {before machine : Machine} {top : Frame} {below : List Frame}

section OnTop

variable {action : FrameM α} {Stopped : Halt → Machine → Prop}

theorem onTop_of_nil (frames : machine.thread.frames = []) :
    onTop action machine = .error (.violation .noFrame) machine := by
  unfold onTop
  rw [frames]

theorem onTop_of_ok (frames : machine.thread.frames = top :: below) {v : α} {frame : Frame}
    (run : action top = .ok v frame) : onTop action machine = .ok v (machine.withTop frame) := by
  unfold onTop
  rw [frames]
  dsimp only
  rw [run]
  rfl

theorem onTop_of_error (frames : machine.thread.frames = top :: below) {halt : Halt} {frame : Frame}
    (run : action top = .error halt frame) :
    onTop action machine = .error halt (machine.withTop frame) := by
  unfold onTop
  rw [frames]
  dsimp only
  rw [run]
  rfl

theorem ends_onTop_nil {Done : α → Machine → Prop} (frames : machine.thread.frames = [])
    (stopped : Stopped (.violation .noFrame) machine) : (onTop action).Ends machine Done Stopped := by
  unfold Ends
  rw [onTop_of_nil frames]
  exact stopped

theorem ends_onTop {Done : α → Machine → Prop} (frames : machine.thread.frames = top :: below)
    (done : ∀ v frame, action top = .ok v frame → Done v (machine.withTop frame))
    (stopped : ∀ halt frame, action top = .error halt frame →
      Stopped halt (machine.withTop frame)) :
    (onTop action).Ends machine Done Stopped := by
  unfold Ends
  cases run : action top with
  | ok v frame =>
      rw [onTop_of_ok frames run]
      exact done v frame run
  | error halt frame =>
      rw [onTop_of_error frames run]
      exact stopped halt frame run

theorem ends_bind_onTop {next : α → Exec β} {Done : β → Machine → Prop}
    (frames : machine.thread.frames = top :: below)
    (done : ∀ v frame, action top = .ok v frame →
      (next v).Ends (machine.withTop frame) Done Stopped)
    (stopped : ∀ halt frame, action top = .error halt frame →
      Stopped halt (machine.withTop frame)) :
    (onTop action >>= next).Ends machine Done Stopped :=
  (ends_onTop frames done stopped).bind fun _ _ rest => rest

theorem keeps_onTop (continues : FrameM.Continues action) :
    Keeps (before.Stays top below) (onTop action) := by
  intro machine stays
  obtain ⟨frame, same, frames⟩ := stays.frames
  exact ends_onTop frames
    (fun _ _ run => .withTop stays.grows frames (same.trans (continues.of_ok run)))
    fun _ _ run => .withTop stays.grows frames (same.trans (continues.of_error run))

end OnTop

/-- An action beside the call stack. -/
theorem Keeps.stays {action : Exec α} (keeps : ∀ machine : Machine, Keeps machine.Aside action) :
    Keeps (before.Stays top below) action :=
  fun machine stays => (keeps machine machine (Aside.refl machine)).mono
    (fun _ _ aside => stays.aside aside) fun _ _ aside => stays.aside aside

theorem ends_pushFrame {frame : Frame} {Done : Unit → Machine → Prop}
    {Stopped : Halt → Machine → Prop}
    (done : machine.thread.depth < machine.options.maxDepth → Done () (machine.pushFrame frame))
    (stopped : ∀ halt, Stopped halt machine) :
    (Exec.pushFrame frame).Ends machine Done Stopped := by
  refine ends_bind_get ?_
  by_cases full : machine.options.maxDepth ≤ machine.thread.depth
  · rw [if_pos full]
    exact stopped _
  · rw [if_neg full]
    exact done (Int.not_le.mp full)

end Exec

/-! ## Asking for a class -/

namespace Initialization

open Exec Machine

variable {before : Machine}

theorem keeps_failing {α : Type} (id : ClassId) {action : Exec α}
    (keeps : Keeps before.Aside action) : Keeps before.Aside (failing id action) :=
  keeps_onHalt keeps fun machine aside => keeps_setState id .failed machine aside

theorem keeps_runNative (c : LinkedClass) (native : Option Native) :
    Keeps before.Aside (runNative c native) := by
  cases native with
  | none => exact keeps_fail _
  | some native => exact keeps_bind (keeps_native native []) fun _ => keeps_pure _

theorem ends_start {c : LinkedClass} {machine : Machine} (aside : before.Aside machine)
    (known : c ∈ machine.classes) :
    (start c).Ends machine
      (fun ready later => if ready = true then before.Aside later else before.Starts later)
      fun _ later => before.Aside later := by
  refine (keeps_trace _ _).before (Steady.refl machine) (fun _ traced steady => ?_)
    fun _ _ steady => aside.trans steady.toAside
  have aside' := aside.trans steady.toAside
  split
  · exact (keeps_setState c.id .ready).before aside' (fun _ _ aside => ends_pure aside)
      fun _ _ aside => aside
  · rename_i method found
    refine (keeps_setState c.id .running).before (Aside.refl traced) (fun _ running kept => ?_)
      fun _ _ kept => aside'.trans kept
    have asideRunning := aside'.trans kept
    by_cases native : method.isNative = true
    · rw [if_pos native]
      refine (keeps_failing c.id (keeps_runNative c _)).before asideRunning (fun _ _ aside => ?_)
        fun _ _ aside => aside
      exact (keeps_setState c.id .ready).before aside (fun _ _ aside => ends_pure aside)
        fun _ _ aside => aside
    · rw [if_neg native]
      have known' := kept.mem (steady.mem known)
      refine Ends.bind (ends_onHalt (ends_pushFrame (fun room => ?_) fun _ => ?_))
        fun _ later starts => ends_pure starts
      · exact ⟨running, c, method, asideRunning, room, known', found, rfl⟩
      · exact keeps_setState c.id .failed running asideRunning

theorem ends_initializeChain (chain : List ClassId) {machine : Machine}
    (aside : before.Aside machine) :
    (initializeChain chain).Ends machine
      (fun ready later => if ready = true then before.Aside later else before.Starts later)
      fun _ later => before.Aside later := by
  induction chain generalizing before machine with
  | nil => exact ends_pure aside
  | cons id supers ih =>
      refine ends_bind_classOf (fun c found => ?_) fun _ => aside
      refine (keeps_prepare c).before (Aside.refl machine) (fun state prepared kept => ?_)
        fun _ _ kept => aside.trans kept
      have aside' := aside.trans kept
      cases state with
      | ready => exact ends_pure aside'
      | running => exact ends_pure aside'
      | failed => exact ends_throw aside'
      | prepared =>
          refine Ends.bind (ends_onHalt ((ih (Aside.refl prepared)).mono (fun _ _ ends => ends)
            fun _ later aside => aside'.trans (keeps_setState id .failed later aside)))
            fun ready later ends => ?_
          cases ready with
          | true => exact ends_start (aside'.trans ends) (ends.mem (kept.mem (mem_of_classOf? found).1))
          | false => exact ends_pure (.after_aside aside' ends)

theorem ends_ensureReady (c : LinkedClass) {machine : Machine} (aside : before.Aside machine) :
    (ensureReady c).Ends machine
      (fun ready later => if ready = true then before.Aside later else before.Starts later)
      fun _ later => before.Aside later :=
  ends_initializeChain c.chain aside

end Initialization

end Jvm
