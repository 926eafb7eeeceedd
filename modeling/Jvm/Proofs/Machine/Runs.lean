/-
# Jvm.Proofs.Machine.Runs — a frame and what runs above it

While a method runs, frames come and go above its own, and the frames below its own are left
alone: `bottom.Carries floor frames` says that the frame `bottom` is still there, on top of the
frames `floor`. A step keeps this until the frame itself is on top and returns
(`ends_step_carries`), and so does a run of any number of steps, each from a stack that is deeper
than the floor (`Runs.carries`). No run makes the stack deeper than the options allow.
-/
import Jvm.Proofs.Machine.Outcome

namespace Jvm

set_option autoImplicit false

/-! ## Frames above a frame -/

/-- The frame `bottom` has come somewhere, on top of the frames `floor`, and none of the frames
above it answers to the outside. -/
inductive Frame.Carries (bottom : Frame) (floor : List Frame) : List Frame → Prop
  | bare {frame : Frame} (continues : bottom.Continues frame) :
      Carries bottom floor (frame :: floor)
  | under {frame : Frame} {frames : List Frame} (inner : frame.isEntry = false)
      (carries : Carries bottom floor frames) : Carries bottom floor (frame :: frames)

namespace Frame

variable {bottom : Frame} {floor : List Frame}

theorem Carries.length_lt {frames : List Frame} (carries : bottom.Carries floor frames) :
    floor.length < frames.length := by
  induction carries with
  | bare continues => exact Nat.lt_succ_self _
  | under inner carries ih => exact Nat.lt_succ_of_lt ih

theorem Carries.exists_append {frames : List Frame} (carries : bottom.Carries floor frames) :
    ∃ above, frames = above ++ floor := by
  induction carries with
  | @bare frame continues => exact ⟨[frame], rfl⟩
  | @under frame frames inner carries ih =>
      obtain ⟨above, rfl⟩ := ih
      exact ⟨frame :: above, rfl⟩

theorem Carries.replace {frame later : Frame} {frames : List Frame}
    (carries : bottom.Carries floor (frame :: frames)) (continues : frame.Continues later) :
    bottom.Carries floor (later :: frames) := by
  cases carries with
  | bare same => exact .bare (same.trans continues)
  | under inner carries => exact .under (continues.isEntry.trans inner) carries

end Frame

namespace Machine

variable {before later : Machine} {top : Frame} {below : List Frame} {answer : Option Value}
  {instr : Instr}

theorem Leaves.grows (leaves : before.Leaves top below answer later) : before.Grows later := by
  cases leaves with
  | answers grows => exact grows
  | returns grows => exact grows
  | hands grows => exact grows

theorem Leaves.length (leaves : before.Leaves top below answer later) :
    later.thread.frames.length = below.length := by
  cases leaves with
  | answers grows entry tag frames => rw [frames]
  | returns grows inner void frames => rw [frames]
  | hands grows inner valued pop cut push frames => rw [frames, cut]; rfl

theorem grows_pushFrame (machine : Machine) (frame : Frame) :
    machine.Grows (machine.pushFrame frame) :=
  (Grows.refl machine).step rfl rfl rfl rfl rfl rfl

theorem Starts.grows (starts : before.Starts later) : before.Grows later := by
  obtain ⟨grown, c, method, aside, room, known, found, rfl⟩ := starts
  exact aside.toGrows.trans (grows_pushFrame grown _)

theorem ends_ensureReady_grows (c : LinkedClass) (machine : Machine) :
    (Initialization.ensureReady c).Ends machine (fun _ later => machine.Grows later)
      fun _ later => machine.Grows later :=
  (Initialization.ends_ensureReady c (Aside.refl machine)).mono
    (fun ready later ends => by
      cases ready with
      | true => exact ends.toGrows
      | false => exact Starts.grows ends)
    fun _ _ aside => aside.toGrows

theorem grows_ensureReady (c : LinkedClass) (machine : Machine) :
    machine.Grows ((Initialization.ensureReady c).after machine) :=
  (ends_ensureReady_grows c machine).after

theorem Outcome.grows (outcome : before.Outcome top below instr answer later) : before.Grows later := by
  cases outcome with
  | stays stays => exact stays.grows
  | starts starts => exact starts.grows
  | enters stays room declared made => exact stays.grows.trans (grows_pushFrame _ _)
  | leaves _ leaves => exact leaves.grows

/-- The stack is at most as deep as the options allow. -/
def Bounded (machine : Machine) : Prop := (machine.thread.depth : Int) ≤ machine.options.maxDepth

theorem Aside.bounded (aside : before.Aside later) (bounded : before.Bounded) : later.Bounded := by
  unfold Bounded
  rw [aside.options, Thread.depth, aside.calls]
  exact bounded

theorem Starts.bounded (starts : before.Starts later) : later.Bounded := by
  obtain ⟨grown, c, method, aside, room, known, found, rfl⟩ := starts
  show ((grown.thread.depth + 1 : Nat) : Int) ≤ grown.options.maxDepth
  omega

theorem Stays.depth (stays : before.Stays top below later)
    (frames : before.thread.frames = top :: below) : later.thread.depth = before.thread.depth := by
  obtain ⟨frame, -, frames'⟩ := stays.frames
  rw [Thread.depth_eq_length, Thread.depth_eq_length, frames, frames']
  rfl

theorem Stays.bounded (stays : before.Stays top below later)
    (frames : before.thread.frames = top :: below) (bounded : before.Bounded) : later.Bounded := by
  unfold Bounded
  rw [stays.depth frames, stays.grows.options]
  exact bounded

theorem Outcome.bounded (outcome : before.Outcome top below instr answer later)
    (frames : before.thread.frames = top :: below) (bounded : before.Bounded) : later.Bounded := by
  cases outcome with
  | stays stays => exact stays.bounded frames bounded
  | starts starts => exact starts.bounded
  | @enters grown _ _ _ stays room declared made =>
      show ((grown.thread.depth + 1 : Nat) : Int) ≤ grown.options.maxDepth
      omega
  | leaves _ leaves =>
      have length := leaves.length
      have deep := before.thread.depth_eq_length
      unfold Bounded at bounded ⊢
      rw [leaves.grows.options, Thread.depth_eq_length, length]
      rw [deep, frames, List.length_cons] at bounded
      omega

/-- The frame `bottom` has come to be `frame`, on top of the frames `floor`, and returns. -/
structure Departs (bottom : Frame) (floor : List Frame) (before : Machine) (frame : Frame)
    (answer : Option Value) (later : Machine) : Prop where
  continues : bottom.Continues frame
  frames : before.thread.frames = frame :: floor
  next : ∃ length, frame.next? = some (.ret frame.method.result.stackType, length)
  leaves : before.Leaves frame floor answer later

end Machine

namespace Exec

open Machine

variable {machine : Machine} {bottom : Frame} {floor : List Frame}

theorem Carries.of_outcome {top : Frame} {below : List Frame} {later : Machine}
    {instr : Instr} {length : Nat} {answer : Option Value}
    (carries : bottom.Carries floor (top :: below)) (frames : machine.thread.frames = top :: below)
    (next : top.next? = some (instr, length))
    (outcome : machine.Outcome top below instr answer later) :
    (answer = none ∧ bottom.Carries floor later.thread.frames) ∨
      ∃ frame, Departs bottom floor machine frame answer later := by
  cases outcome with
  | stays stays =>
      obtain ⟨frame, continues, frames'⟩ := stays.frames
      refine .inl ⟨rfl, ?_⟩
      rw [frames']
      exact carries.replace continues
  | starts starts =>
      obtain ⟨grown, c, method, aside, room, known, found, rfl⟩ := starts
      refine .inl ⟨rfl, .under rfl ?_⟩
      show bottom.Carries floor grown.thread.frames
      rw [aside.frames, frames]
      exact carries
  | @enters grown method arguments callee stays room declared made =>
      obtain ⟨frame, continues, frames'⟩ := stays.frames
      obtain ⟨locals, rfl⟩ := Frame.withArguments_eq_ok made
      refine .inl ⟨rfl, .under rfl ?_⟩
      show bottom.Carries floor grown.thread.frames
      rw [frames']
      exact carries.replace continues
  | leaves returns leaves =>
      cases carries with
      | bare continues =>
          rw [returns] at next
          exact .inr ⟨top, continues, frames, ⟨length, next⟩, leaves⟩
      | under inner carries =>
          refine .inl ?_
          cases leaves with
          | answers grows entry => exact absurd (entry.symm.trans inner) (by simp)
          | returns grows _ void frames' => exact ⟨rfl, frames' ▸ carries⟩
          | hands grows _ valued pop cut push frames' =>
              obtain ⟨-, -, rfl⟩ := OperandStack.push_eq_ok.mp push
              rw [cut] at carries
              refine ⟨rfl, ?_⟩
              rw [frames']
              exact carries.replace ⟨rfl, rfl, rfl, rfl⟩

theorem exists_top (carries : bottom.Carries floor machine.thread.frames) :
    ∃ top below, machine.thread.frames = top :: below := by
  cases frames : machine.thread.frames with
  | nil =>
      have deep := carries.length_lt
      rw [frames] at deep
      exact absurd deep (Nat.not_lt_zero _)
  | cons top below => exact ⟨top, below, rfl⟩

/-- A step keeps a frame and what is below it, until the frame is on top and returns. -/
theorem ends_step_carries (carries : bottom.Carries floor machine.thread.frames) :
    step.Ends machine
      (fun answer later => (answer = none ∧ bottom.Carries floor later.thread.frames) ∨
        ∃ frame, Departs bottom floor machine frame answer later)
      fun _ later => bottom.Carries floor later.thread.frames := by
  obtain ⟨top, below, frames⟩ := exists_top carries
  rw [frames] at carries
  refine (ends_step_outcome frames).mono (fun answer later outcome => ?_) fun _ later stays => ?_
  · obtain ⟨_, _, next, outcome⟩ := outcome
    exact Carries.of_outcome carries frames next outcome
  · obtain ⟨frame, continues, frames'⟩ := stays.frames
    rw [frames']
    exact carries.replace continues

/-- What every outcome of a step keeps is kept by a step. Without frames, nothing happens. -/
theorem keeps_step {P : Machine → Prop}
    (outcome : ∀ (machine later : Machine) (top : Frame) (below : List Frame)
      (instr : Instr) (answer : Option Value), P machine → machine.thread.frames = top :: below →
        machine.Outcome top below instr answer later → P later)
    (stays : ∀ (machine later : Machine) (top : Frame) (below : List Frame), P machine →
      machine.thread.frames = top :: below → machine.Stays top below later → P later) :
    Keeps P step := by
  intro machine holds
  cases frames : machine.thread.frames with
  | nil =>
      have stops : topFrame.Ends machine (fun _ _ => False) fun _ => P := by
        refine ends_bind_get ?_
        rw [frames]
        exact holds
      exact stops.before (fun _ _ impossible => impossible.elim) fun _ _ holds => holds
  | cons top below =>
      exact (ends_step_outcome frames).mono
        (fun answer later ⟨instr, _, _, ended⟩ =>
          outcome machine later top below instr answer holds frames ended)
        fun _ later => stays machine later top below holds frames

theorem keeps_step_grows : Keeps machine.Grows step :=
  keeps_step (fun _ _ _ _ _ _ grows _ outcome => grows.trans outcome.grows)
    fun _ _ _ _ grows _ stays => grows.trans stays.grows

theorem keeps_step_bounded : Keeps Bounded step :=
  keeps_step (fun _ _ _ _ _ _ bounded frames outcome => outcome.bounded frames bounded)
    fun _ _ _ _ bounded frames stays => stays.bounded frames bounded

end Exec

/-! ## Runs -/

/-- The second machine comes from the first one by steps, each from a stack of more than `base`
frames. -/
inductive Machine.Runs (base : Nat) (first : Machine) : Machine → Prop
  | refl : Runs base first first
  | step {last later : Machine} {answer : Option Value} (runs : Runs base first last)
      (deep : base < last.thread.depth) (ran : Exec.step last = .ok answer later) :
      Runs base first later

theorem Machine.Runs.after_step {base : Nat} {first second last : Machine} {answer : Option Value}
    (deep : base < first.thread.depth) (ran : Exec.step first = .ok answer second)
    (runs : Runs base second last) : Runs base first last := by
  induction runs with
  | refl => exact .step .refl deep ran
  | step runs deep ran ih => exact .step ih deep ran

namespace Machine

variable {first last : Machine} {base : Nat} {bottom : Frame} {floor : List Frame}

theorem Runs.grows (runs : Runs base first last) : first.Grows last := by
  induction runs with
  | refl => exact Grows.refl first
  | step runs deep ran ih => exact (Exec.keeps_step_grows _ ih).of_ok ran

theorem Runs.bounded (runs : Runs base first last) (bounded : first.Bounded) : last.Bounded := by
  induction runs with
  | refl => exact bounded
  | step runs deep ran ih => exact (Exec.keeps_step_bounded _ ih).of_ok ran

/-- A run keeps a frame and what is below it, until the frame returns. That step is the last one,
because it leaves no more frames than the floor. -/
theorem Runs.carries (runs : Runs floor.length first last)
    (carries : bottom.Carries floor first.thread.frames) :
    bottom.Carries floor last.thread.frames ∨
      ∃ (middle : Machine) (frame : Frame) (answer : Option Value),
        Exec.step middle = .ok answer last ∧ Departs bottom floor middle frame answer last := by
  induction runs with
  | refl => exact .inl carries
  | @step last later answer runs deep ran ih =>
      rcases ih with within | ⟨middle, frame, _, _, departs⟩
      · rcases (Exec.ends_step_carries within).of_ok ran with ⟨-, within'⟩ | ⟨frame, departs⟩
        · exact .inl within'
        · exact .inr ⟨last, frame, answer, ran, departs⟩
      · rw [Thread.depth_eq_length, departs.leaves.length] at deep
        exact absurd deep (Nat.lt_irrefl _)

/-- A run that has come back to the floor has ended with the return of the frame. -/
theorem Runs.departs (runs : Runs floor.length first last)
    (carries : bottom.Carries floor first.thread.frames)
    (back : last.thread.depth = floor.length) :
    ∃ (middle : Machine) (frame : Frame) (answer : Option Value),
      Exec.step middle = .ok answer last ∧ Departs bottom floor middle frame answer last := by
  rcases runs.carries carries with within | departs
  · have deep := within.length_lt
    rw [← Thread.depth_eq_length, back] at deep
    exact absurd deep (Nat.lt_irrefl _)
  · exact departs

end Machine

end Jvm
