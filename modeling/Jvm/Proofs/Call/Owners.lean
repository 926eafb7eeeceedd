/-
# Jvm.Proofs.Call.Owners — whose methods are executed

A method that is executed has come from a class of the dictionary: an initializer from the class
that is made ready, a method that is called from the class that was searched for it, and a method
that is called from outside from the class that the call makes ready first. Classes stay in the
dictionary, and a frame keeps its method, so every frame of a machine finds the class of its method
there (`Machine.Owned.holder`).
-/
import Jvm.Proofs.Call.Balance

namespace Jvm

set_option autoImplicit false

open Machine Exec
open Call (Owns)

namespace Call

variable {machine later : Machine} {method : Method}

theorem Owns.of_mem (sourced : machine.Sourced)
    (declared : ∃ c ∈ machine.classes, method ∈ c.methods) : Owns machine method := by
  obtain ⟨c, known, member⟩ := declared
  exact ⟨c, known, (sourced c known).owner member⟩

theorem Owns.grows (owns : Owns machine method) (grows : machine.Grows later) :
    Owns later method := by
  obtain ⟨c, known, owner⟩ := owns
  exact ⟨c, grows.mem known, owner⟩

end Call

namespace Machine

/-- Every frame, of whatever thread, executes a method whose class is in the dictionary. -/
structure Owned (machine : Machine) : Prop where
  identified : machine.Identified
  sourced : machine.Sourced
  mine : ∀ frame ∈ machine.thread.frames, Owns machine frame.method
  parked : ∀ thread ∈ machine.parked, ∀ frame ∈ thread.frames, Owns machine frame.method

variable {machine later : Machine} {top : Frame} {below : List Frame}

/-- The class of the method of a frame is found. -/
theorem Owned.holder (owned : machine.Owned) {frame : Frame} (member : frame ∈ machine.thread.frames) :
    ∃ id c, frame.method.owner = some id ∧ machine.classOf? id = some c := by
  obtain ⟨c, known, owner⟩ := owned.mine frame member
  exact ⟨c.id, c, owner, owned.identified.classOf? known⟩

theorem Owned.grows (owned : machine.Owned) (grows : machine.Grows later)
    (mine : ∀ frame ∈ later.thread.frames, Owns later frame.method) : later.Owned := by
  refine ⟨grows.identified owned.identified, grows.sourced owned.sourced, mine,
    fun thread waits frame held => ?_⟩
  obtain ⟨old, waited, frames⟩ := grows.frames_parked waits
  exact (owned.parked old waited frame (frames ▸ held)).grows grows

theorem Owned.withThreads (owned : machine.Owned) {thread : Thread} {parked : List Thread}
    (mine : ∀ frame ∈ thread.frames, Owns machine frame.method)
    (waiting : ∀ other ∈ parked, ∀ frame ∈ other.frames, Owns machine frame.method) :
    Owned { machine with thread := thread, parked := parked } :=
  ⟨dictionary_identified.threads machine thread parked owned.identified, owned.sourced, mine, waiting⟩

theorem Owned.aside (owned : machine.Owned) (aside : machine.Aside later) : later.Owned :=
  owned.grows aside.toGrows fun frame held =>
    (owned.mine frame (aside.frames ▸ held)).grows aside.toGrows

theorem Owned.pushFrame (owned : machine.Owned) {frame : Frame}
    (owns : Owns machine frame.method) : (machine.pushFrame frame).Owned := by
  refine owned.grows (grows_pushFrame machine frame) fun other held => ?_
  rcases List.mem_cons.mp held with rfl | below
  · exact owns
  · exact owned.mine other below

/-- Frames that execute methods that were executed before. -/
theorem Owned.of_methods (owned : machine.Owned) (grows : machine.Grows later)
    (methods : ∀ frame ∈ later.thread.frames,
      ∃ old ∈ machine.thread.frames, frame.method = old.method) : later.Owned := by
  refine owned.grows grows fun frame held => ?_
  obtain ⟨old, member, same⟩ := methods frame held
  exact same ▸ (owned.mine old member).grows grows

theorem Stays.owned (stays : machine.Stays top below later) (owned : machine.Owned)
    (frames : machine.thread.frames = top :: below) : later.Owned := by
  obtain ⟨frame, continues, frames'⟩ := stays.frames
  refine owned.of_methods stays.grows fun other held => ?_
  rw [frames'] at held
  rw [frames]
  rcases List.mem_cons.mp held with rfl | member
  · exact ⟨top, List.mem_cons_self, continues.method⟩
  · exact ⟨other, List.mem_cons_of_mem top member, rfl⟩

theorem Starts.owned (starts : machine.Starts later) (owned : machine.Owned) : later.Owned := by
  obtain ⟨grown, c, method, aside, -, known, found, rfl⟩ := starts
  have owned' := owned.aside aside
  exact owned'.pushFrame (.of_mem owned'.sourced ⟨c, known, List.mem_of_find?_eq_some found⟩)

theorem Leaves.owned {answer : Option Value} (leaves : machine.Leaves top below answer later)
    (owned : machine.Owned) (frames : machine.thread.frames = top :: below) : later.Owned := by
  refine owned.of_methods leaves.grows fun frame held => ?_
  have under : ∀ other ∈ below, ∃ old ∈ machine.thread.frames, other.method = old.method :=
    fun other member => ⟨other, frames ▸ List.mem_cons_of_mem top member, rfl⟩
  cases leaves with
  | answers grows entry tag frames' => exact under frame (frames' ▸ held)
  | returns grows inner void frames' => exact under frame (frames' ▸ held)
  | @hands later v caller rest popped pushed grows inner valued pop cut push frames' =>
      subst cut
      rw [frames'] at held
      rcases List.mem_cons.mp held with rfl | member
      · exact under caller List.mem_cons_self
      · exact under frame (List.mem_cons_of_mem caller member)

theorem Outcome.owned {instr : Instr} {answer : Option Value}
    (outcome : machine.Outcome top below instr answer later) (owned : machine.Owned)
    (frames : machine.thread.frames = top :: below) : later.Owned := by
  cases outcome with
  | stays stays => exact stays.owned owned frames
  | starts starts => exact starts.owned owned
  | enters stays room declared made =>
      have owned' := stays.owned owned frames
      obtain ⟨locals, rfl⟩ := Frame.withArguments_eq_ok made
      exact owned'.pushFrame (.of_mem owned'.sourced declared)
  | leaves _ leaves => exact leaves.owned owned frames

end Machine

/-! ## Steps, calls and sessions -/

theorem Exec.keeps_step_owned : Keeps Owned step :=
  keeps_step (fun _ _ _ _ _ _ owned frames outcome => outcome.owned owned frames)
    fun _ _ _ _ owned frames stays => stays.owned owned frames

theorem Exec.Keeps.owned {α : Type} {action : Exec α}
    (keeps : ∀ machine : Machine, Keeps machine.Aside action) : Keeps Owned action :=
  fun machine owned => (keeps machine machine (Aside.refl machine)).mono
    (fun _ _ aside => owned.aside aside) fun _ _ aside => owned.aside aside

theorem kept_owned : Call.Kept Owned Owned where
  weaken _ owned := owned
  state _ _ owned := owned.withThreads owned.mine owned.parked
  ready c machine _ owned :=
    (Initialization.ends_ensureReady c (Aside.refl machine)).mono
      (fun ready later ended => by
        cases ready with
        | true => exact owned.aside ended
        | false => exact Starts.owned ended owned)
      fun _ _ aside => owned.aside aside
  step := keeps_step_owned
  native native arguments := Keeps.owned fun _ => keeps_native native arguments
  enter frame _ _ machine owns owned := ends_pushFrame (fun _ => owned.pushFrame owns) fun _ => owned
  unwind machine depth state owned := by
    refine owned.withThreads (fun frame held => owned.mine frame ?_) owned.parked
    have held : frame ∈ (machine.thread.unwindTo depth).frames := held
    rw [Thread.unwindTo, Call.frames_dropFrames] at held
    exact List.mem_of_mem_drop held

namespace Machine

theorem lasting_owned : Lasting Owned where
  start started := by
    obtain ⟨heap, rfl⟩ := exists_start started
    exact Owned.aside ⟨identified_blank _ _ heap, sourced_blank _ _ heap,
      fun _ held => (List.not_mem_nil held).elim, fun _ waits => (List.not_mem_nil waits).elim⟩
      (steady_withBuiltins _).toAside
  kept := kept_owned
  resolve name := .owned fun _ => .aside fun _ => Loading.keeps_resolve name
  define read := .owned fun _ => .aside fun _ => Loading.keeps_define (.inl ⟨_, _, read⟩)
  create machine _ _ owned _ := by
    refine owned.withThreads (fun _ held => (List.not_mem_nil held).elim) fun thread member => ?_
    rcases List.mem_cons.mp member with rfl | waits
    · exact owned.mine
    · exact owned.parked thread waits
  switch machine thread owned waited := by
    refine owned.withThreads (owned.parked thread waited) fun other member => ?_
    rcases List.mem_cons.mp member with rfl | kept
    · exact owned.mine
    · exact owned.parked other (List.mem_filter.mp kept).1

end Machine

end Jvm
