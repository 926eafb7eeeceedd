/-
# Jvm.Proofs.Initialization.Later — what can happen to the classes of a session

For the initialization of classes, all that a machine ever does is made of few parts (`Part`): it
asks for a class, runs a native method, assigns a static field, leaves a frame, drops frames,
creates a thread or makes another one current; all else leaves the records and the initializers on
the call stack alone. A machine is `Later` than another one if such parts lead to it. Steps, calls
and sessions lead to later machines only (`keeps_step_later`, `kept_later`, `Follows.later`).

Each part is a course of the ledgers of the threads (`Advances`), and keeps them in step with the
call stacks (`Orderly`); so the same holds of all that a session can come to (`Later.advances`,
`Reached.orderly`).
-/
import Jvm.Proofs.Initialization.Asking
import Jvm.Proofs.Machine.Session
import Jvm.Proofs.Machine.Threads

namespace Jvm

set_option autoImplicit false

open Exec Machine
open Relation (ReflTransGen)

namespace Exec

/-- Either end of an action is the machine that it leaves. -/
theorem ends_after {α : Type} (action : Exec α) (machine : Machine) :
    action.Ends machine (fun _ later => later = action.after machine)
      fun _ later => later = action.after machine := by
  refine ends_self.mono (fun _ _ run => ?_) fun _ _ run => ?_ <;> simp [Exec.after, run]

end Exec

namespace Machine

/-- One part of what a machine does. -/
inductive Part (machine : Machine) : Machine → Prop
  | calm {later : Machine} (calm : machine.Calm later) : Part machine later
  | asks {c : LinkedClass} (known : c ∈ machine.classes) :
      Part machine ((Initialization.ensureReady c).after machine)
  | native (native : Native) (arguments : List Value) :
      Part machine ((native.run arguments).after machine)
  | assigns (id : ClassId) (slot : Nat) (v : Value) :
      Part machine (machine.updateThread fun thread => thread.putStatic id slot v)
  | leaves {top frame : Frame} {below : List Frame} (frames : machine.thread.frames = top :: below)
      (same : top.initializing = frame.initializing) : Part machine ((Exec.leave frame).after machine)
  | drops (depth : Nat) (state : ThreadState) :
      Part machine (machine.updateThread fun thread =>
        { thread.unwindTo depth with state := state })
  | createThread (name : String) (size : UInt64) :
      Part machine ((createThread name size).after machine)
  | switchTo (number : Nat) : Part machine (machine.switchTo number)

/-- The parts of what a machine does lead from the first machine to the second. -/
abbrev Later : Machine → Machine → Prop := ReflTransGen Part

variable {first machine last before after : Machine}

/-! ## Steps, calls and sessions -/

theorem recorded_later (first : Machine) : Recorded (Later first) (Later first) where
  weaken _ later := later
  calm _ _ calm later := later.tail (.calm calm)
  ready c machine known later := by
    refine (ends_after _ machine).mono (fun _ _ same => ?_) fun _ _ same => ?_ <;>
      exact same ▸ later.tail (.asks known)
  native native arguments machine later := by
    refine (ends_after _ machine).mono (fun _ _ same => ?_) fun _ _ same => ?_ <;>
      exact same ▸ later.tail (.native native arguments)
  write machine field v _ _ later _ _ _ := later.tail (.assigns _ _ _)
  leave machine top frame below later frames same := by
    refine (ends_after _ machine).mono (fun _ _ same' => ?_) fun _ _ same' => ?_ <;>
      exact same' ▸ later.tail (.leaves frames same)

theorem keeps_step_later : Keeps (Later first) step := (recorded_later first).step

theorem later_runAbove {base fuel : Nat} {result v : Value}
    (ran : runAbove base result fuel machine = .ok v last) : Later machine last :=
  (upholds_runAbove (fun _ later => later) keeps_step_later base result fuel machine .refl).of_ok ran

theorem Runs.later {base : Nat} (runs : Runs base first last) : Later first last := by
  induction runs with
  | refl => exact .refl
  | step runs deep ran ih => exact (keeps_step_later _ ih).of_ok ran

/-- A class has been asked for, and what that put on the call stack has been run. -/
theorem later_round {c : LinkedClass} {asked : Machine} {ready : Bool} {base fuel : Nat}
    {result v : Value} (known : c ∈ machine.classes)
    (ensured : Initialization.ensureReady c machine = .ok ready asked)
    (ran : runAbove base result fuel asked = .ok v last) : Later machine last :=
  (((recorded_later machine).ready c machine known .refl).of_ok ensured).trans (later_runAbove ran)

theorem kept_later (first : Machine) : Call.Kept (Later first) (Later first) where
  weaken _ later := later
  state machine state later := by
    have same : machine.thread.unwindTo machine.thread.depth = machine.thread := by
      unfold Thread.unwindTo
      rw [Nat.sub_self]
      rfl
    have nothing : (machine.updateThread fun thread => { thread with state := state }) =
        machine.updateThread fun thread =>
          { thread.unwindTo machine.thread.depth with state := state } :=
      congrArg (fun thread => { machine with thread := { thread with state := state } }) same.symm
    rw [nothing]
    exact later.tail (.drops _ state)
  ready c machine known later := (recorded_later first).ready c machine known later
  step := keeps_step_later
  native native arguments := (recorded_later first).native native arguments
  enter frame _ plain _ _ later :=
    ends_pushFrame (fun _ => later.tail (.calm (calm_pushFrame _ plain))) fun _ => later
  unwind _ depth state later := later.tail (.drops depth state)

theorem Follows.later (follows : machine.Follows last) : Later machine last := by
  cases follows with
  | call declared fuel arguments => exact (kept_later machine).left ((kept_later machine).run _ _ _) .refl
  | resolve name =>
      exact .single (.calm ((Loading.keeps_resolve name).after (Steady.refl machine)).calm)
  | @define source bytes c read =>
      exact .single (.calm ((Loading.keeps_define (.inl ⟨source, bytes, read⟩)).after
        (Steady.refl machine)).calm)
  | createThread name size => exact .single (.createThread name size)
  | switchTo number => exact .single (.switchTo number)

/-- Whatever a session comes to is later than its start. -/
theorem Session.later {Allowed : Machine → Prop} (session : Session Allowed machine) :
    ∃ (options : Options) (files : Files) (start : Machine),
      Machine.start options files = .ok start ∧ Later start machine := by
  induction session with
  | start started => exact ⟨_, _, _, started, .refl⟩
  | next session allowed follows ih =>
      obtain ⟨options, files, start, started, later⟩ := ih
      exact ⟨options, files, start, started, later.trans follows.later⟩

theorem Reached.later {Allowed : Machine → Prop} (reached : Reached Allowed machine) :
    ∃ (options : Options) (files : Files) (start : Machine),
      Machine.start options files = .ok start ∧ Later start machine := by
  cases reached with
  | between session => exact session.later
  | @inside first _ method arguments session allowed declared passes =>
      obtain ⟨options, files, start, started, later⟩ := session.later
      exact ⟨options, files, start, started, later.trans ((kept_later first).passes passes .refl)⟩

/-- What all classes have in common, they have in every later machine. -/
theorem Dictionary.part {P : Machine → Prop} (dictionary : Dictionary P) (part : machine.Part last)
    (holds : P machine) : P last := by
  cases part with
  | calm calm => exact dictionary.grows _ _ calm.toGrows holds
  | asks known => exact dictionary.grows _ _ (grows_ensureReady _ machine) holds
  | native native arguments =>
      have grows := (ends_native_prepares native arguments machine).mono
        (fun _ _ prepares => prepares.toGrows) fun _ _ prepares => prepares.toGrows
      exact dictionary.grows _ _ (Ends.after grows) holds
  | assigns id slot v => exact dictionary.threads machine _ machine.parked holds
  | @leaves top frame below frames same =>
      have grows : (Exec.leave frame).Ends machine (fun _ => machine.Grows) fun _ => machine.Grows :=
        (ends_leave frames frame).mono (fun _ _ left => left.1) fun _ _ grows => grows
      exact dictionary.grows _ _ grows.after holds
  | drops depth state => exact dictionary.threads machine _ machine.parked holds
  | createThread name size => exact dictionary.follows (.createThread name size) holds
  | switchTo number => exact dictionary.follows (.switchTo number) holds

theorem Dictionary.later {P : Machine → Prop} (dictionary : Dictionary P) (later : Later first last)
    (holds : P first) : P last := by
  induction later with
  | refl => exact holds
  | tail _ part ih => exact dictionary.part part ih

/-! ## The threads of a machine -/

/-- Each class has one record at most, and the classes that are running are those whose
initializers are on the call stack. -/
structure Tidy (thread : Thread) : Prop where
  single : thread.Single
  inStep : thread.ledger.InStep

/-- Ids tell the classes apart, numbers the threads, and each thread is tidy. -/
structure Orderly (machine : Machine) : Prop where
  identified : machine.Identified
  apart : (machine.threads.map (·.number)).Nodup
  counted : ∀ thread ∈ machine.threads, thread.number ≤ machine.parked.length
  tidy : ∀ thread ∈ machine.threads, Tidy thread

/-- No class and no thread is lost, and the ledger of each thread has taken its course. -/
structure Advances (before after : Machine) : Prop where
  classes : ∀ c ∈ before.classes, c ∈ after.classes
  threads : ∀ thread ∈ before.threads, ∃ later ∈ after.threads, later.number = thread.number ∧
    Ledger.Course after.classes thread.ledger later.ledger

theorem Advances.refl (machine : Machine) : machine.Advances machine :=
  ⟨fun _ known => known, fun thread member => ⟨thread, member, rfl, .refl⟩⟩

theorem Advances.trans (one : before.Advances machine) (two : machine.Advances after) :
    before.Advances after := by
  refine ⟨fun c known => two.classes c (one.classes c known), fun thread member => ?_⟩
  obtain ⟨later, member', number, course⟩ := one.threads thread member
  obtain ⟨last, member'', number', course'⟩ := two.threads later member'
  exact ⟨last, member'', number'.trans number, (course.mono two.classes).trans course'⟩

theorem Orderly.numbered (orderly : machine.Orderly) : machine.Numbered :=
  ⟨orderly.apart, orderly.counted⟩

/-- A thread is known by its number. -/
theorem Orderly.eq_of_number (orderly : machine.Orderly) {thread other : Thread}
    (member : thread ∈ machine.threads) (member' : other ∈ machine.threads)
    (same : thread.number = other.number) : thread = other :=
  orderly.numbered.eq_of_number member member' same

/-- The current thread has taken its course, and of the others only the heaps have changed. -/
theorem Orderly.course (orderly : before.Orderly) (classes : ∀ c ∈ before.classes, c ∈ after.classes)
    (identified : after.Identified) (number : after.thread.number = before.thread.number)
    (parked : after.parked.map Thread.heapless = before.parked.map Thread.heapless)
    (course : Ledger.Course after.classes before.thread.ledger after.thread.ledger)
    (single : before.thread.Single → after.thread.Single) :
    before.Advances after ∧ after.Orderly := by
  have numbered := orderly.numbered.of_perm (.of_eq (numbers_of_parked number parked).symm)
  refine ⟨⟨classes, fun thread member => ?_⟩, identified, numbered.apart, numbered.counted,
    fun thread member => ?_⟩
  · rcases List.mem_cons.mp member with rfl | other
    · exact ⟨after.thread, List.mem_cons_self, number, course⟩
    · obtain ⟨new, member', same⟩ := exists_parked parked.symm other
      have ledger : new.ledger = thread.ledger := (congrArg Thread.ledger same :)
      refine ⟨new, List.mem_cons_of_mem _ member', (congrArg Thread.number same :), ?_⟩
      rw [ledger]
  · rcases List.mem_cons.mp member with rfl | other
    · obtain ⟨once, inStep⟩ := orderly.tidy before.thread List.mem_cons_self
      exact ⟨single once, course.inStep inStep⟩
    · obtain ⟨old, member', same⟩ := exists_parked parked other
      obtain ⟨once, inStep⟩ := orderly.tidy old (List.mem_cons_of_mem _ member')
      have ledger : old.ledger = thread.ledger := (congrArg Thread.ledger same :)
      have records : old.records = thread.records := (congrArg Thread.records same :)
      exact ⟨once.of_ids (congrArg _ records.symm), ledger ▸ inStep⟩

theorem Settles.advances (settles : before.Settles after) (orderly : before.Orderly) :
    before.Advances after ∧ after.Orderly :=
  orderly.course (fun _ => settles.mem) (settles.identified orderly.identified) settles.number
    settles.parked settles.turns.course settles.single

/-- The same threads in another order, with another one in front. -/
theorem Orderly.perm (orderly : before.Orderly) (identified : after.Identified)
    (classes : after.classes = before.classes) (perm : before.threads.Perm after.threads) :
    before.Advances after ∧ after.Orderly := by
  have numbered := orderly.numbered.of_perm (perm.map _)
  exact ⟨⟨fun c known => classes ▸ known, fun thread member =>
    ⟨thread, perm.mem_iff.mp member, rfl, .refl⟩⟩, identified, numbered.apart, numbered.counted,
    fun thread member => orderly.tidy thread (perm.mem_iff.mpr member)⟩

theorem Orderly.switchTo (orderly : machine.Orderly) (number : Nat) :
    machine.Advances (machine.switchTo number) ∧ (machine.switchTo number).Orderly := by
  rcases switchTo_cases machine number with same | ⟨thread, member, rfl, same⟩
  · rw [same]
    exact ⟨.refl machine, orderly⟩
  · rw [same]
    exact orderly.perm (dictionary_identified.threads machine _ _ orderly.identified) rfl
      (orderly.numbered.perm_switch member)

theorem Orderly.createThread (orderly : machine.Orderly) (name : String) (size : UInt64) :
    machine.Advances ((createThread name size).after machine) ∧
      ((createThread name size).after machine).Orderly := by
  rcases createThread_cases machine name size with same | ⟨-, heap, -, same⟩
  · rw [same]
    exact ⟨.refl machine, orderly⟩
  · rw [same]
    have numbered := orderly.numbered.create name heap
    refine ⟨⟨fun _ known => known, fun thread member =>
      ⟨thread, List.mem_cons_of_mem _ member, rfl, .refl⟩⟩,
      dictionary_identified.threads machine _ _ orderly.identified, numbered.apart,
      numbered.counted, fun thread member => ?_⟩
    · rcases List.mem_cons.mp member with rfl | old
      · refine ⟨List.nodup_nil, fun id => iff_of_false (fun running => ?_) List.not_mem_nil,
          List.nodup_nil⟩
        cases running
      · exact orderly.tidy thread old

/-! ## All that can happen -/

theorem Part.advances (part : before.Part after) (orderly : before.Orderly) :
    before.Advances after ∧ after.Orderly := by
  obtain ⟨single, inStep⟩ := orderly.tidy before.thread List.mem_cons_self
  cases part with
  | calm calm => exact calm.settles.advances orderly
  | asks known =>
      have settles := (Initialization.ends_ensureReady_within orderly.identified known).mono
        (fun _ _ ended => ended.1.toSettles) fun _ _ within => within.toSettles
      exact Settles.advances settles.after orderly
  | native native arguments =>
      have settles := (ends_native_prepares native arguments before).mono
        (fun _ _ prepares => prepares.settles) fun _ _ prepares => prepares.settles
      exact Settles.advances settles.after orderly
  | assigns id slot v =>
      have silent := silent_putStatic before id slot v
      exact silent.prepares.settles.advances orderly
  | leaves frames same => exact (ends_leave_settles inStep frames same).after.advances orderly
  | drops depth state =>
      obtain ⟨course, ids⟩ := Thread.course_unwindTo before.classes depth inStep
      refine orderly.course (fun _ known => known)
        (dictionary_identified.threads before _ _ orderly.identified) ?_ rfl course
        fun single => single.of_ids ids
      exact (Thread.same_unwindTo before.thread depth).1
  | createThread name size => exact orderly.createThread name size
  | switchTo number => exact orderly.switchTo number

theorem Later.advances (later : Later first last) (orderly : first.Orderly) :
    first.Advances last ∧ last.Orderly := by
  induction later with
  | refl => exact ⟨.refl first, orderly⟩
  | tail _ part ih =>
      obtain ⟨advances, orderly'⟩ := part.advances ih.2
      exact ⟨ih.1.trans advances, orderly'⟩

/-- The course of the current thread, when it is current again. -/
theorem Later.course (later : Later first last) (orderly : first.Orderly)
    (same : last.thread.number = first.thread.number) :
    Ledger.Course last.classes first.thread.ledger last.thread.ledger := by
  obtain ⟨advances, orderly'⟩ := later.advances orderly
  obtain ⟨after, member, number, course⟩ := advances.threads first.thread List.mem_cons_self
  rwa [orderly'.eq_of_number List.mem_cons_self member (same.trans number.symm)]

theorem orderly_start {options : Options} {files : Files}
    (started : Machine.start options files = .ok machine) : machine.Orderly := by
  obtain ⟨heap, rfl⟩ := exists_start started
  have blank : (blank options files heap).Orderly := by
    refine ⟨identified_blank options files heap, List.nodup_singleton _, fun thread member => ?_,
      fun thread member => ?_⟩ <;> obtain rfl := List.mem_singleton.mp member
    · exact Nat.le_refl _
    · refine ⟨List.nodup_nil, fun id => iff_of_false (fun running => ?_) List.not_mem_nil,
        List.nodup_nil⟩
      cases running
  exact (steady_withBuiltins _).calm.settles.advances blank |>.2

theorem Reached.orderly {Allowed : Machine → Prop} (reached : Reached Allowed machine) :
    machine.Orderly := by
  obtain ⟨options, files, start, started, later⟩ := reached.later
  exact (later.advances (orderly_start started)).2

end Machine

end Jvm
