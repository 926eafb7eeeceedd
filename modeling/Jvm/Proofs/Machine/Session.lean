/-
# Jvm.Proofs.Machine.Session — machines between calls

A machine starts with the built-in classes. After that, classes are found or entered, methods are
called, and threads are created and made current, in any order and whether or not they succeed
(`Session`). A machine is `Reached` if it comes up in such a session, between two calls or
inside of one. What is true of the dictionary at the start and is kept as classes join it is true
of every such machine (`Dictionary`): its classes are from files or built in, its ids tell them
apart, and the built-in classes are found under their names. A property of the whole machine that
every part of a session keeps is true of every such machine as well (`Lasting`).
-/
import Jvm.Machine.Start
import Jvm.Proofs.Call.Passage
import Jvm.Proofs.Machine.Bootstrap

namespace Jvm

set_option autoImplicit false

open Machine Exec

namespace Machine

/-! ## The start -/

theorem sourced_blank (options : Options) (files : Files) (heap : Heap) :
    (blank options files heap).Sourced := by
  intro c known
  cases known

theorem identified_blank (options : Options) (files : Files) (heap : Heap) :
    (blank options files heap).Identified :=
  ⟨.nil, fun _ known => (List.not_mem_nil known).elim, fun _ known =>
    (List.not_mem_nil known).elim⟩

theorem keeps_defineAll {before : Machine} (specs : List Builtin.Spec)
    (listed : ∀ spec ∈ specs, spec ∈ Builtin.all) : Keeps before.Steady (defineAll specs) := by
  induction specs with
  | nil => exact keeps_pure _
  | cons spec rest ih =>
      refine keeps_bind (Loading.keeps_defineParts fun c made => ?_) fun _ =>
        ih fun other member => listed other (List.mem_cons_of_mem spec member)
      exact .inr ⟨spec, listed spec List.mem_cons_self, made⟩

theorem steady_withBuiltins (machine : Machine) : machine.Steady machine.withBuiltins := by
  have keeps : Keeps machine.Steady (defineAll Builtin.all) :=
    keeps_defineAll Builtin.all fun _ member => member
  unfold withBuiltins
  split
  · rename_i ran
    exact (keeps machine (Steady.refl machine)).of_ok ran
  · rename_i ran
    exact (keeps machine (Steady.refl machine)).of_error ran

theorem start_eq_ok {options : Options} {files : Files} {heap : Heap}
    (reserved : Heap.reserve options.heapSize = .ok heap) :
    Machine.start options files = .ok (blank options files heap).withBuiltins := by
  unfold Machine.start
  rw [reserved]
  rfl

/-- A machine starts with a heap of the size that the options say. -/
theorem exists_start_reserved {options : Options} {files : Files} {machine : Machine}
    (started : Machine.start options files = .ok machine) :
    ∃ heap, Heap.reserve options.heapSize = .ok heap ∧
      machine = (blank options files heap).withBuiltins := by
  unfold Machine.start at started
  cases reserved : Heap.reserve options.heapSize with
  | error violation =>
      rw [reserved] at started
      cases started
  | ok heap =>
      rw [reserved] at started
      cases started
      exact ⟨heap, rfl, rfl⟩

theorem exists_start {options : Options} {files : Files} {machine : Machine}
    (started : Machine.start options files = .ok machine) :
    ∃ heap, machine = (blank options files heap).withBuiltins := by
  obtain ⟨heap, -, same⟩ := exists_start_reserved started
  exact ⟨heap, same⟩

theorem sourced_start {options : Options} {files : Files} {machine : Machine}
    (started : Machine.start options files = .ok machine) : machine.Sourced := by
  obtain ⟨heap, rfl⟩ := exists_start started
  exact (steady_withBuiltins _).sourced (sourced_blank options files heap)

theorem identified_start {options : Options} {files : Files} {machine : Machine}
    (started : Machine.start options files = .ok machine) : machine.Identified := by
  obtain ⟨heap, rfl⟩ := exists_start started
  exact (steady_withBuiltins _).identified (identified_blank options files heap)

/-! ## Sessions -/

/-- A method of the dictionary. -/
def Declares (machine : Machine) (method : Method) : Prop := ∃ c ∈ machine.classes, method ∈ c.methods

/-- One part of a session: a class is found or entered, a method is called, or a thread is created
or made current. Whether it succeeds does not matter. -/
inductive Follows (machine : Machine) : Machine → Prop
  | call {method : Method} (declared : machine.Declares method) (fuel : Nat)
      (arguments : List Value) : Follows machine ((Call.run fuel method arguments).after machine)
  | resolve (name : String) : Follows machine ((Loading.resolve name).after machine)
  | define {source : String} {bytes : List UInt8} {c : Class}
      (read : Class.ofBytes source bytes = .ok c) :
      Follows machine ((Loading.define c).after machine)
  | createThread (name : String) (size : UInt64) :
      Follows machine ((createThread name size).after machine)
  | switchTo (number : Nat) : Follows machine (machine.switchTo number)

/-- The machines between the parts of a session that goes on only from machines that are
`allowed`. -/
inductive Session (Allowed : Machine → Prop) : Machine → Prop
  | start {options : Options} {files : Files} {machine : Machine}
      (started : Machine.start options files = .ok machine) : Session Allowed machine
  | next {machine later : Machine} (session : Session Allowed machine) (allowed : Allowed machine)
      (follows : machine.Follows later) : Session Allowed later

/-- The machines of a session, those that a call passes through among them. -/
inductive Reached (Allowed : Machine → Prop) : Machine → Prop
  | between {machine : Machine} (session : Session Allowed machine) : Reached Allowed machine
  | inside {first machine : Machine} {method : Method} {arguments : List Value}
      (session : Session Allowed first) (allowed : Allowed first) (declared : first.Declares method)
      (passes : Call.Passes method arguments first machine) : Reached Allowed machine

/-- A property that growth keeps and that says nothing of the thread is kept by calls. -/
theorem kept_of_grows {P : Machine → Prop}
    (grown : ∀ before after : Machine, before.Grows after → P before → P after)
    (beside : ∀ (machine : Machine) (change : Thread → Thread), P machine →
      P (machine.updateThread change)) : Call.Kept P P where
  weaken _ holds := holds
  state machine _ holds := beside machine _ holds
  ready c machine _ holds :=
    (ends_ensureReady_grows c machine).mono (fun _ later grows => grown machine later grows holds)
      fun _ later grows => grown machine later grows holds
  step machine holds :=
    (keeps_step_grows machine (Grows.refl machine)).mono
      (fun _ later grows => grown machine later grows holds)
      fun _ later grows => grown machine later grows holds
  native native arguments machine holds :=
    (keeps_native native arguments machine (Aside.refl machine)).mono
      (fun _ later aside => grown machine later aside.toGrows holds)
      fun _ later aside => grown machine later aside.toGrows holds
  enter frame _ _ machine _ holds :=
    ends_pushFrame (fun _ => grown machine _ (grows_pushFrame machine frame) holds) fun _ => holds
  unwind machine _ _ holds := beside machine _ holds

/-- If there is no memory for another heap, nothing happens. Otherwise the new thread has nothing
but its heap, and the others are parked. -/
theorem createThread_cases (machine : Machine) (name : String) (size : UInt64) :
    (createThread name size).after machine = machine ∨
      ∃ (bytes : UInt64) (heap : Heap), Heap.reserve bytes = .ok heap ∧
        (createThread name size).after machine = { machine with
          thread := .start (machine.parked.length + 1) name .new heap
          parked := machine.thread :: machine.parked } := by
  refine Ends.after (P := fun later => later = machine ∨
    ∃ (bytes : UInt64) (heap : Heap), Heap.reserve bytes = .ok heap ∧ later = { machine with
      thread := .start (machine.parked.length + 1) name .new heap
      parked := machine.thread :: machine.parked }) (ends_bind_get ?_)
  dsimp only
  split
  · exact ends_throw (.inl rfl)
  · rename_i heap reserved
    exact .inr ⟨_, heap, reserved, rfl⟩

theorem switchTo_cases (machine : Machine) (number : Nat) :
    machine.switchTo number = machine ∨ ∃ thread ∈ machine.parked, thread.number = number ∧
      machine.switchTo number = { machine with
        thread := thread
        parked := machine.thread :: machine.parked.filter (·.number != number) } := by
  unfold Machine.switchTo
  split
  · exact .inl rfl
  · rename_i thread found
    have numbered : thread.number = number := by simpa using List.find?_some found
    exact .inr ⟨thread, List.mem_of_find?_eq_some found, numbered, rfl⟩

/-! ## The dictionary of a session -/

/-- A property of the dictionary that classes cannot lose by being joined by others. -/
structure Dictionary (P : Machine → Prop) : Prop where
  start : ∀ {options : Options} {files : Files} {machine : Machine},
    Machine.start options files = .ok machine → P machine
  grows : ∀ before after : Machine, before.Grows after → P before → P after
  threads : ∀ (machine : Machine) (thread : Thread) (parked : List Thread), P machine →
    P { machine with thread := thread, parked := parked }

namespace Dictionary

variable {P Allowed : Machine → Prop} {machine later : Machine}

theorem kept (dictionary : Dictionary P) : Call.Kept P P :=
  kept_of_grows dictionary.grows fun machine change holds =>
    dictionary.threads machine (change machine.thread) machine.parked holds

theorem follows (dictionary : Dictionary P) (follows : machine.Follows later) (holds : P machine) :
    P later := by
  cases follows with
  | call declared fuel arguments => exact dictionary.kept.left (dictionary.kept.run fuel _ _) holds
  | resolve name =>
      have steady := (Loading.keeps_resolve name).after (Steady.refl machine)
      exact dictionary.grows _ _ steady.toGrows holds
  | @define source bytes c read =>
      have steady := (Loading.keeps_define (.inl ⟨source, bytes, read⟩)).after (Steady.refl machine)
      exact dictionary.grows _ _ steady.toGrows holds
  | createThread name size =>
      rcases createThread_cases machine name size with same | ⟨-, heap, -, same⟩
      · rwa [same]
      · rw [same]
        exact dictionary.threads machine _ _ holds
  | switchTo number =>
      rcases switchTo_cases machine number with same | ⟨thread, -, -, same⟩
      · rwa [same]
      · rw [same]
        exact dictionary.threads machine _ _ holds

theorem session (dictionary : Dictionary P) (session : Session Allowed machine) : P machine := by
  induction session with
  | start started => exact dictionary.start started
  | next session allowed follows ih => exact dictionary.follows follows ih

theorem reached (dictionary : Dictionary P) (reached : Reached Allowed machine) : P machine := by
  cases reached with
  | between session => exact dictionary.session session
  | inside session allowed declared passes =>
      exact dictionary.kept.passes passes (dictionary.session session)

end Dictionary

theorem dictionary_sourced : Dictionary Sourced where
  start started := sourced_start started
  grows _ _ grows := grows.sourced
  threads _ _ _ sourced := sourced

theorem dictionary_identified : Dictionary Identified where
  start started := identified_start started
  grows _ _ grows := grows.identified
  threads _ _ _ identified := ⟨identified.apart, identified.named, identified.layered⟩

theorem dictionary_hasBuiltins : Dictionary HasBuiltins where
  start started := by
    obtain ⟨heap, rfl⟩ := exists_start started
    exact hasBuiltins_withBuiltins rfl
  grows _ _ grows := grows.hasBuiltins
  threads _ _ _ has := has

theorem Session.sourced {Allowed : Machine → Prop} {machine : Machine}
    (session : Session Allowed machine) : machine.Sourced := dictionary_sourced.session session

/-! ## What lasts through a session -/

/-- A property of the whole machine that everything in a session keeps. -/
structure Lasting (P : Machine → Prop) : Prop where
  start : ∀ {options : Options} {files : Files} {machine : Machine},
    Machine.start options files = .ok machine → P machine
  kept : Call.Kept P P
  resolve : ∀ name : String, Keeps P (Loading.resolve name)
  define : ∀ {source : String} {bytes : List UInt8} {c : Class},
    Class.ofBytes source bytes = .ok c → Keeps P (Loading.define c)
  create : ∀ (machine : Machine) (name : String) (heap : Heap), P machine →
    heap.objects = #[] → P { machine with
      thread := .start (machine.parked.length + 1) name .new heap
      parked := machine.thread :: machine.parked }
  switch : ∀ (machine : Machine) (thread : Thread), P machine → thread ∈ machine.parked →
    P { machine with
      thread := thread
      parked := machine.thread :: machine.parked.filter (·.number != thread.number) }

theorem objects_reserve {bytes : UInt64} {heap : Heap} (reserved : Heap.reserve bytes = .ok heap) :
    heap.objects = #[] := by
  unfold Heap.reserve at reserved
  split at reserved
  · cases reserved
    rfl
  · cases reserved

/-- There are no objects at the start. -/
theorem exists_start_empty {options : Options} {files : Files} {machine : Machine}
    (started : Machine.start options files = .ok machine) :
    ∃ heap : Heap, heap.objects = #[] ∧ machine = (blank options files heap).withBuiltins := by
  obtain ⟨heap, reserved, same⟩ := exists_start_reserved started
  exact ⟨heap, objects_reserve reserved, same⟩

namespace Lasting

variable {P Allowed : Machine → Prop} {machine later : Machine}

theorem follows (lasting : Lasting P) (follows : machine.Follows later) (holds : P machine) :
    P later := by
  cases follows with
  | call declared fuel arguments => exact lasting.kept.left (lasting.kept.run fuel _ _) holds
  | resolve name => exact (lasting.resolve name).after holds
  | define read => exact (lasting.define read).after holds
  | createThread name size =>
      rcases createThread_cases machine name size with same | ⟨bytes, heap, reserved, same⟩
      · rwa [same]
      · rw [same]
        exact lasting.create machine name heap holds (objects_reserve reserved)
  | switchTo number =>
      rcases switchTo_cases machine number with same | ⟨thread, member, rfl, same⟩
      · rwa [same]
      · rw [same]
        exact lasting.switch machine thread holds member

theorem session (lasting : Lasting P) (session : Session Allowed machine) : P machine := by
  induction session with
  | start started => exact lasting.start started
  | next session allowed follows ih => exact lasting.follows follows ih

theorem reached (lasting : Lasting P) (reached : Reached Allowed machine) : P machine := by
  cases reached with
  | between session => exact lasting.session session
  | inside session allowed declared passes =>
      exact lasting.kept.passes passes (lasting.session session)

end Lasting

/-! ## A small session -/

/-- A class file is read and its class entered, if it can be. -/
def withFile (machine : Machine) (source : String) (bytes : List UInt8) : Machine :=
  match Class.ofBytes source bytes with
  | .error _ => machine
  | .ok c => (Loading.define c).after machine

theorem Session.withFile {Allowed : Machine → Prop} {machine : Machine}
    (session : Session Allowed machine) (allowed : Allowed machine) (source : String)
    (bytes : List UInt8) : Session Allowed (machine.withFile source bytes) := by
  unfold Machine.withFile
  split
  · exact session
  · rename_i read
    exact .next session allowed (.define read)

/-- The method of a name is called, if there is one. -/
def calling (machine : Machine) (name : String) (fuel : Nat) (arguments : List Value) : Machine :=
  match (machine.classes.flatMap (·.methods)).find? (·.name == name) with
  | none => machine
  | some method => (Call.run fuel method arguments).after machine

theorem calling_cases (machine : Machine) (name : String) (fuel : Nat) (arguments : List Value) :
    machine.calling name fuel arguments = machine ∨
      machine.Follows (machine.calling name fuel arguments) := by
  unfold Machine.calling
  split
  · exact .inl rfl
  · rename_i method found
    obtain ⟨c, known, listed⟩ := List.mem_flatMap.mp (List.mem_of_find?_eq_some found)
    exact .inr (.call ⟨c, known, listed⟩ fuel arguments)

theorem Session.calling {Allowed : Machine → Prop} {machine : Machine}
    (session : Session Allowed machine) (allowed : Allowed machine) (name : String) (fuel : Nat)
    (arguments : List Value) : Session Allowed (machine.calling name fuel arguments) := by
  rcases calling_cases machine name fuel arguments with same | follows
  · rwa [same]
  · exact .next session allowed follows

/-- Whether a class is ready when it is asked to be, unless that halts. -/
def readies? (machine : Machine) (c : LinkedClass) : Option Bool :=
  match Initialization.ensureReady c machine with
  | .ok ready _ => some ready
  | .error _ _ => none

theorem readies?_eq_some {machine : Machine} {c : LinkedClass} {ready : Bool}
    (readies : machine.readies? c = some ready) :
    ∃ later, Initialization.ensureReady c machine = .ok ready later := by
  unfold Machine.readies? at readies
  split at readies
  · rename_i ready' later ran
    obtain rfl := Option.some.inj readies
    exact ⟨later, ran⟩
  · cases readies

/-- The file of a class with two static methods, `add` with code `26 27 96 172` and `addFive` with
code `26 8 184 0 11 172`, whose instruction 184 calls `add`. -/
def adderFile : List UInt8 :=
  [202, 254, 186, 190, 0, 0, 0, 52, 0, 12, 1, 0, 5, 65, 100, 100, 101, 114, 7, 0, 1, 1, 0, 16, 106,
    97, 118, 97, 47, 108, 97, 110, 103, 47, 79, 98, 106, 101, 99, 116, 7, 0, 3, 1, 0, 4, 67, 111,
    100, 101, 1, 0, 3, 97, 100, 100, 1, 0, 5, 40, 73, 73, 41, 73, 1, 0, 7, 97, 100, 100, 70, 105,
    118, 101, 1, 0, 4, 40, 73, 41, 73, 12, 0, 6, 0, 7, 10, 0, 2, 0, 10, 0, 33, 0, 2, 0, 4, 0, 0, 0,
    0, 0, 2, 0, 9, 0, 6, 0, 7, 0, 1, 0, 5, 0, 0, 0, 16, 0, 2, 0, 2, 0, 0, 0, 4, 26, 27, 96, 172, 0,
    0, 0, 0, 0, 9, 0, 8, 0, 9, 0, 1, 0, 5, 0, 0, 0, 18, 0, 2, 0, 1, 0, 0, 0, 6, 26, 8, 184, 0, 11,
    172, 0, 0, 0, 0, 0, 0]

/-- The built-in classes, and the class of the file. -/
def adding : Machine :=
  (blank .standard .empty (.empty 8388608)).withBuiltins.withFile "Adder" adderFile

theorem session_adding : Session (fun _ => True) adding :=
  (Session.start (start_eq_ok rfl)).withFile trivial "Adder" adderFile

end Machine

end Jvm
