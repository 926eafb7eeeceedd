/-
# Jvm.Proofs.Machine.Granted — sessions in which some calls are granted

Some properties of a machine last only if no call is of a certain kind: one that executes a certain
instruction, or one with arguments of another thread. `Conducted Granted` are the machines between
the parts of a session in which only granted calls are made, and `Attained Granted` are those that
such a session passes through. A property that all parts of such a session keep holds of all of them
(`Endures`). Besides what a session does, strings can be interned, as arguments of calls are.
-/
import Jvm.Proofs.Machine.Session

namespace Jvm

set_option autoImplicit false

open Machine Exec

namespace Machine

section Sessions

variable (Granted : Machine → Method → List Value → Prop)

/-- One part of a session in which only granted calls are made. -/
inductive Proceeds (machine : Machine) : Machine → Prop
  | call {method : Method} (declared : machine.Declares method) (fuel : Nat)
      {arguments : List Value} (granted : Granted machine method arguments) :
      Proceeds machine ((Call.run fuel method arguments).after machine)
  | intern (text : String) : Proceeds machine ((Exec.intern text).after machine)
  | resolve (name : String) : Proceeds machine ((Loading.resolve name).after machine)
  | define {source : String} {bytes : List UInt8} {c : Class}
      (read : Class.ofBytes source bytes = .ok c) :
      Proceeds machine ((Loading.define c).after machine)
  | createThread (name : String) (size : UInt64) :
      Proceeds machine ((createThread name size).after machine)
  | switchTo (number : Nat) : Proceeds machine (machine.switchTo number)

/-- The machines between the parts of a session in which only granted calls are made. -/
inductive Conducted : Machine → Prop
  | start {options : Options} {files : Files} {machine : Machine}
      (started : Machine.start options files = .ok machine) : Conducted machine
  | next {machine later : Machine} (conducted : Conducted machine)
      (proceeds : Proceeds Granted machine later) : Conducted later

/-- The machines of such a session, those that a call passes through among them. -/
inductive Attained : Machine → Prop
  | between {machine : Machine} (conducted : Conducted Granted machine) : Attained machine
  | inside {first machine : Machine} {method : Method} {arguments : List Value}
      (conducted : Conducted Granted first) (declared : first.Declares method)
      (granted : Granted first method arguments)
      (passes : Call.Passes method arguments first machine) : Attained machine

/-- A property that every part of a session keeps in which only granted calls are made. -/
structure Endures (P : Machine → Prop) : Prop where
  start : ∀ {options : Options} {files : Files} {machine : Machine},
    Machine.start options files = .ok machine → P machine
  call : ∀ {machine passed : Machine} {method : Method} {arguments : List Value}, P machine →
    machine.Declares method → Granted machine method arguments →
    Call.Passes method arguments machine passed → P passed
  intern : ∀ text : String, Keeps P (intern text)
  resolve : ∀ name : String, Keeps P (Loading.resolve name)
  define : ∀ {source : String} {bytes : List UInt8} {c : Class},
    Class.ofBytes source bytes = .ok c → Keeps P (Loading.define c)
  create : ∀ {machine : Machine} {size : UInt64} {heap : Heap} (name : String), P machine →
    Heap.reserve size = .ok heap → P { machine with
      thread := .start (machine.parked.length + 1) name .new heap
      parked := machine.thread :: machine.parked }
  switch : ∀ {machine : Machine} {thread : Thread}, P machine → thread ∈ machine.parked →
    P { machine with
      thread := thread
      parked := machine.thread :: machine.parked.filter (·.number != thread.number) }

end Sessions

namespace Endures

variable {Granted : Machine → Method → List Value → Prop} {P : Machine → Prop}
  {machine later : Machine}

theorem proceeds (endures : Endures Granted P) (proceeds : Proceeds Granted machine later)
    (holds : P machine) : P later := by
  cases proceeds with
  | call declared fuel granted => exact endures.call holds declared granted .ends
  | intern text => exact (endures.intern text).after holds
  | resolve name => exact (endures.resolve name).after holds
  | define read => exact (endures.define read).after holds
  | createThread name size =>
      rcases createThread_cases machine name size with same | ⟨bytes, heap, reserved, same⟩
      · rwa [same]
      · rw [same]
        exact endures.create name holds reserved
  | switchTo number =>
      rcases switchTo_cases machine number with same | ⟨thread, member, rfl, same⟩
      · rwa [same]
      · rw [same]
        exact endures.switch holds member

theorem conducted (endures : Endures Granted P) (conducted : Conducted Granted machine) :
    P machine := by
  induction conducted with
  | start started => exact endures.start started
  | next conducted proceeds ih => exact endures.proceeds proceeds ih

theorem attained (endures : Endures Granted P) (attained : Attained Granted machine) : P machine := by
  cases attained with
  | between conducted => exact endures.conducted conducted
  | inside conducted declared granted passes =>
      exact endures.call (endures.conducted conducted) declared granted passes

end Endures

/-- What is true of the dictionary of any session is true of that of a session of granted calls. -/
theorem Dictionary.endures {P : Machine → Prop} (dictionary : Dictionary P)
    (Granted : Machine → Method → List Value → Prop) : Endures Granted P where
  start := dictionary.start
  call holds _ _ passes := dictionary.kept.passes passes holds
  intern text machine holds :=
    (keeps_intern text machine (Steady.refl machine)).mono
      (fun _ later steady => dictionary.grows machine later steady.toGrows holds)
      fun _ later steady => dictionary.grows machine later steady.toGrows holds
  resolve name machine holds :=
    (Loading.keeps_resolve name machine (Steady.refl machine)).mono
      (fun _ later steady => dictionary.grows machine later steady.toGrows holds)
      fun _ later steady => dictionary.grows machine later steady.toGrows holds
  define read machine holds :=
    (Loading.keeps_define (.inl ⟨_, _, read⟩) machine (Steady.refl machine)).mono
      (fun _ later steady => dictionary.grows machine later steady.toGrows holds)
      fun _ later steady => dictionary.grows machine later steady.toGrows holds
  create _ holds _ := dictionary.threads _ _ _ holds
  switch holds _ := dictionary.threads _ _ _ holds

/-! ## A small session -/

theorem Conducted.withFile {Granted : Machine → Method → List Value → Prop} {machine : Machine}
    (conducted : Conducted Granted machine) (source : String) (bytes : List UInt8) :
    Conducted Granted (machine.withFile source bytes) := by
  unfold Machine.withFile
  split
  · exact conducted
  · rename_i read
    exact .next conducted (.define read)

/-- The method of a name is called, and the call is granted. -/
theorem Conducted.calling {Granted : Machine → Method → List Value → Prop} {machine : Machine}
    (conducted : Conducted Granted machine) {name : String} (fuel : Nat) {arguments : List Value}
    (granted : ∀ method, (machine.classes.flatMap (·.methods)).find? (·.name == name) = some method →
      Granted machine method arguments) :
    Conducted Granted (machine.calling name fuel arguments) := by
  unfold Machine.calling
  split
  · exact conducted
  · rename_i method found
    obtain ⟨c, known, listed⟩ := List.mem_flatMap.mp (List.mem_of_find?_eq_some found)
    exact .next conducted (.call ⟨c, known, listed⟩ fuel (granted method found))

end Machine

end Jvm
