/-
# Jvm.Proofs.Machine.InstanceFields — what the objects of a machine hold

Every object fits its class (`Machine.Stored`), as long as no class has more slots than a field can
number. A new object does, and so does one in which a value of the type of the slot is written
(`Stored.write`), as when a new string gets its text. So this is a property of objects that
everything keeps which is done between two instructions (`objectProperty_stored`).
-/
import Jvm.Proofs.Machine.ObjectProperties

namespace Jvm

set_option autoImplicit false

open Exec Machine

namespace Machine

/-- Every object fits its class. -/
structure Stored (machine : Machine) : Prop extends machine.Founded where
  fits : machine.Small → ∀ (ref : Ref) (object : Object), machine.object? ref = some object →
    ∃ c ∈ machine.classes, object.Fits c

variable {machine later : Machine}

/-- No object is new, and no class is gone. -/
theorem Stored.stays (stored : machine.Stored) (founded : later.Founded)
    (classes : machine.classes ⊆ later.classes)
    (objects : ∀ ref object, later.object? ref = some object → machine.object? ref = some object) :
    later.Stored := by
  refine ⟨founded, fun small ref object found => ?_⟩
  obtain ⟨c, known, fits⟩ := stored.fits (small.of_subset classes) ref object (objects ref object found)
  exact ⟨c, classes known, fits⟩

/-- A value of the type of the slot is written into an object. -/
theorem Stored.write (stored : machine.Stored) {ref : Ref} {slot : Nat} {v : Value}
    (typed : machine.Small → ∀ object, machine.object? ref = some object →
      ∀ c ∈ machine.classes, object.Fits c → c.slotTypes[slot]? = some v.type) :
    (machine.updateHeap ref.heap fun heap => heap.putField ref.index slot v).Stored := by
  have classes := classes_updateHeap machine ref.heap fun heap => heap.putField ref.index slot v
  have steady := steady_updateHeap machine ref.heap fun heap => heap.putField ref.index slot v
  refine ⟨stored.toFounded.grows steady.toGrows (stored.formed.of_classes classes),
    fun small other object found => ?_⟩
  have small' : machine.Small := small.of_subset fun _ known => steady.mem known
  rw [object?_putField] at found
  obtain ⟨old, held, rfl⟩ := Option.map_eq_some_iff.mp found
  obtain ⟨c, known, fits⟩ := stored.fits small' other old held
  refine ⟨c, steady.mem known, ?_⟩
  split
  · rename_i same
    exact fits.write (typed small' old (same ▸ held) c known fits)
  · exact fits

theorem Stored.addObject (stored : machine.Stored) {c : LinkedClass} (known : c ∈ machine.classes) :
    (machine.updateThread fun thread => thread.addObject c).Stored := by
  refine ⟨stored.toFounded.addObject c, fun small ref object found => ?_⟩
  rw [object?_addObject] at found
  split at found
  · obtain rfl := Option.some.inj found
    exact ⟨c, known, Object.fits_ofClass (stored.formed.slotTypes_held stored.sourced known)⟩
  · exact stored.fits small ref object found

/-- The hidden slot of a new string is for its text. -/
theorem Stored.withString (stored : machine.Stored) {c : LinkedClass}
    (found : machine.findClass? stringClass = some c) (text : String) :
    (machine.withString c text).Stored := by
  refine ⟨stored.toFounded.withString c text, fun small ref object held => ?_⟩
  rw [object?_withString] at held
  split at held
  · obtain rfl := Option.some.inj held
    have known : c ∈ machine.classes := List.mem_of_find?_eq_some found
    have fits := Object.fits_ofClass (stored.formed.slotTypes_held stored.sourced known)
    exact ⟨c, known, fits.write (stored.builtins.slotType_text found)⟩
  · exact stored.fits small ref object held

end Machine

namespace Exec

variable {machine : Machine}

theorem keeps_intern_stored (text : String) : Keeps Stored (intern text) := by
  intro machine stored
  refine (ends_intern stored.builtins text).mono (fun ref later ended => ?_)
    fun _ _ ended => ended.1 ▸ stored
  rcases ended with ⟨-, rfl⟩ | ⟨-, -, c, found, rfl⟩
  · exact stored
  · exact stored.withString found text

end Exec

theorem objectProperty_stored : ObjectProperty Stored where
  founded stored := stored.toFounded
  stays := Stored.stays
  interns := keeps_intern_stored
  streams stored found :=
    ends_allocate_of stored (stored.addObject (List.mem_of_find?_eq_some found))

end Jvm
