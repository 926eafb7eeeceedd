/-
# Jvm.Proofs.Class.StaticSlots — the slots of the static fields of a class

Linking numbers the static fields of a class from zero. A class has fewer fields than a slot
number can count, so no two of them share a slot (`LinkedClass.Sourced.eq_of_slot`), and a
record of the class has a slot for each (`LinkedClass.Sourced.staticsWithin`).
-/
import Mathlib.Data.List.Pairwise
import Jvm.Proofs.Class.Sourced
import Jvm.Proofs.Descriptor

namespace Jvm

set_option autoImplicit false

open ClassFile.Reader (DeclaredField)

namespace Layout

/-- What linking leaves of a field. -/
theorem exists_of_mem_assign {instanceSlot staticSlot : Nat} {fields : List Field} {field : Field}
    (member : field ∈ assign instanceSlot staticSlot fields) :
    ∃ plain ∈ fields, field = { plain with slot := field.slot } := by
  induction fields generalizing instanceSlot staticSlot with
  | nil => cases member
  | cons first rest ih =>
      unfold assign at member
      split at member
      · rcases List.mem_cons.mp member with rfl | later
        · exact ⟨first, List.mem_cons_self, rfl⟩
        · obtain ⟨plain, listed, same⟩ := ih later
          exact ⟨plain, List.mem_cons_of_mem first listed, same⟩
      · rcases List.mem_cons.mp member with rfl | later
        · exact ⟨first, List.mem_cons_self, rfl⟩
        · obtain ⟨plain, listed, same⟩ := ih later
          exact ⟨plain, List.mem_cons_of_mem first listed, same⟩

/-- The static fields are numbered upwards from the first static slot. -/
theorem slot_assign {instanceSlot staticSlot : Nat} {fields : List Field}
    (few : staticSlot + fields.countP Field.isStatic < 65536) {field : Field}
    (member : field ∈ assign instanceSlot staticSlot fields) (static : field.isStatic = true) :
    staticSlot ≤ field.slot ∧ field.slot < staticSlot + fields.countP Field.isStatic := by
  induction fields generalizing instanceSlot staticSlot with
  | nil => cases member
  | cons first rest ih =>
      unfold assign at member
      split at member
      · rename_i counted
        rw [List.countP_cons_of_pos counted] at few ⊢
        rcases List.mem_cons.mp member with rfl | later
        · have kept : keptSlot staticSlot = staticSlot := Nat.mod_eq_of_lt (by omega)
          show staticSlot ≤ keptSlot staticSlot ∧ keptSlot staticSlot < _
          omega
        · have := ih (by omega) later
          omega
      · rename_i uncounted
        rw [List.countP_cons_of_neg uncounted] at few ⊢
        rcases List.mem_cons.mp member with rfl | later
        · exact absurd static uncounted
        · exact ih few later

theorem slots_assign {instanceSlot staticSlot : Nat} {fields : List Field}
    (few : staticSlot + fields.countP Field.isStatic < 65536) :
    (assign instanceSlot staticSlot fields).Pairwise fun f g =>
      f.isStatic = true → g.isStatic = true → f.slot ≠ g.slot := by
  induction fields generalizing instanceSlot staticSlot with
  | nil => exact .nil
  | cons first rest ih =>
      unfold assign
      split
      · rename_i counted
        rw [List.countP_cons_of_pos counted] at few
        refine .cons (fun g later _ static => ?_) (ih (by omega))
        have kept : keptSlot staticSlot = staticSlot := Nat.mod_eq_of_lt (by omega)
        have above := (slot_assign (by omega) later static).1
        show keptSlot staticSlot ≠ g.slot
        omega
      · rename_i uncounted
        rw [List.countP_cons_of_neg uncounted] at few
        exact .cons (fun _ _ static => absurd static uncounted) (ih few)

end Layout

namespace LinkedClass

variable {c : LinkedClass}

theorem Sourced.pool (sourced : c.Sourced) : c.pool.Checked := by
  obtain ⟨declared, id, super, origin, linked⟩ := sourced
  unfold LinkedClass.link at linked
  split at linked
  · cases linked
  · cases linked
    exact origin.sound.pool

/-- Linking moves fields, and leaves the rest of what they are. -/
theorem Sourced.field (sourced : c.Sourced) {field : Field} (member : field ∈ c.fields) :
    ∃ plain : Field, DeclaredField c.pool plain ∧ field = { plain with slot := field.slot } := by
  obtain ⟨declared, id, super, origin, linked⟩ := sourced
  unfold LinkedClass.link at linked
  split at linked
  · cases linked
  · cases linked
    obtain ⟨plain, listed, same⟩ := Layout.exists_of_mem_assign member
    exact ⟨plain, origin.sound.fields plain listed, same⟩

theorem Sourced.isHeld (sourced : c.Sourced) {field : Field} (member : field ∈ c.fields) :
    field.stackType.isHeld = true := by
  obtain ⟨plain, declared, same⟩ := sourced.field member
  rw [same]
  exact Descriptor.isHeld_of_isValidField declared.descriptor

theorem Sourced.staticsWithin (sourced : c.Sourced) {field : Field} (member : field ∈ c.fields)
    (static : field.isStatic = true) : field.slot < c.staticCount := by
  obtain ⟨declared, id, super, origin, linked⟩ := sourced
  unfold LinkedClass.link at linked
  split at linked
  · cases linked
  · cases linked
    have few := origin.sound.fieldCount
    have count := List.countP_le_length (p := Field.isStatic) (l := declared.fields)
    have within := (Layout.slot_assign (by omega) member static).2
    rwa [Nat.zero_add] at within

/-- Static fields that share a slot are the same field. -/
theorem Sourced.eq_of_slot (sourced : c.Sourced) {f g : Field} (one : f ∈ c.fields)
    (static : f.isStatic = true) (other : g ∈ c.fields) (static' : g.isStatic = true)
    (same : f.slot = g.slot) : f = g := by
  obtain ⟨declared, id, super, origin, linked⟩ := sourced
  unfold LinkedClass.link at linked
  split at linked
  · cases linked
  · cases linked
    have few := origin.sound.fieldCount
    have count := List.countP_le_length (p := Field.isStatic) (l := declared.fields)
    have symmetric : Std.Symm fun f g : Field =>
        f.isStatic = true → g.isStatic = true → f.slot ≠ g.slot :=
      ⟨fun _ _ apart static static' same => apart static' static same.symm⟩
    by_contra distinct
    exact (Layout.slots_assign (by omega)).forall one other distinct static static' same

end LinkedClass

end Jvm
