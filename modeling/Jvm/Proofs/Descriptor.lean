/-
# Jvm.Proofs.Descriptor — the types that descriptors spell

A field type, alone or among the parameters of a method, is never the type of no value: whatever
is computed with it is an `int`, `long`, `float`, `double` or a reference. The slots of the
parameters are those of their types (`paramSlots?_of_valid`).
-/
import Mathlib.Algebra.GroupWithZero.Nat
import Jvm.Descriptor
import Jvm.Value

namespace Jvm

set_option autoImplicit false

namespace BasicType

/-- The types of the values that a variable can hold. -/
def isHeld : BasicType → Bool
  | .int | .long | .float | .double | .object => true
  | _ => false

theorem size_of_isHeld {type : BasicType} (held : type.stackType.isHeld = true) : type.size ≠ 0 := by
  cases type <;> first | decide | cases held

end BasicType

theorem Value.type_zero {type : BasicType} (held : type.stackType.isHeld = true) :
    (Value.zero type).type = type.stackType := by
  cases type <;> first | rfl | cases held

namespace Descriptor

theorem isHeld_of_primitive {c : Char} (primitive : isPrimitive c = true) :
    (BasicType.ofChar c).stackType.isHeld = true := by
  simp only [isPrimitive, Bool.or_eq_true, beq_iff_eq] at primitive
  rcases primitive with ((((((rfl | rfl) | rfl) | rfl) | rfl) | rfl) | rfl) | rfl <;> rfl

/-- What starts like a field type is of a type that can be held. -/
theorem isHeld_of_fieldLength {cs : List Char} {length : Nat}
    (read : fieldLength? cs = some length) : (firstPart cs length).type.stackType.isHeld = true := by
  cases cs with
  | nil => cases read
  | cons c cs =>
      show (BasicType.ofChar c).stackType.isHeld = true
      unfold fieldLength? at read
      split at read
      · rename_i array
        rw [array]
        rfl
      · split at read
        · rename_i object
          rw [object]
          rfl
        · split at read
          · exact isHeld_of_primitive ‹_›
          · cases read

theorem isHeld_of_scanParts (cs : List Char) :
    ∀ part ∈ (scanParts cs).params, part.type.stackType.isHeld = true := by
  induction cs using scanParts.induct with
  | case1 cs closing =>
      rw [scanParts, if_pos closing]
      simp
  | case2 cs inside read =>
      rw [scanParts, if_neg inside]
      split
      · simp
      · rename_i read'
        rw [read] at read'
        cases read'
  | case3 cs inside length read ih =>
      rw [scanParts, if_neg inside]
      split
      · simp
      · rename_i length' read'
        obtain rfl : length = length' := Option.some.inj (read.symm.trans read')
        exact List.forall_mem_cons.mpr ⟨isHeld_of_fieldLength read, ih⟩

theorem isHeld_of_paramTypes (descriptor : String) :
    ∀ type ∈ paramTypes descriptor, type.stackType.isHeld = true := by
  intro type member
  obtain ⟨part, listed, rfl⟩ := List.mem_map.mp member
  unfold parts at listed
  split at listed
  · exact isHeld_of_scanParts _ part listed
  · cases listed

theorem isHeld_of_wholePart {cs : List Char} {part : Part} (whole : wholePart? cs = some part) :
    part.type.stackType.isHeld = true := by
  unfold wholePart? at whole
  split at whole
  · rename_i length read
    split at whole
    · cases whole
      exact isHeld_of_fieldLength read
    · cases whole
  · cases whole

theorem isHeld_of_isValidField {text : String} (valid : isValidField text = true) :
    (fieldType text).stackType.isHeld = true := by
  unfold isValidField at valid
  unfold fieldType at valid ⊢
  split at valid
  · rename_i part whole
    exact isHeld_of_wholePart whole
  · cases valid

theorem foldl_slots (params : List Part) (start : Nat) :
    params.foldl (fun slots part => slots + part.type.size) start =
      start + (params.map fun part => part.type.size).sum := by
  induction params generalizing start with
  | nil => rfl
  | cons part rest ih =>
      rw [List.foldl_cons, ih, List.map_cons, List.sum_cons, Nat.add_assoc]

/-- The slots of the parameters of a method descriptor. -/
theorem paramSlots?_of_valid {text : String} (valid : isValidMethod text = true) :
    paramSlots? text = some ((paramTypes text).map BasicType.size).sum := by
  obtain ⟨result, spelled⟩ := Option.isSome_iff_exists.mp valid
  unfold paramSlots? paramTypes
  dsimp only
  rw [spelled, Option.map_some, foldl_slots, List.map_map, Nat.zero_add]
  rfl

end Descriptor

end Jvm
