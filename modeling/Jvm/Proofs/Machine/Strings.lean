/-
# Jvm.Proofs.Machine.Strings — the texts of strings

A string gets its text when it is interned, right after it is allocated. The hidden slot that holds
the text is no field, so no assignment reaches it: the class of strings and the root class declare
no fields at all. So every string has a text (`Machine.Texted`), as long as `new` does not make one:
what `new` allocates is a string without a text, which prints as nothing but a violation.
-/
import Jvm.Proofs.Machine.ObjectProperties

namespace Jvm

set_option autoImplicit false

open Exec Machine

/-! ## The class of strings -/

namespace Machine

variable {machine later : Machine}

/-- The class of strings is the only class of its name. -/
structure OneString (machine : Machine) : Prop where
  builtins : machine.HasBuiltins
  only : ∀ c ∈ machine.classes, c.name = stringClass → c ∈ builtinClasses

theorem OneString.found (one : machine.OneString) {c : LinkedClass} (known : c ∈ machine.classes)
    (name : c.name = stringClass) : machine.findClass? stringClass = some c :=
  name ▸ one.builtins c (one.only c known name)

theorem dictionary_oneString : Dictionary OneString where
  start started := by
    obtain ⟨heap, rfl⟩ := exists_start started
    refine ⟨hasBuiltins_withBuiltins rfl, fun c known _ => ?_⟩
    rwa [classes_withBuiltins rfl] at known
  grows before after grows one := by
    refine ⟨grows.hasBuiltins one.builtins, fun c known name => ?_⟩
    obtain ⟨added, classes, fresh⟩ := grows.classes
    rw [classes] at known
    rcases List.mem_append.mp known with new | old
    · obtain ⟨d, -, found, -⟩ := one.builtins.exists_string
      cases (name ▸ (fresh c new).2).symm.trans found
    · exact one.only c old name
  threads _ _ _ one := ⟨one.builtins, one.only⟩

/-- The object is a string of the machine. -/
def IsString (machine : Machine) (object : Object) : Prop :=
  ∃ c, machine.findClass? stringClass = some c ∧ object.classId = c.id

/-- The object has a text in its hidden slot. -/
def HasText (machine : Machine) (object : Object) : Prop :=
  ∃ c text, machine.findClass? stringClass = some c ∧
    object.fields[c.firstHiddenSlot]? = some (.text (some text))

/-- Every object is of a class of the dictionary, and every string has a text. -/
structure Texted (machine : Machine) : Prop extends machine.Founded where
  classed : ∀ (ref : Ref) (object : Object), machine.object? ref = some object →
    ∃ c ∈ machine.classes, c.id = object.classId
  texts : ∀ (ref : Ref) (object : Object), machine.object? ref = some object →
    machine.IsString object → machine.HasText object

theorem Texted.stays (texted : machine.Texted) (founded : later.Founded)
    (classes : machine.classes ⊆ later.classes)
    (objects : ∀ ref object, later.object? ref = some object → machine.object? ref = some object) :
    later.Texted := by
  have same := texted.builtins.string_eq founded.builtins
  refine ⟨founded, fun ref object found => ?_, fun ref object found string => ?_⟩
  · obtain ⟨c, known, id⟩ := texted.classed ref object (objects ref object found)
    exact ⟨c, classes known, id⟩
  · unfold IsString at string
    unfold HasText
    rw [same] at string ⊢
    exact texted.texts ref object (objects ref object found) string

/-- An object is new, and no string, which would have no text yet. -/
theorem Texted.addObject (texted : machine.Texted) {c : LinkedClass} (known : c ∈ machine.classes)
    (other : c.name ≠ stringClass) :
    (machine.updateThread fun thread => thread.addObject c).Texted := by
  refine ⟨texted.toFounded.addObject c, fun ref object found => ?_,
    fun ref object found string => ?_⟩
  all_goals
    rw [object?_addObject] at found
    split at found
  · exact ⟨c, known, Option.some.inj found ▸ rfl⟩
  · exact texted.classed ref object found
  · obtain rfl := Option.some.inj found
    obtain ⟨d, found', same⟩ := string
    have equal := texted.identified.eq_of_id known (List.mem_of_find?_eq_some found') same
    exact absurd (equal ▸ by simpa using List.find?_some found') other
  · exact texted.texts ref object found string

/-- A new string gets its text at once. -/
theorem Texted.withString (texted : machine.Texted) {c : LinkedClass}
    (found : machine.findClass? stringClass = some c) (text : String) :
    (machine.withString c text).Texted := by
  obtain ⟨d, -, found', -, hidden, -⟩ := texted.builtins.exists_string
  obtain rfl := Option.some.inj (found.symm.trans found')
  refine ⟨texted.toFounded.withString c text, fun ref object held => ?_,
    fun ref object held string => ?_⟩
  all_goals
    rw [object?_withString] at held
    split at held
  · exact ⟨c, List.mem_of_find?_eq_some found, Option.some.inj held ▸ rfl⟩
  · exact texted.classed ref object held
  · obtain rfl := Option.some.inj held
    refine ⟨c, text, found, Array.getElem?_setIfInBounds_self_of_lt ?_⟩
    simpa [Object.ofClass] using hidden
  · exact texted.texts ref object held string

/-- The class that an object of the class of strings is of, wherever it is looked up. -/
theorem Founded.isString_iff (founded : machine.Founded) {object : Object} {c : LinkedClass}
    (known : machine.classOf? object.classId = some c) :
    machine.IsString object ↔ machine.findClass? stringClass = some c := by
  refine ⟨?_, fun found => ⟨c, found, (mem_of_classOf? known).2.symm⟩⟩
  rintro ⟨d, found, same⟩
  have same' := (mem_of_classOf? known).2
  rwa [founded.identified.eq_of_id (mem_of_classOf? known).1 (List.mem_of_find?_eq_some found)
    (same'.trans same)]

end Machine

namespace Exec

variable {machine : Machine}

/-! ## What changes objects -/

theorem keeps_intern_texted (text : String) : Keeps Texted (intern text) := by
  intro machine texted
  refine (ends_intern texted.builtins text).mono (fun ref later ended => ?_)
    fun _ _ ended => ended.1 ▸ texted
  rcases ended with ⟨-, rfl⟩ | ⟨-, -, c, found, rfl⟩
  · exact texted
  · exact texted.withString found text

/-- The object of a field access is there, and its class is below the one that declares the field. -/
theorem ends_checkField_class (ref : Ref) (field : LinkedField) :
    (checkField ref field).Ends machine
      (fun _ later => later = machine ∧ ∃ object c, machine.object? ref = some object ∧
        machine.classOf? object.classId = some c ∧ c.isSubclassOf field.owner.id = true)
      fun _ later => later = machine := by
  unfold checkField object
  rw [bind_assoc]
  refine ends_bind_get ?_
  cases held : machine.object? ref with
  | none => exact ends_throw rfl
  | some object =>
      refine ends_bind_classOf (fun c found => ?_) fun absent => rfl
      split
      · exact ends_throw rfl
      · rename_i right
        rw [not_or, Decidable.not_not] at right
        exact ends_pure ⟨rfl, object, c, rfl, found, right.1⟩

end Exec

/-- A field that is declared is not one of a string. -/
theorem Machine.Founded.not_isString {machine : Machine} (founded : machine.Founded)
    {field : LinkedField} (declared : Linking.Declared machine field) {object : Object}
    {c : LinkedClass} (known : machine.classOf? object.classId = some c)
    (below : c.isSubclassOf field.owner.id = true) : ¬ machine.IsString object := by
  rw [founded.isString_iff known]
  intro found
  obtain ⟨d, -, found', -, -, chain⟩ := founded.builtins.exists_string
  obtain rfl := Option.some.inj (found.symm.trans found')
  obtain ⟨e, known', same, none⟩ := chain field.owner.id (List.contains_iff_mem.mp below)
  obtain rfl := founded.identified.eq_of_id known' declared.1 same
  obtain ⟨written, listed, -⟩ := declared.2
  rw [none] at listed
  cases listed

/-- A slot of an object is written that is no string. -/
theorem Machine.Texted.write {machine : Machine} (texted : machine.Texted) {ref : Ref} {slot : Nat}
    {v : Value} (other : ∀ object, machine.object? ref = some object → ¬ machine.IsString object) :
    (machine.updateHeap ref.heap fun heap => heap.putField ref.index slot v).Texted := by
  have classes := classes_updateHeap machine ref.heap fun heap => heap.putField ref.index slot v
  have founded := texted.toFounded.grows (steady_updateHeap machine ref.heap fun heap =>
    heap.putField ref.index slot v).toGrows (texted.formed.of_classes classes)
  have same := texted.builtins.string_eq founded.builtins
  refine ⟨founded, fun target object found => ?_, fun target object found string => ?_⟩
  · rw [object?_putField] at found
    obtain ⟨old, before, rfl⟩ := Option.map_eq_some_iff.mp found
    rw [classes]
    split <;> exact texted.classed target old before
  · unfold IsString at string
    unfold HasText
    rw [same] at string ⊢
    rw [object?_putField] at found
    obtain ⟨old, before, rfl⟩ := Option.map_eq_some_iff.mp found
    by_cases written : target = ref
    · rw [if_pos written] at string
      exact absurd string (other old (written ▸ before))
    · rw [if_neg written] at string ⊢
      exact texted.texts target old before string

theorem objectProperty_texted : ObjectProperty Texted where
  founded texted := texted.toFounded
  stays := Texted.stays
  interns := keeps_intern_texted
  streams {machine c} texted found := by
    have known := List.mem_of_find?_eq_some found
    refine ends_allocate_of texted (texted.addObject known fun name => ?_)
    have name' : c.name = Builtin.printStream.name := by simpa using List.find?_some found
    exact absurd (name'.symm.trans name) (by decide +kernel)

namespace Exec

/-- An assignment writes no string, so it keeps what the writing of other objects keeps. -/
theorem ends_setField_other {P : Machine → Prop} (basics : Basics P)
    (founded : ∀ {machine : Machine}, P machine → machine.Founded)
    (writes : ∀ {machine : Machine} {ref : Ref} {slot : Nat} {v : Value}, P machine →
      (∀ object, machine.object? ref = some object → ¬ machine.IsString object) →
        P (machine.updateHeap ref.heap fun heap => heap.putField ref.index slot v))
    {machine : Machine} (holds : P machine) {field : LinkedField}
    (declared : Linking.Declared machine field) (length : Nat) :
    (setField field length).Ends machine (fun _ => P) fun _ => P := by
  have pops {α : Type} {action : FrameM α} (continues : FrameM.Continues action) (before : Machine)
      (holds : P before) : (onTop action).Ends before
        (fun _ later => P later ∧ before.Grows later) fun _ later => P later :=
    ((basics.keeps_onTop action before holds).and (ends_onTop_calm continues)).mono
      (fun _ _ ended => ⟨ended.1, ended.2.1.toGrows⟩) fun _ _ ended => ended.1
  refine (pops (FrameM.continues_pop field.type) machine holds).bind fun v popped ended => ?_
  obtain ⟨holds', grows⟩ := ended
  refine (pops FrameM.continues_popRef popped holds').bind fun object asked ended => ?_
  obtain ⟨holds'', grows'⟩ := ended
  cases object with
  | none => exact ends_throw holds''
  | some ref =>
      have declared' := Recorded.declared_grows (grows.trans grows') declared
      refine (ends_checkField_class ref field).before (fun _ checked ended => ?_) fun _ _ same =>
        same ▸ holds''
      obtain ⟨rfl, object, c, held, known, below⟩ := ended
      refine ends_bind_modify (basics.keeps_onTop _ _ (writes holds'' fun found held' => ?_))
      obtain rfl := Option.some.inj (held.symm.trans held')
      exact (founded holds'').not_isString declared' known below

theorem ends_setField_texted {machine : Machine} (texted : machine.Texted) {field : LinkedField}
    (declared : Linking.Declared machine field) (length : Nat) :
    (setField field length).Ends machine (fun _ => Texted) fun _ => Texted :=
  ends_setField_other objectProperty_texted.basics (fun texted => texted.toFounded)
    (fun texted other => texted.write other) texted declared length

end Exec

end Jvm
