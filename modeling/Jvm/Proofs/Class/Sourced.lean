/-
# Jvm.Proofs.Class.Sourced — where classes come from

A class is read from a class file or is one of the classes that every machine starts with
(`Class.Sourced`). Either way its methods know the result that their descriptors spell, an
action bound to a method answers with a value of that result, and every field has a
descriptor that spells a type (`Class.Sourced.sound`). Linking to a superclass changes
none of this (`LinkedClass.Sourced.method`, `LinkedClass.Sourced.initializer`).
-/
import Jvm.Builtin
import Jvm.Class.Layout
import Jvm.Proofs.ClassFile.Declared

namespace Jvm

set_option autoImplicit false

open ClassFile.Reader (DeclaredField declaredClass_ofBytes)

/-- Whether an action is one that the classes of every machine bind, to a method of the given
result. -/
def Native.fits : Native → BasicType → Bool
  | .doNothing, .void | .newline, .void | .print _ _, .void | .openOutput, .void => true
  | .abs, .int | .max, .int | .min, .int => true
  | _, _ => false

/-- The result of a method is the one that its descriptor spells, and only actions that give it
are bound to it. -/
structure Method.Sound (method : Method) : Prop where
  result : method.result = Descriptor.resultType method.descriptor
  native : ∀ native, method.native = some native → native.fits method.result = true

instance (method : Method) : Decidable method.Sound :=
  decidable_of_iff (method.result = Descriptor.resultType method.descriptor ∧
      method.native.all (·.fits method.result) = true) <| by
    rw [Option.all_eq_true]
    exact ⟨fun ⟨result, fits⟩ => ⟨result, fits⟩, fun ⟨result, fits⟩ => ⟨result, fits⟩⟩

namespace Class

/-- The class has been read from a file, or every machine starts with it. -/
def Sourced (c : Class) : Prop :=
  (∃ source bytes, Class.ofBytes source bytes = .ok c) ∨
    ∃ spec ∈ Builtin.all, spec.parts.toClass = .ok c

/-- What the members of a class that comes from a file or is built in are like. -/
structure Sound (c : Class) : Prop where
  pool : c.pool.Checked
  methods : ∀ method ∈ c.methods, method.Sound
  fields : ∀ field ∈ c.fields, DeclaredField c.pool field
  fieldCount : c.fields.length < 65536

/-- The built-in classes, made of their parts. -/
def builtins : List Class := Builtin.all.filterMap fun spec => spec.parts.toClass.toOption

theorem mem_builtins {spec : Builtin.Spec} (listed : spec ∈ Builtin.all) {c : Class}
    (made : spec.parts.toClass = .ok c) : c ∈ builtins :=
  List.mem_filterMap.mpr ⟨spec, listed, by rw [made]; rfl⟩

theorem sound_builtins : ∀ c ∈ builtins,
    (∀ index < c.pool.length, ∀ entry ∈ c.pool.entryAt index,
      c.pool.checkReferences index entry.tag entry.references = .ok ()) ∧
      (∀ method ∈ c.methods, method.Sound) ∧
      (∀ field ∈ c.fields, Descriptor.isValidField field.descriptor = true ∧
        field.constantIndex = 0) ∧ c.fields.length < 65536 := by
  decide +kernel

theorem Sourced.sound {c : Class} (sourced : c.Sourced) : c.Sound := by
  rcases sourced with ⟨source, bytes, read⟩ | ⟨spec, listed, made⟩
  · have file := declaredClass_ofBytes read
    refine ⟨file.pool, fun method member => ?_,
      fun field member => (file.fields field member).toDeclaredField, file.fieldCount⟩
    have declared := file.methods method member
    exact ⟨declared.result, fun native bound => by rw [declared.native] at bound; cases bound⟩
  · obtain ⟨pool, methods, fields, few⟩ := sound_builtins c (mem_builtins listed made)
    refine ⟨fun index entry here => pool index ?_ entry here, methods, fun field member =>
      ⟨(fields field member).1, Or.inl (fields field member).2⟩, few⟩
    obtain ⟨slot, found, -⟩ := Option.bind_eq_some_iff.mp here
    exact (Array.getElem?_eq_some_iff.mp found).1

end Class

namespace LinkedClass

/-- The class is the result of linking a class that was read or is built in. -/
def Sourced (c : LinkedClass) : Prop :=
  ∃ declared id super, Class.Sourced declared ∧ LinkedClass.link declared id super = .ok c

theorem link_id {declared : Class} {id : ClassId} {super : Option LinkedClass} {c : LinkedClass}
    (linked : LinkedClass.link declared id super = .ok c) : c.id = id := by
  unfold LinkedClass.link at linked
  split at linked
  · cases linked
  · cases linked
    rfl

theorem link_name {declared : Class} {id : ClassId} {super : Option LinkedClass}
    {c : LinkedClass} (linked : LinkedClass.link declared id super = .ok c) :
    c.name = declared.name := by
  unfold LinkedClass.link at linked
  split at linked
  · cases linked
  · cases linked
    rfl

theorem link_supers {declared : Class} {id : ClassId} {super : Option LinkedClass}
    {c : LinkedClass} (linked : LinkedClass.link declared id super = .ok c) :
    c.supers = chainOf super := by
  unfold LinkedClass.link at linked
  split at linked
  · cases linked
  · cases linked
    rfl

theorem mem_methods_link {declared : Class} {id : ClassId} {super : Option LinkedClass}
    {c : LinkedClass} (linked : LinkedClass.link declared id super = .ok c) {method : Method}
    (member : method ∈ c.methods) :
    ∃ plain ∈ declared.methods, method = { plain with owner := some id } := by
  unfold LinkedClass.link at linked
  split at linked
  · cases linked
  · cases linked
    obtain ⟨plain, listed, rfl⟩ := List.mem_map.mp member
    exact ⟨plain, listed, rfl⟩

theorem Sourced.method {c : LinkedClass} (sourced : c.Sourced) {method : Method}
    (member : method ∈ c.methods) : method.Sound := by
  obtain ⟨declared, id, super, origin, linked⟩ := sourced
  obtain ⟨plain, listed, rfl⟩ := mem_methods_link linked member
  have sound := origin.sound.methods plain listed
  exact ⟨sound.result, sound.native⟩

/-- A method knows its class. -/
theorem Sourced.owner {c : LinkedClass} (sourced : c.Sourced) {method : Method}
    (member : method ∈ c.methods) : method.owner = some c.id := by
  obtain ⟨declared, id, super, -, linked⟩ := sourced
  obtain ⟨plain, -, rfl⟩ := mem_methods_link linked member
  rw [link_id linked]

/-- An initializer gives its caller nothing. -/
theorem Sourced.initializer {c : LinkedClass} (sourced : c.Sourced) {method : Method}
    (found : c.initializer? = some method) : method.result = .void := by
  have spelled : method.descriptor = "()V" := by
    have := List.find?_some found
    simp only [Bool.and_eq_true, beq_iff_eq] at this
    exact this.2
  have result := (sourced.method (List.mem_of_find?_eq_some found)).result
  rw [spelled] at result
  exact result.trans (by decide +kernel)

end LinkedClass

end Jvm
