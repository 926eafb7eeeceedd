/-
# Jvm.Proofs.Loading.Accepted — what the reader accepts is safe to use

The reader checks each part of a file once, and nobody checks it again: not those who look up a
name, a tag or a constant of the class (`Class.Sure`), nor those who link it (`Class.exists_link`)
or give its static fields their first values (`Statics.ends_prepare_lacksRoom`). They need not: for a
class that was read, all that can go wrong for them is that the heap has no room for a string
(`Class.ofBytes_safe`).
-/
import Jvm.Proofs.Call.StaticFields
import Jvm.Proofs.Loading.ClassPath
import Jvm.Proofs.Pool.Resolvable

namespace Jvm

set_option autoImplicit false

open Exec Machine
open ClassFile.Reader (DeclaredClass declaredClass_ofBytes)
open Pool (Query Wanted)

/-- Out of memory is a fault that the program can catch. -/
theorem Machine.LacksRoom.reason {machine : Machine} {halt : Halt} (lacks : machine.LacksRoom halt) :
    ∃ fault, halt = .fault fault ∧ fault.reason = some .outOfMemory := by
  obtain ⟨c, -, -, rfl⟩ := lacks
  exact ⟨_, rfl, rfl⟩

/-! ## First values -/

namespace Statics

variable {machine : Machine} {c : LinkedClass}

theorem ends_fill_lacksRoom (has : machine.HasBuiltins) (sourced : c.Sourced) {fields : List Field}
    (declared : fields ⊆ c.fields) :
    (fill c fields).Ends machine (fun _ _ => True) fun halt later => later.LacksRoom halt := by
  induction fields generalizing machine with
  | nil => exact ends_pure trivial
  | cons field rest ih =>
      obtain ⟨listed, declared'⟩ := List.cons_subset.mp declared
      unfold fill
      dsimp only
      split
      · refine (ends_firstValue has sourced listed).before (fun v later first => ?_)
          fun _ _ stopped => stopped.1 ▸ stopped.2
        have grows : machine.Grows
            (later.updateThread fun thread => thread.putStatic c.id field.slot v) :=
          first.1.toGrows.step rfl rfl rfl rfl rfl rfl
        exact ends_bind_modify (ih (grows.hasBuiltins has) declared')
      · exact ih has declared'

/-- Preparing a class halts only when there is no room for a string. -/
theorem ends_prepare_lacksRoom (has : machine.HasBuiltins) (sourced : c.Sourced) :
    (prepare c).Ends machine (fun _ _ => True) fun halt later => later.LacksRoom halt := by
  refine ends_bind_thread ?_
  split
  · exact ends_pure trivial
  · have entered : ∀ record, (machine.updateThread fun thread =>
        { thread with records := record :: thread.records }).HasBuiltins := fun record =>
      ((Grows.refl machine).step rfl rfl rfl rfl rfl rfl).hasBuiltins has
    refine ends_bind_modify ?_
    exact (ends_fill_lacksRoom (entered _) sourced (List.Subset.refl _)).bind fun _ _ _ =>
      ends_pure trivial

end Statics

namespace Class

/-- What those rely on who look something up in a class and do not check it again. Whatever has been
resolved before, constants of all kinds that can be resolved are, and are found whole; so are the
members and class names by which programs are run. The references of constants lead to slots of the
kinds that they need. The names and descriptors of members and the name of the source file are
texts. The constant of a static field can be loaded, and is of the kind of the field. -/
structure Sure (c : Class) : Prop where
  resolves : ∀ index entry, c.pool.entryAt index = some entry → entry.tag.isResolvable = true →
    ∀ (earlier : List Query) (wanted : Wanted), wanted.accepts entry.tag = true →
      ∃ found, c.pool.answerAfter earlier (.entry index wanted) = .ok (.entry found) ∧
        found.tag = entry.tag ∧ found.Whole c.pool
  members : ∀ index kind parts, c.pool.entryAt index = some (.member kind parts) →
    ∃ ref, c.pool.memberAt kind [] index = .ok ref
  classNames : ∀ index target, c.pool.entryAt index = some (.classRef target) →
    ∃ name, c.pool.className index = .ok name
  references : ∀ index entry, c.pool.entryAt index = some entry →
    ∀ target kind, (target, kind) ∈ entry.references →
      ∃ tag, c.pool.checkedTagAt target = .ok tag ∧ kind.accepts tag = true ∧
        (tag = .utf8 → ∃ text, c.pool.textAt target.toNat = .ok text)
  methods : ∀ method ∈ c.methods,
    c.pool.textAt method.nameText.index = .ok method.name ∧
      c.pool.textAt method.descriptorText.index = .ok method.descriptor
  fields : ∀ field ∈ c.fields, (∃ index, c.pool.textAt index = .ok field.name) ∧
    ∃ index, c.pool.textAt index = .ok field.descriptor
  sourceFile : c.sourceIndex ≠ 0 → ∃ text, c.pool.textAt c.sourceIndex = .ok text
  constants : ∀ field ∈ c.fields, field.constantIndex ≠ 0 → field.isStatic = true ∧
    c.pool.checkedTagAt field.constantIndex = .ok (c.pool.tagAt field.constantIndex) ∧
    ∃ constant, c.pool.loadable field.constantIndex (field.stackType.size == 2) = .ok constant ∧
      constant.type = field.stackType

theorem sure_of_declared {c : Class} (declared : DeclaredClass c) : c.Sure where
  resolves _ _ here resolvable earlier _ accepted :=
    declared.pool.answers declared.unused here resolvable earlier accepted
  members _ _ _ here := declared.pool.exists_member declared.unused here
  classNames _ _ here := declared.pool.exists_className declared.unused here
  references _ _ here _ _ refers := declared.pool.lookups here refers
  methods method listed :=
    ⟨(declared.methods method listed).name.textAt, (declared.methods method listed).spelling.textAt⟩
  fields field listed := by
    obtain ⟨index, name⟩ := (declared.fields field listed).name
    obtain ⟨index', descriptor⟩ := (declared.fields field listed).spelling
    exact ⟨⟨index, name.textAt⟩, index', descriptor.textAt⟩
  sourceFile named := by
    obtain ⟨text, has⟩ := declared.source.resolve_left named
    exact ⟨text, has.textAt⟩
  constants field listed constant := by
    have written := declared.fields field listed
    obtain ⟨static, within, fits⟩ := written.constant.resolve_left constant
    exact ⟨static, Pool.checkedTagAt_of_isWithin within,
      declared.pool.loadable within (Descriptor.isHeld_of_isValidField written.descriptor) fits⟩

/-- **What the reader accepts is safe to use.** Whatever bytes are read, they are refused as
malformed, or they give a class whose names come from class constants, whose members have names and
valid descriptors in the pool, and whose methods have code exactly if they are neither native nor
abstract. No lookup in such a class fails, it can be linked to any superclass, and preparing it on
any thread halts for want of memory or not at all. That the built-in classes are there, which
preparing relies on, is so in every machine of a session. -/
theorem ofBytes_safe (source : String) (bytes : List UInt8) :
    ((∃ fault, Class.ofBytes source bytes = .error fault ∧ fault.kind = .format) ∨
      ∃ c, Class.ofBytes source bytes = .ok c ∧ DeclaredClass c ∧ c.Sure ∧
        ∀ (id : ClassId) (super : Option LinkedClass),
          ∃ linked, LinkedClass.link c id super = .ok linked ∧
            ∀ (machine later : Machine) (halt : Halt), machine.HasBuiltins →
              Statics.prepare linked machine = .error halt later →
              later.LacksRoom halt ∧
                ∃ fault, halt = .fault fault ∧ fault.reason = some .outOfMemory) ∧
    ∀ machine, Reached (fun _ => True) machine → machine.HasBuiltins := by
  refine ⟨?_, fun machine reached => dictionary_hasBuiltins.reached reached⟩
  cases read : Class.ofBytes source bytes with
  | error fault => exact .inl ⟨fault, rfl, format_of_ofBytes read⟩
  | ok c =>
      have declared := declaredClass_ofBytes read
      refine .inr ⟨c, rfl, declared, sure_of_declared declared, fun id super => ?_⟩
      obtain ⟨linked, links⟩ := exists_link read id super
      have sourced : linked.Sourced := ⟨c, id, super, .inl ⟨source, bytes, read⟩, links⟩
      refine ⟨linked, links, fun machine later halt has ran => ?_⟩
      have lacks := (Statics.ends_prepare_lacksRoom has sourced).of_error ran
      exact ⟨lacks, lacks.reason⟩

/-- The file of a class with a string constant is read, and the same file without its last byte is
refused. Where there is no room for the string, the class cannot be prepared. -/
theorem ofBytes_safe_greeter :
    (∃ fault, Class.ofBytes "Greeter" greeterFile.dropLast = .error fault ∧ fault.kind = .format) ∧
    ∃ c, Class.ofBytes "Greeter" greeterFile = .ok c ∧ DeclaredClass c ∧ c.Sure ∧
      ∃ linked halt later, LinkedClass.link c ⟨"Greeter", 0⟩ none = .ok linked ∧
        Statics.prepare linked (sized 16) = .error halt later ∧ later.LacksRoom halt ∧
        ∃ fault, halt = .fault fault ∧ fault.reason = some .outOfMemory := by
  refine ⟨?_, ?_⟩
  · rcases (ofBytes_safe "Greeter" greeterFile.dropLast).1 with refused | ⟨c, read, -⟩
    · exact refused
    · have short : (Class.ofBytes "Greeter" greeterFile.dropLast).isOk = false := by decide +kernel
      rw [read] at short
      cases short
  · rcases (ofBytes_safe "Greeter" greeterFile).1 with
      ⟨fault, refused, -⟩ | ⟨c, read, declared, sure, links⟩
    · have whole : (Class.ofBytes "Greeter" greeterFile).isOk = true := by decide +kernel
      rw [refused] at whole
      cases whole
    · obtain ⟨linked, link, prepares⟩ := links ⟨"Greeter", 0⟩ none
      have halts : ((Class.ofBytes "Greeter" greeterFile).toOption.any fun c =>
          (LinkedClass.link c ⟨"Greeter", 0⟩ none).toOption.any fun linked =>
            match Statics.prepare linked (sized 16) with
            | .ok _ _ => false
            | .error _ _ => true) = true := by decide +kernel
      rw [read] at halts
      dsimp only [Except.toOption, Option.any_some] at halts
      rw [link] at halts
      dsimp only [Option.any_some] at halts
      have started : Machine.start { Options.standard with heapSize := 16 } .empty =
          .ok (sized 16) := start_eq_ok rfl
      have has := (ofBytes_safe "Greeter" greeterFile).2 _ (.between (.start started))
      split at halts
      · cases halts
      · rename_i halt later ran
        exact ⟨c, read, declared, sure, linked, halt, later, link, ran,
          prepares (sized 16) later halt has ran⟩

end Class

end Jvm
