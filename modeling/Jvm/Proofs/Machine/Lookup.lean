/-
# Jvm.Proofs.Machine.Lookup — what loading and linking find

Loading a class may load its superclasses as well, and enters each into the dictionary in front
of the others (`ends_resolveWithin`, by induction on the bound of the search). A class that is
answered is in the dictionary then, and so are the class of a field or a method that a reference
stands for: `ends_resolveField` and `ends_resolveInvoke` say so, and that nothing else changed.
-/
import Jvm.Machine.Linking
import Jvm.Proofs.Machine.Growth

namespace Jvm

set_option autoImplicit false

/-! ## Loading -/

namespace Loading

open Exec Machine

variable {before : Machine}

/-- What is read under a name is a class from a file, and has that name. -/
theorem ends_load (name : String) {machine : Machine} (steady : before.Steady machine) :
    (load name).Ends machine
      (fun found later => before.Steady later ∧ ∀ c ∈ found, c.Sourced ∧ c.name = name)
      fun _ later => before.Steady later := by
  refine ends_bind_get ?_
  dsimp only
  split
  · exact ends_pure ⟨steady, by simp⟩
  · rename_i content _
    refine ends_bind_ofFault (fun c read => ?_) fun _ _ => steady
    have sourced : c.Sourced := Or.inl ⟨_, content, read⟩
    refine ends_guard (fun _ => steady) fun same => ?_
    exact (keeps_trace _ _ machine steady).bind fun _ _ steady =>
      ends_pure ⟨steady, by simpa using ⟨sourced, by simpa using same⟩⟩

/-- A superclass that is found is in the dictionary. -/
theorem ends_superOf {find : String → Exec LinkedClass}
    (finds : ∀ (name : String) (machine : Machine), before.Steady machine →
      (find name).Ends machine (fun c later => before.Steady later ∧ later.findClass? name = some c)
        fun _ later => before.Steady later)
    (name : String) (superName : Option String) {machine : Machine}
    (steady : before.Steady machine) :
    (superOf find name superName).Ends machine
      (fun found later => before.Steady later ∧ ∀ super ∈ found, super ∈ later.classes)
      fun _ later => before.Steady later := by
  cases superName with
  | none => exact ends_pure ⟨steady, by simp⟩
  | some above =>
      unfold superOf
      dsimp only
      refine ends_guard (fun _ => steady) fun _ => ?_
      refine (finds above machine steady).bind fun super later found => ?_
      refine ends_guard (fun _ => found.1) fun _ => ends_pure ⟨found.1, ?_⟩
      simpa using List.mem_of_find?_eq_some found.2

/-- A class that is entered comes from a file or is built in, its name is new, and its superclass is
in the dictionary. From then on it is the class of its name. -/
theorem ends_add {c : Class} {super : Option LinkedClass} {machine : Machine}
    (steady : before.Steady machine) (sourced : c.Sourced)
    (absent : before.findClass? c.name = none) (above : ∀ d ∈ super, d ∈ machine.classes) :
    (add c super).Ends machine
      (fun linked later => before.Steady later ∧ later.findClass? c.name = some linked)
      fun _ later => before.Steady later := by
  refine ends_bind_get ?_
  dsimp only
  refine ends_bind_ofCause (fun linked link => ?_) fun _ _ => steady
  have name := LinkedClass.link_name link
  have layered : linked.supers = [] ∨ ∃ d ∈ machine.classes, linked.supers = d.chain := by
    rw [LinkedClass.link_supers link]
    cases super with
    | none => exact .inl rfl
    | some d => exact .inr ⟨d, above d rfl, rfl⟩
  have grown : before.Steady { machine with classes := linked :: machine.classes } :=
    steady.enter ⟨c, _, super, sourced, link⟩ (by rwa [name])
      (by rw [LinkedClass.link_id link, name]) layered
  refine ends_bind_modify ?_
  refine ends_bind_modify (ends_pure ?_)
  have found : (linked :: machine.classes).find? (·.name == c.name) = some linked := by
    simp [name]
  split
  · exact ⟨grown.step rfl rfl rfl rfl rfl rfl rfl rfl, found⟩
  · exact ⟨grown, found⟩

theorem ends_resolveWithin (fuel : Nat) (loading : List String) (name : String)
    {machine : Machine} (steady : before.Steady machine) :
    (resolveWithin fuel loading name).Ends machine
      (fun c later => before.Steady later ∧ later.findClass? name = some c)
      fun _ later => before.Steady later := by
  induction fuel generalizing loading name machine with
  | zero =>
      unfold resolveWithin
      refine ends_bind_get ?_
      split
      · rename_i c found
        exact ends_pure ⟨steady, found⟩
      · exact ends_guard (fun _ => steady) fun _ => ends_throw steady
  | succ fuel ih =>
      unfold resolveWithin
      refine ends_bind_get ?_
      split
      · rename_i c found
        exact ends_pure ⟨steady, found⟩
      · rename_i absent
        refine ends_guard (fun _ => steady) fun _ => ?_
        refine (ends_load name steady).bind fun found later read => ?_
        obtain ⟨steady', origin⟩ := read
        cases found with
        | none => exact ends_throw steady'
        | some c =>
            obtain ⟨sourced, same⟩ := origin c rfl
            rw [← same] at absent ⊢
            refine (ends_superOf (fun above _ kept => ih _ above kept) _ _ steady').bind
              fun super last kept => ?_
            exact ends_add kept.1 sourced (steady.absent absent) kept.2

theorem ends_resolve (name : String) {machine : Machine} (steady : before.Steady machine) :
    (resolve name).Ends machine
      (fun c later => before.Steady later ∧ later.findClass? name = some c)
      fun _ later => before.Steady later :=
  ends_bind_get (ends_resolveWithin _ _ _ steady)

theorem keeps_resolve (name : String) : Keeps before.Steady (resolve name) :=
  fun _ steady => (ends_resolve name steady).mono (fun _ _ ends => ends.1) fun _ _ ends => ends

/-- A class made elsewhere is entered if there is none of its name. -/
theorem keeps_define {c : Class} (sourced : c.Sourced) : Keeps before.Steady (define c) := by
  intro machine steady
  unfold define superOfNew
  rw [bind_assoc]
  refine ends_bind_get ?_
  dsimp only
  by_cases taken : (machine.findClass? c.name).isSome = true
  · rw [if_pos taken]
    exact steady
  · rw [if_neg taken]
    have absent := Option.not_isSome_iff_eq_none.mp taken
    refine (ends_superOf (fun name _ => ends_resolve name) _ _ steady).bind fun super later kept => ?_
    exact (ends_add kept.1 sourced (steady.absent absent) kept.2).mono (fun _ _ ends => ends.1)
      fun _ _ ends => ends

theorem names_of_toClass {parts : ClassParts} {c : Class} (made : parts.toClass = .ok c) :
    c.name = parts.name ∧ c.superName = parts.superName := by
  unfold ClassParts.toClass at made
  cases fields : parts.fields.mapM (ClassParts.field parts.pool) with
  | error halt =>
      rw [fields] at made
      cases made
  | ok fields' =>
      rw [fields] at made
      cases methods : parts.methods.mapM (ClassParts.method parts.pool) with
      | error halt =>
          rw [methods] at made
          cases made
      | ok methods' =>
          rw [methods] at made
          cases made
          exact ⟨rfl, rfl⟩

/-- A class made of parts is entered if there is none of its name. -/
theorem keeps_defineParts {parts : ClassParts}
    (sourced : ∀ c, parts.toClass = .ok c → c.Sourced) : Keeps before.Steady (defineParts parts) := by
  intro machine steady
  refine ends_bind_ofHalt (fun _ _ => ?_) fun _ _ => steady
  unfold superOfNew
  rw [bind_assoc]
  refine ends_bind_get ?_
  dsimp only
  by_cases taken : (machine.findClass? parts.name).isSome = true
  · rw [if_pos taken]
    exact steady
  · rw [if_neg taken]
    have absent := Option.not_isSome_iff_eq_none.mp taken
    refine (ends_superOf (fun name _ => ends_resolve name) _ _ steady).bind fun super later kept => ?_
    refine ends_bind_ofHalt (fun _ _ => ?_) fun _ _ => kept.1
    refine ends_bind_ofHalt (fun c made => ?_) fun _ _ => kept.1
    have absent' : before.findClass? c.name = none := by
      rw [(names_of_toClass made).1]
      exact steady.absent absent
    exact (ends_add kept.1 (sourced c made) absent' kept.2).mono (fun _ _ ends => ends.1)
      fun _ _ ends => ends

end Loading

/-! ## Linking -/

namespace Machine

/-- What a chain of classes answers is the answer of a class of the dictionary. -/
theorem mem_of_findInChain? {α : Type} {machine : Machine} {view : LinkedClass → Option α}
    {chain : List ClassId} {c : LinkedClass} {answer : α}
    (found : machine.findInChain? view chain = some (c, answer)) :
    c ∈ machine.classes ∧ view c = some answer := by
  induction chain with
  | nil => cases found
  | cons id supers ih =>
      unfold findInChain? at found
      split at found
      · cases found
      · rename_i d known
        split at found
        · rename_i given
          cases found
          exact ⟨(mem_of_classOf? known).1, given⟩
        · exact ih found

theorem mem_of_findField? {machine : Machine} {chain : List ClassId} {name descriptor : String}
    {c : LinkedClass} {field : Field}
    (found : machine.findField? chain name descriptor = some (c, field)) :
    c ∈ machine.classes ∧ field ∈ c.fields ∧ field.descriptor = descriptor := by
  obtain ⟨known, given⟩ := mem_of_findInChain? found
  have agrees := List.find?_some given
  simp only [Bool.and_eq_true, beq_iff_eq] at agrees
  exact ⟨known, List.mem_of_find?_eq_some given, agrees.2⟩

theorem mem_of_findMethod? {machine : Machine} {chain : List ClassId} {name descriptor : String}
    {method : Method} (found : machine.findMethod? chain name descriptor = some method) :
    ∃ c ∈ machine.classes, method ∈ c.methods := by
  obtain ⟨⟨c, _⟩, inChain, rfl⟩ := Option.map_eq_some_iff.mp found
  obtain ⟨known, given⟩ := mem_of_findInChain? inChain
  exact ⟨c, known, List.mem_of_find?_eq_some given⟩

theorem descriptor_of_findMethod? {machine : Machine} {chain : List ClassId}
    {name descriptor : String} {method : Method}
    (found : machine.findMethod? chain name descriptor = some method) :
    method.descriptor = descriptor := by
  obtain ⟨⟨c, _⟩, inChain, rfl⟩ := Option.map_eq_some_iff.mp found
  have given := List.find?_some (mem_of_findInChain? inChain).2
  simp only [Bool.and_eq_true, beq_iff_eq] at given
  exact given.2

/-- The same if a search falls back on a method that is declared. -/
theorem declared_getD {machine : Machine} {chain : List ClassId} {name descriptor : String}
    {method : Method} (declared : ∃ c ∈ machine.classes, method ∈ c.methods) :
    ∃ c ∈ machine.classes, (machine.findMethod? chain name descriptor).getD method ∈ c.methods := by
  cases found : machine.findMethod? chain name descriptor with
  | none => exact declared
  | some selected => exact mem_of_findMethod? found

end Machine

namespace Linking

open Exec Machine

variable {before : Machine}

theorem ends_resolveNew (pool : Pool) (index : Int) {machine : Machine}
    (steady : before.Steady machine) :
    (resolveNew pool index).Ends machine
      (fun c later => before.Steady later ∧ c ∈ later.classes) fun _ later => before.Steady later :=
  ends_bind_ofFault (fun name _ => (Loading.ends_resolve name steady).bind fun _ _ found =>
    ends_guard (fun _ => found.1) fun _ =>
      ends_pure ⟨found.1, List.mem_of_find?_eq_some found.2⟩) fun _ _ => steady

/-- A field reference stands for a field that a class of the dictionary declares. -/
def Declared (machine : Machine) (linked : LinkedField) : Prop :=
  linked.owner ∈ machine.classes ∧ ∃ field ∈ linked.owner.fields, field.slot = linked.slot ∧
    field.descriptor = linked.descriptor ∧ field.isStatic = linked.isStatic

theorem ends_resolveField (pool : Pool) (index : Int) (access : FieldAccess) {machine : Machine}
    (steady : before.Steady machine) :
    (resolveField pool index access).Ends machine
      (fun linked later => before.Steady later ∧ Declared later linked ∧
        linked.isStatic = access.isStatic) fun _ later => before.Steady later := by
  refine ends_bind_ofFault (fun ref _ => ?_) fun _ _ => steady
  refine (Loading.ends_resolve _ steady).bind fun c later found => ends_bind_get ?_
  obtain ⟨steady', -⟩ := found
  split
  · exact ends_throw steady'
  · rename_i owner field located
    obtain ⟨known, listed, described⟩ := mem_of_findField? located
    refine ends_guard (fun _ => steady') fun agree => ends_pure ⟨steady', ⟨known, ?_⟩, rfl⟩
    exact ⟨field, listed, rfl, described, Decidable.not_not.mp agree⟩

/-- A method reference stands for a method that a class of the dictionary declares. -/
theorem ends_resolveInvoke (pool : Pool) (index : Int) (kind : InvokeKind)
    (caller : Option LinkedClass) {machine : Machine} (steady : before.Steady machine) :
    (resolveInvoke pool index kind caller).Ends machine
      (fun method later => before.Steady later ∧ ∃ c ∈ later.classes, method ∈ c.methods)
      fun _ later => before.Steady later := by
  refine ends_bind_ofFault (fun ref _ => ?_) fun _ _ => steady
  refine (Loading.ends_resolve _ steady).bind fun c later found => ends_bind_get ?_
  obtain ⟨steady', -⟩ := found
  split
  · exact ends_throw steady'
  · rename_i method located
    have declared := mem_of_findMethod? located
    refine ends_guard (fun _ => steady') fun _ => ?_
    dsimp only
    split
    · split
      · exact ends_pure ⟨steady', declared_getD declared⟩
      · exact ends_pure ⟨steady', declared⟩
    · exact ends_pure ⟨steady', declared⟩

theorem ends_selectVirtual (receiver : LinkedClass) (method : Method) {machine : Machine}
    (steady : before.Steady machine) (declared : ∃ c ∈ machine.classes, method ∈ c.methods) :
    (selectVirtual receiver method).Ends machine
      (fun selected later => before.Steady later ∧ (∃ c ∈ later.classes, selected ∈ c.methods) ∧
        selected.descriptor = method.descriptor) fun _ later => before.Steady later := by
  unfold selectVirtual
  dsimp only
  split
  · exact ends_pure ⟨steady, declared, rfl⟩
  · refine ends_bind_get ?_
    split
    · exact ends_throw steady
    · rename_i found located
      exact ends_guard (fun _ => steady) fun _ =>
        ends_pure ⟨steady, mem_of_findMethod? located, descriptor_of_findMethod? located⟩

end Linking

end Jvm
