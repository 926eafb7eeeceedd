/-
# Jvm.Proofs.Machine.Objects — objects and their classes

An object fits a class if it has the slots of the class, each with a value of the type of the slot
(`Object.Fits`). A new object does, and writing a value of the type of the slot keeps it so. The
slots of a class begin with those of each class in its chain (`Machine.Formed.inherits`), so
whichever of them declares a field, the slot of the field has the type of the field, as long as
slots are few enough to be numbered (`Machine.Formed.slotType_field`).
-/
import Jvm.Proofs.Class.InstanceSlots
import Jvm.Proofs.Loading.Dictionary
import Jvm.Proofs.Machine.Threads

namespace Jvm

set_option autoImplicit false

namespace Object

/-- The object has the slots of the class, each with a value of its type. -/
structure Fits (object : Object) (c : LinkedClass) : Prop where
  classId : object.classId = c.id
  types : object.fields.toList.map Value.type = c.slotTypes

/-- The object with another value in a slot. -/
def write (object : Object) (slot : Nat) (v : Value) : Object :=
  { object with fields := object.fields.setIfInBounds slot v }

theorem type_initialValue {type : BasicType} (held : type.isHeld = true ∨ type = .address) :
    (initialValue type).type = type := by
  cases type <;> first | rfl | simp [BasicType.isHeld] at held

variable {object : Object} {c : LinkedClass} {slot : Nat} {v : Value} {type : BasicType}

theorem fits_ofClass (held : ∀ type ∈ c.slotTypes, type.isHeld = true ∨ type = .address) :
    (ofClass c).Fits c := by
  refine ⟨rfl, ?_⟩
  show (c.slotTypes.map initialValue).map Value.type = c.slotTypes
  rw [List.map_map]
  conv => rhs; rw [← List.map_id c.slotTypes]
  exact List.map_congr_left fun type member => type_initialValue (held type member)

theorem Fits.getElem? (fits : object.Fits c) (typed : c.slotTypes[slot]? = some type) :
    ∃ v, object.fields[slot]? = some v ∧ v.type = type := by
  rw [← fits.types, List.getElem?_map, Array.getElem?_toList] at typed
  exact Option.map_eq_some_iff.mp typed

theorem Fits.write (fits : object.Fits c) (typed : c.slotTypes[slot]? = some v.type) :
    (object.write slot v).Fits c := by
  refine ⟨fits.classId, ?_⟩
  show (object.fields.setIfInBounds slot v).toList.map Value.type = c.slotTypes
  rw [Array.toList_setIfInBounds, List.map_set, fits.types]
  obtain ⟨within, same⟩ := List.getElem?_eq_some_iff.mp typed
  rw [← same, List.set_getElem_self]

end Object

theorem Heap.object?_putField (heap : Heap) (index slot : Nat) (v : Value) (other : Nat) :
    (heap.putField index slot v).object? other =
      (heap.object? other).map fun object =>
        if index = other then object.write slot v else object := by
  unfold putField object?
  rw [Array.getElem?_modify]
  by_cases same : index = other
  · simp only [if_pos same]
    rfl
  · simp only [if_neg same, Option.map_id']

namespace Machine

variable {machine later : Machine}

/-! ## Finding objects -/

theorem threadOf?_eq_find? (machine : Machine) (number : Nat) :
    machine.threadOf? number = machine.threads.find? (·.number == number) := by
  unfold threadOf? threads
  by_cases own : machine.thread.number = number
  · rw [if_pos own, List.find?_cons_of_pos (by simpa using own)]
  · rw [if_neg own, List.find?_cons_of_neg (by simpa using own)]

theorem Numbered.threadOf?_eq_some (numbered : machine.Numbered) {number : Nat} {thread : Thread} :
    machine.threadOf? number = some thread ↔
      thread ∈ machine.threads ∧ thread.number = number := by
  rw [threadOf?_eq_find?]
  constructor
  · intro found
    exact ⟨List.mem_of_find?_eq_some found, by simpa using List.find?_some found⟩
  · rintro ⟨member, rfl⟩
    cases found : machine.threads.find? (·.number == thread.number) with
    | none => simpa using List.find?_eq_none.mp found thread member
    | some other =>
        have same : other.number = thread.number := by simpa using List.find?_some found
        rw [numbered.eq_of_number (List.mem_of_find?_eq_some found) member same]

/-- An object is on the heap of the thread that its reference names. -/
theorem Numbered.object?_eq_some (numbered : machine.Numbered) {ref : Ref} {object : Object} :
    machine.object? ref = some object ↔
      ∃ thread ∈ machine.threads, thread.number = ref.heap ∧
        thread.heap.objects[ref.index]? = some object := by
  unfold object? Heap.object?
  rw [Option.bind_eq_some_iff]
  constructor
  · rintro ⟨thread, found, held⟩
    obtain ⟨member, number⟩ := numbered.threadOf?_eq_some.mp found
    exact ⟨thread, member, number, held⟩
  · rintro ⟨thread, member, number, held⟩
    exact ⟨thread, numbered.threadOf?_eq_some.mpr ⟨member, number⟩, held⟩

/-- Every object of every thread has a reference. -/
theorem Numbered.exists_ref (numbered : machine.Numbered) {thread : Thread}
    (member : thread ∈ machine.threads) {object : Object} (held : object ∈ thread.heap.objects) :
    ∃ ref, machine.object? ref = some object := by
  obtain ⟨index, within, rfl⟩ := Array.getElem_of_mem held
  exact ⟨⟨thread.number, index⟩, numbered.object?_eq_some.mpr
    ⟨thread, member, rfl, Array.getElem?_eq_getElem within⟩⟩

/-- Only the threads matter for what a reference names, and not which of them is current. -/
theorem object?_eq_of_perm (numbered : machine.Numbered)
    (perm : machine.threads.Perm later.threads) (ref : Ref) :
    later.object? ref = machine.object? ref := by
  have numbered' : later.Numbered := numbered.of_perm (perm.map _)
  refine Option.ext fun object => ?_
  rw [numbered.object?_eq_some, numbered'.object?_eq_some]
  constructor
  · rintro ⟨thread, member, rest⟩
    exact ⟨thread, perm.mem_iff.mpr member, rest⟩
  · rintro ⟨thread, member, rest⟩
    exact ⟨thread, perm.mem_iff.mp member, rest⟩

/-- What a change of the current thread that spares its objects leaves alone. -/
theorem object?_eq_of_heap (number : later.thread.number = machine.thread.number)
    (heap : later.thread.heap = machine.thread.heap) (parked : later.parked = machine.parked)
    (ref : Ref) : later.object? ref = machine.object? ref := by
  unfold object? threadOf?
  rw [number, parked]
  by_cases own : machine.thread.number = ref.heap
  · rw [if_pos own, if_pos own, Option.bind_some, Option.bind_some, heap]
  · rw [if_neg own, if_neg own]

/-- Only the first thread with the number has its heap changed, and it is the one that a reference
finds. -/
theorem threadOf?_updateHeap (machine : Machine) (number : Nat) (change : Heap → Heap)
    (other : Nat) :
    (machine.updateHeap number change).threadOf? other =
      (machine.threadOf? other).map fun thread =>
        if other = number then { thread with heap := change thread.heap } else thread := by
  unfold threadOf? updateHeap
  by_cases current : machine.thread.number = number
  · rw [if_pos current]
    by_cases own : machine.thread.number = other
    · rw [if_pos own, if_pos own, Option.map_some, if_pos (own.symm.trans current)]
    · have apart : other ≠ number := fun same => own (current.trans same.symm)
      simp only [if_neg own, if_neg apart, Option.map_id']
  · rw [if_neg current]
    by_cases own : machine.thread.number = other
    · have apart : other ≠ number := fun same => current (own.trans same)
      rw [if_pos own, if_pos own, Option.map_some, if_neg apart]
    · rw [if_neg own, if_neg own, List.find?_map]
      have numbers : ((fun thread : Thread => thread.number == other) ∘ fun thread : Thread =>
          if thread.number = number then { thread with heap := change thread.heap }
          else thread) = fun thread => thread.number == other := by
        funext thread
        dsimp only [Function.comp]
        split <;> rfl
      rw [numbers]
      refine Option.map_congr fun thread found => ?_
      have same : thread.number = other := by simpa using List.find?_some found
      rw [same]

theorem object?_putField (machine : Machine) (ref : Ref) (slot : Nat) (v : Value) (other : Ref) :
    (machine.updateHeap ref.heap fun heap => heap.putField ref.index slot v).object? other =
      (machine.object? other).map fun object =>
        if other = ref then object.write slot v else object := by
  unfold object?
  rw [threadOf?_updateHeap, Option.bind_map, Option.map_bind]
  congr 1
  funext thread
  dsimp only [Function.comp]
  by_cases heap : other.heap = ref.heap
  · -- on the heap of the reference, the position decides
    have chosen : other = ref ↔ ref.index = other.index := by
      cases other
      cases ref
      simp only [Ref.mk.injEq]
      exact ⟨fun both => both.2.symm, fun index => ⟨heap, index.symm⟩⟩
    rw [if_pos heap]
    simp only [chosen]
    exact thread.heap.object?_putField ref.index slot v other.index
  · have different : other ≠ ref := fun same => heap (congrArg Ref.heap same)
    simp only [if_neg heap, if_neg different, Option.map_id']

/-- A new object is the last one of the current thread, and all others are as they were. -/
theorem object?_addObject (machine : Machine) (c : LinkedClass) (ref : Ref) :
    (machine.updateThread fun thread => thread.addObject c).object? ref =
      if ref = machine.thread.nextRef then some (.ofClass c) else machine.object? ref := by
  unfold object? threadOf? updateThread Thread.addObject Thread.nextRef
  dsimp only
  by_cases own : machine.thread.number = ref.heap
  · rw [if_pos own, if_pos own, Option.bind_some, Option.bind_some]
    unfold Heap.add Heap.object? Heap.allocations
    rw [Array.getElem?_push]
    have chosen : ref = ⟨machine.thread.number, machine.thread.heap.objects.size⟩ ↔
        ref.index = machine.thread.heap.objects.size := by
      cases ref
      simp only [Ref.mk.injEq]
      exact ⟨And.right, fun index => ⟨own.symm, index⟩⟩
    simp only [chosen]
  · rw [if_neg own, if_neg own, if_neg fun same => own (congrArg Ref.heap same).symm]

/-! ## Chains of classes -/

/-- No class has more slots than a field can number. -/
def Small (machine : Machine) : Prop := ∀ c ∈ machine.classes, c.slotTypes.length ≤ 65536

theorem Small.of_subset (small : later.Small) (within : machine.classes ⊆ later.classes) :
    machine.Small :=
  fun c known => small c (within known)

/-- What is true of a class if it is true of its superclass is true of all classes. -/
theorem Formed.induct {motive : LinkedClass → Prop} (formed : machine.Formed)
    (step : ∀ (c : LinkedClass) (super : Option LinkedClass), c ∈ machine.classes →
      LinkedClass.Extends super c → c.supers = LinkedClass.chainOf super →
      (∀ d ∈ super, d ∈ machine.classes ∧ motive d) → motive c)
    {c : LinkedClass} (known : c ∈ machine.classes) : motive c := by
  induction length : c.supers.length using Nat.strongRecOn generalizing c with
  | ind count ih =>
      obtain ⟨declared, super, links, -, above⟩ := formed.seated c known
      have supers := LinkedClass.link_supers links
      refine step c super known (LinkedClass.extends_of_link links) supers fun d extended =>
        ⟨above d extended, ih d.supers.length ?_ (above d extended) rfl⟩
      obtain rfl := extended
      rw [← length, supers]
      exact Nat.lt_succ_self _

theorem Formed.slotTypes_held (formed : machine.Formed) (sourced : machine.Sourced)
    {c : LinkedClass} (known : c ∈ machine.classes) :
    ∀ type ∈ c.slotTypes, type.isHeld = true ∨ type = .address := by
  refine formed.induct
    (motive := fun c => ∀ type ∈ c.slotTypes, type.isHeld = true ∨ type = .address)
    (fun c super known made _ above type member => ?_) known
  rw [made.slotTypes] at member
  rcases List.mem_append.mp member with visible | hidden
  · rcases List.mem_append.mp visible with inherited | own
    · cases super with
      | none => cases inherited
      | some d => exact (above d rfl).2 type inherited
    · obtain ⟨field, listed, rfl⟩ := List.mem_map.mp own
      exact .inl ((sourced c known).isHeld (List.mem_of_mem_filter listed))
  · exact .inr (List.eq_of_mem_replicate hidden)

/-- The slots of an object begin with those of each class that its class extends. -/
theorem Formed.inherits (formed : machine.Formed) (identified : machine.Identified)
    {c d : LinkedClass} (known : c ∈ machine.classes) (known' : d ∈ machine.classes)
    (extended : d.id ∈ c.chain) : d.slotTypes <+: c.slotTypes := by
  refine formed.induct (motive := fun c => d.id ∈ c.chain → d.slotTypes <+: c.slotTypes)
    (fun c super known made supers above extended => ?_) known extended
  rcases List.mem_cons.mp extended with same | further
  · obtain rfl := identified.eq_of_id known' known same
    exact List.prefix_rfl
  · rw [supers] at further
    cases super with
    | none => cases further
    | some e => exact ((above e rfl).2 further).trans made.inherited

theorem Formed.slotType_field (formed : machine.Formed) (identified : machine.Identified)
    (small : machine.Small) {field : LinkedField} (declared : Linking.Declared machine field)
    (dynamic : field.isStatic = false) {c : LinkedClass} (known : c ∈ machine.classes)
    (extended : c.isSubclassOf field.owner.id = true) :
    c.slotTypes[field.slot]? = some field.type.stackType := by
  obtain ⟨known', written, listed, slot, descriptor, static⟩ := declared
  obtain ⟨_, super, links, -, -⟩ := formed.seated field.owner known'
  have narrow : field.owner.Narrow :=
    .inr (Nat.le_trans field.owner.firstHiddenSlot_le (small field.owner known'))
  have member : written ∈ Layout.instanceFields field.owner.fields :=
    List.mem_filter.mpr ⟨listed, by rw [static, dynamic]; rfl⟩
  have placed := ((LinkedClass.extends_of_link links).placed_of_narrow narrow member).2.2
  have inChain : field.owner.id ∈ c.chain := List.contains_iff_mem.mp extended
  obtain ⟨rest, slots⟩ := formed.inherits identified known known' inChain
  obtain ⟨within, -⟩ := List.getElem?_eq_some_iff.mp placed
  rw [← slots, ← slot, List.getElem?_append_left within, placed]
  unfold Field.stackType LinkedField.type
  rw [descriptor]

/-- The hidden slot of a string. -/
theorem HasBuiltins.slotType_text (builtins : machine.HasBuiltins) {c : LinkedClass}
    (found : machine.findClass? stringClass = some c) :
    c.slotTypes[c.firstHiddenSlot]? = some .address := by
  have known : stringClass ∈ builtinClasses.map (·.name) := by decide +kernel
  have named : c.name = stringClass := by simpa using List.find?_some found
  have all : ∀ d ∈ builtinClasses, d.name = stringClass →
      d.slotTypes[d.firstHiddenSlot]? = some .address := by decide +kernel
  exact all c (builtins.mem known found) named

end Machine

end Jvm
