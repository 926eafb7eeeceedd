/-
# Jvm.Proofs.Call.InstanceFields — objects stay typed

In every machine of a session every object fits its class (`Machine.lasting_stored`), as long as
the classes are small enough. Reading a field therefore gives a value of the type that the
reference spells, whichever class declares the field and whichever class the object is of, and
assigning a field writes one slot of one object (`Machine.objects_typed`).
-/
import Jvm.Proofs.Call.Owners
import Jvm.Proofs.Machine.FieldAccess
import Jvm.Proofs.Machine.Isolation

namespace Jvm

set_option autoImplicit false

open Exec Machine
open OperandStack (slotsOf)

/-! ## Steps, calls and sessions -/

namespace Exec

theorem parts_stored (length : Nat) : Parts length Stored Stored where
  toHandles := objectProperty_stored.basics.handles fun field machine declared dynamic stored => by
    cases frames : machine.thread.frames with
    | nil =>
        have stops : (onTop (FrameM.pop field.type)).Ends machine (fun _ _ => False)
            fun _ => Stored := ends_onTop_nil frames stored
        exact stops.before (fun _ _ impossible => impossible.elim) fun _ _ kept => kept
    | cons top below =>
        exact (ends_setField stored frames declared dynamic).mono (fun _ _ ended => ended.1)
          fun _ _ ended => ended.1
  allocate c machine known stored := ends_allocate_of stored (stored.addObject known)

theorem keeps_step_stored : Keeps Stored step :=
  keeps_step_of_parts parts_stored objectProperty_stored.basics.traces fun _ _ _ _ _ stored _ _ => stored

/-- A step is the execution of the next instruction, from a machine with the same objects. -/
theorem ends_step_of_execute {machine : Machine} (stored : machine.Stored) {top : Frame}
    {below : List Frame} (frames : machine.thread.frames = top :: below) {instr : Instr}
    {length : Nat} (next : top.next? = some (instr, length)) {Done : Option Value → Machine → Prop}
    {Stopped : Halt → Machine → Prop}
    (ends : ∀ traced : Machine, traced.Stored → machine.Grows traced →
      traced.thread.frames = top :: below →
      (∀ object, traced.object? object = machine.object? object) →
      (execute instr length).Ends traced Done fun halt later =>
        ∀ change, Stopped (halt.mapFault change) later) :
    step.Ends machine Done Stopped := by
  obtain ⟨opcode, log, same⟩ := step_eq frames next
  have grows : machine.Grows { machine with log := log } :=
    (Grows.refl machine).step rfl rfl rfl rfl rfl rfl
  have stored' : { machine with log := log }.Stored :=
    objectProperty_stored.grows stored grows (stored.formed.of_classes rfl) fun _ => rfl
  unfold Ends
  rw [same]
  exact ends_mapFault ((ends _ stored' grows frames fun _ => rfl).mono (fun _ _ done => done)
    fun _ _ stopped => stopped _)

end Exec

namespace Machine

theorem lasting_stored : Lasting Stored :=
  objectProperty_stored.lasting
    (fun _ founded none => ⟨founded, fun _ ref _ found => by rw [none] at found; cases found⟩)
    keeps_step_stored

end Machine

/-! ## Field instructions -/

/-- A `getfield` of the frame has taken an object off the stack and pushed what it holds in the slot
of the field that is named, a value of the type that the reference spells. -/
def Frame.Fetched (top : Frame) (below : List Frame) (index length : Nat) (later : Machine) :
    Prop :=
  ∃ (ref : Pool.Member) (owner : LinkedClass) (field : Field) (object : Ref) (v : Value)
    (rest : List Value) (stack : OperandStack),
    top.Names index later ref owner field ∧ field.isStatic = false ∧
    top.stack.slots = .ref (some object) :: rest ∧
    (later.object? object).bind (·.fields[field.slot]?) = some v ∧
    v.type = (Descriptor.fieldType ref.descriptor).stackType ∧
    later.thread.frames = { top with bci := top.bci + length, stack := stack } :: below ∧
    stack.slots = slotsOf v ++ rest

/-- A `putfield` of the frame has taken a value and an object off the stack, and of all slots of all
objects it has written the one of the field that is named. -/
def Frame.Assigned (top : Frame) (below : List Frame) (index length : Nat)
    (machine later : Machine) : Prop :=
  ∃ (ref : Pool.Member) (owner : LinkedClass) (field : Field) (object : Ref) (v : Value)
    (stack : OperandStack),
    top.Names index later ref owner field ∧ field.isStatic = false ∧
    top.stack.slots = slotsOf v ++ .ref (some object) :: stack.slots ∧
    v.type = (Descriptor.fieldType ref.descriptor).stackType ∧
    later.thread.frames = { top with bci := top.bci + length, stack := stack } :: below ∧
    ∀ other, later.object? other = (machine.object? other).map fun found =>
      if other = object then
        found.write field.slot (narrowedTo (Descriptor.fieldType ref.descriptor) v)
      else found

theorem Frame.Assigned.of_objects {top : Frame} {below : List Frame} {index length : Nat}
    {before machine later : Machine} (assigned : top.Assigned below index length machine later)
    (objects : ∀ object, machine.object? object = before.object? object) :
    top.Assigned below index length before later := by
  obtain ⟨ref, owner, field, object, v, stack, names, dynamic, slots, type, frames, writes⟩ :=
    assigned
  exact ⟨ref, owner, field, object, v, stack, names, dynamic, slots, type, frames,
    fun other => (writes other).trans (by rw [objects])⟩

namespace Exec

variable {machine : Machine} {top : Frame} {below : List Frame} {index length : Nat}

/-- A field instruction finds the field that it names, with no object touched on the way. -/
theorem ends_named (stored : machine.Stored) (frames : machine.thread.frames = top :: below)
    (owned : ∃ id c, top.method.owner = some id ∧ machine.classOf? id = some c)
    (access : FieldAccess) {use : LinkedField → Exec Unit} {Done : Unit → Machine → Prop}
    {Stopped : Halt → Machine → Prop}
    (done : ∀ (linked : LinkedField) (pool : Pool) (ref : Pool.Member) (field : Field)
      (found : Machine), found.Stored → found.thread.frames = top :: below →
      (∀ object, found.object? object = machine.object? object) →
      linked.StandsFor found pool index access ref field →
      top.Names index found ref linked.owner field → (use linked).Ends found Done Stopped)
    (stopped : ∀ (halt : Halt) (later : Machine),
      (∀ object, later.object? object = machine.object? object) → halt.Raised → Stopped halt later) :
    (do use (← Linking.resolveField (← currentPool) index access)).Ends machine Done Stopped := by
  have objects : ∀ later : Machine, later.threads = machine.threads →
      ∀ object, later.object? object = machine.object? object := by
    intro later threads
    obtain ⟨thread, parked⟩ := List.cons.inj threads
    exact object?_eq_of_heap (congrArg _ thread) (congrArg _ thread) parked
  obtain ⟨id, holder, owner, known⟩ := owned
  refine (ends_currentPool frames owner known).before (fun pool _ got => ?_)
    fun _ _ impossible => impossible.elim
  obtain ⟨rfl, rfl⟩ := got
  have finds := (ends_resolveField_standsFor stored.formed holder.pool index access).and
    (Linking.keeps_resolveField objectProperty_stored.keeps_resolve holder.pool index access _ stored)
  refine finds.before (fun linked found resolved => ?_) fun halt later halted =>
    stopped halt later (objects later halted.1.1) halted.1.2
  obtain ⟨⟨steady, threads, ref, field, stands⟩, stored'⟩ := resolved
  have known' : found.classOf? id = some holder :=
    steady.toGrows.classOf? stored.identified known
  have names : top.Names index found ref linked.owner field :=
    ⟨⟨id, holder, owner, known', stands.read⟩, stands.located⟩
  exact done linked holder.pool ref field found stored' (steady.frames.trans frames)
    (objects found threads) stands names

theorem ends_execute_getField (stored : machine.Stored)
    (frames : machine.thread.frames = top :: below)
    (owned : ∃ id c, top.method.owner = some id ∧ machine.classOf? id = some c) :
    (execute (.field .getField index) length).Ends machine
      (fun _ later => later.Small → top.Fetched below index length later)
      fun halt later => later.Small → top.Halts machine halt := by
  have reads : (accessField .getField index length).Ends machine
      (fun _ later => later.Small → top.Fetched below index length later)
      fun halt later => later.Small → top.Halts machine halt := by
    refine ends_named stored frames owned .getField (fun linked pool ref field found stored' frames'
      objects stands names => ?_) fun _ _ _ raised _ => .of_raised raised
    refine (ends_getField stored' frames' stands.declared stands.kind).mono
      (fun _ later read small => ?_) fun _ _ halts small => (halts small).of_objects objects
    obtain ⟨object, v, rest, stack, slots, content, typed, frames'', pushed, classes⟩ := read
    exact ⟨ref, linked.owner, field, object, v, rest, stack, names.of_classes classes,
      stands.static, slots, stands.slot ▸ content, stands.type ▸ typed small, frames'', pushed⟩
  exact reads.bind fun _ _ read => ends_pure read

theorem ends_execute_putField (stored : machine.Stored)
    (frames : machine.thread.frames = top :: below)
    (owned : ∃ id c, top.method.owner = some id ∧ machine.classOf? id = some c) :
    (execute (.field .putField index) length).Ends machine
      (fun _ later => top.Assigned below index length machine later)
      fun _ later => ∀ object, later.object? object = machine.object? object := by
  have writes : (accessField .putField index length).Ends machine
      (fun _ later => top.Assigned below index length machine later)
      fun _ later => ∀ object, later.object? object = machine.object? object := by
    refine ends_named stored frames owned .putField (fun linked pool ref field found stored' frames'
      objects stands names => ?_) fun _ _ same _ => same
    refine (ends_setField stored' frames' stands.declared stands.kind).mono
      (fun _ later written => ?_)
      fun _ _ stopped object => (stopped.2 object).trans (objects object)
    obtain ⟨-, object, v, stack, type, slots, frames'', classes, write⟩ := written
    refine ⟨ref, linked.owner, field, object, v, stack, names.of_classes classes, stands.static,
      slots, stands.type ▸ type, frames'', fun other => ?_⟩
    rw [write, objects, stands.type, stands.slot]
  exact writes.bind fun _ _ written => ends_pure written

end Exec

namespace Machine

/-- **Objects stay typed.** As long as no class has more slots than a field can number, every object
of every thread has exactly the slots of its class, each with a value of the type of the slot. So a
`getfield` either halts with a fault, or because the reference on the stack names no object, or it
pushes a value of the type that its reference spells. A `putfield` writes the slot of the field that
it names and no other, and none if it halts. -/
theorem objects_typed (machine : Machine) (reached : Reached (fun _ => True) machine) :
    (machine.Small → ∀ thread ∈ machine.threads, ∀ object ∈ thread.heap.objects,
      ∃ c, machine.classOf? object.classId = some c ∧
        object.fields.toList.map Value.type = c.slotTypes) ∧
    ∀ (top : Frame) (below : List Frame) (index length : Nat),
      machine.thread.frames = top :: below →
      (top.next? = some (.field .getField index, length) →
        (∀ answer later, step machine = .ok answer later → later.Small →
          top.Fetched below index length later) ∧
        ∀ halt later, step machine = .error halt later → later.Small → top.Halts machine halt) ∧
      (top.next? = some (.field .putField index, length) →
        (∀ answer later, step machine = .ok answer later →
          top.Assigned below index length machine later) ∧
        ∀ halt later, step machine = .error halt later →
          ∀ object, later.object? object = machine.object? object) := by
  have stored : machine.Stored := lasting_stored.reached reached
  have owned : machine.Owned := lasting_owned.reached reached
  refine ⟨fun small thread member object held => ?_, fun top below index length frames => ?_⟩
  · obtain ⟨ref, found⟩ := stored.numbered.exists_ref member held
    obtain ⟨c, known, fits⟩ := stored.fits small ref object found
    exact ⟨c, stored.classOf?_of_fits known fits, fits.types⟩
  · obtain ⟨id, holder, owner, known⟩ := owned.holder (frames ▸ List.mem_cons_self)
    have owned' : ∀ traced : Machine, machine.Grows traced →
        ∃ id c, top.method.owner = some id ∧ traced.classOf? id = some c := fun traced grows =>
      ⟨id, holder, owner, grows.classOf? stored.identified known⟩
    refine ⟨fun next => ?_, fun next => ?_⟩
    · have ended : step.Ends machine
          (fun _ later => later.Small → top.Fetched below index length later)
          fun halt later => later.Small → top.Halts machine halt :=
        ends_step_of_execute stored frames next fun traced stored' grows frames' objects =>
          (ends_execute_getField stored' frames' (owned' traced grows)).mono
            (fun _ _ fetched => fetched)
            fun _ _ halts change small => ((halts small).of_objects objects).mapFault change
      exact ⟨fun answer later ran => ended.of_ok ran, fun halt later ran => ended.of_error ran⟩
    · have ended : step.Ends machine
          (fun _ later => top.Assigned below index length machine later)
          fun _ later => ∀ object, later.object? object = machine.object? object :=
        ends_step_of_execute stored frames next fun traced stored' grows frames' objects =>
          (ends_execute_putField stored' frames' (owned' traced grows)).mono
            (fun _ _ assigned => assigned.of_objects objects)
            fun _ _ same _ object => (same object).trans (objects object)
      exact ⟨fun answer later ran => ended.of_ok ran, fun halt later ran => ended.of_error ran⟩

/-! ## A field that is declared again -/

/-- The file of a class with an instance field `value`. -/
def valueFile : List UInt8 :=
  [202, 254, 186, 190, 0, 0, 0, 52, 0, 7, 1, 0, 4, 66, 97, 115, 101, 7, 0, 1, 1, 0, 16, 106, 97,
    118, 97, 47, 108, 97, 110, 103, 47, 79, 98, 106, 101, 99, 116, 7, 0, 3, 1, 0, 5, 118, 97, 108,
    117, 101, 1, 0, 1, 73, 0, 33, 0, 2, 0, 4, 0, 0, 0, 1, 0, 0, 0, 5, 0, 6, 0, 0, 0, 0, 0, 0]

/-- The file of a class that extends it and declares `value` again. Its static method `run` has code
`187 0 2 76 43 26 181 0 11 43 180 0 11 172`: of a new object of the class, it assigns the `value`
that the superclass declares, and returns it. -/
def redeclaringFile : List UInt8 :=
  [202, 254, 186, 190, 0, 0, 0, 52, 0, 12, 1, 0, 7, 68, 101, 114, 105, 118, 101, 100, 7, 0, 1, 1,
    0, 4, 66, 97, 115, 101, 7, 0, 3, 1, 0, 5, 118, 97, 108, 117, 101, 1, 0, 1, 73, 1, 0, 4, 67,
    111, 100, 101, 1, 0, 3, 114, 117, 110, 1, 0, 4, 40, 73, 41, 73, 12, 0, 5, 0, 6, 9, 0, 4, 0,
    10, 0, 33, 0, 2, 0, 4, 0, 0, 0, 1, 0, 0, 0, 5, 0, 6, 0, 0, 0, 1, 0, 9, 0, 8, 0, 9, 0, 1, 0, 7,
    0, 0, 0, 26, 0, 2, 0, 2, 0, 0, 0, 14, 187, 0, 2, 76, 43, 26, 181, 0, 11, 43, 180, 0, 11, 172,
    0, 0, 0, 0, 0, 0]

/-- The built-in classes, and the classes of the two files. -/
def shadowing : Machine :=
  ((blank .standard .empty (.empty 8388608)).withBuiltins.withFile "Base" valueFile).withFile
    "Derived" redeclaringFile

theorem session_shadowing : Session (fun _ => True) shadowing :=
  ((Session.start (start_eq_ok rfl)).withFile trivial "Base" valueFile).withFile trivial "Derived"
    redeclaringFile

/-- The machine after a number of steps of a call, if no step of them halts or answers. -/
def during? (machine : Machine) (name : String) (fuel : Nat) (arguments : List Value)
    (count : Nat) : Option Machine := do
  let method ← (machine.classes.flatMap (·.methods)).find? (·.name == name)
  let c ← method.owner.bind (Call.begun machine).classOf?
  match Call.initializeFully fuel c fuel (Call.begun machine),
      Frame.withArguments method arguments with
  | .ok () ready, .ok callee =>
      match Exec.pushFrame { callee with isEntry := true } ready with
      | .ok () entered =>
          if ∀ k < count, (entered.stepped k).stepsOn = true ∧
              ready.thread.depth < (entered.stepped k).thread.depth then
            some (entered.stepped count)
          else none
      | .error _ _ => none
  | _, _ => none

theorem Session.during {Allowed : Machine → Prop} {machine : Machine}
    (session : Session Allowed machine) (allowed : Allowed machine) (name : String) (fuel : Nat)
    (arguments : List Value) (count : Nat) :
    Reached Allowed ((machine.during? name fuel arguments count).getD machine) := by
  cases during : machine.during? name fuel arguments count with
  | none => exact .between session
  | some later =>
      obtain ⟨method, found, during⟩ := Option.bind_eq_some_iff.mp during
      obtain ⟨c, owned, during⟩ := Option.bind_eq_some_iff.mp during
      obtain ⟨id, owner, known⟩ := Option.bind_eq_some_iff.mp owned
      obtain ⟨holder, listed, declared⟩ := List.mem_flatMap.mp (List.mem_of_find?_eq_some found)
      split at during
      · rename_i ready callee initialized made
        split at during
        · rename_i entered pushed
          split at during
          · rename_i on
            obtain rfl := Option.some.inj during
            exact .inside session allowed ⟨holder, listed, declared⟩
              (.ready owner known initialized (.enters made pushed
                (.between (runs_stepped entered ready.thread.depth count on))))
          · cases during
        · cases during
      · cases during

/-- The field instruction at which the top frame stands, its index and its length. -/
def fieldAccess? (machine : Machine) : Option (FieldAccess × Nat × Nat) :=
  match machine.thread.frames.head?.bind Frame.next? with
  | some (.field access index, length) => some (access, index, length)
  | _ => none

theorem next_of_fieldAccess? {machine : Machine} {access : FieldAccess} {index length : Nat}
    (accesses : machine.fieldAccess? = some (access, index, length)) :
    ∃ top below, machine.thread.frames = top :: below ∧
      top.next? = some (.field access index, length) := by
  unfold fieldAccess? at accesses
  split at accesses
  · rename_i next
    obtain ⟨rfl, rfl, rfl⟩ : _ ∧ _ ∧ _ := by simpa using accesses
    obtain ⟨top, first, next⟩ := Option.bind_eq_some_iff.mp next
    obtain ⟨below, frames⟩ := List.head?_eq_some_iff.mp first
    exact ⟨top, below, frames, next⟩
  · cases accesses

/-- The object is about to be assigned its inherited field. -/
def shadowingWrite : Machine := (shadowing.during? "run" 16 [.int 7] 4).getD shadowing

/-- The inherited field is about to be read. -/
def shadowingRead : Machine := (shadowing.during? "run" 16 [.int 7] 6).getD shadowing

theorem objects_typed_shadowing :
    (∃ top below, shadowingWrite.thread.frames = top :: below ∧
      top.next? = some (.field .putField 11, 3) ∧
      top.Assigned below 11 3 shadowingWrite (Exec.step.after shadowingWrite)) ∧
    (∃ top below, shadowingRead.thread.frames = top :: below ∧
      top.next? = some (.field .getField 11, 3) ∧
      top.Fetched below 11 3 (Exec.step.after shadowingRead)) ∧
    (∀ thread ∈ shadowingRead.threads, ∀ object ∈ thread.heap.objects,
      ∃ c, shadowingRead.classOf? object.classId = some c ∧
        object.fields.toList.map Value.type = c.slotTypes) ∧
    shadowingRead.thread.heap.objects.map (·.fields) = #[#[.int 7, .int 0]] := by
  have small : ∀ machine : Machine,
      (machine.classes.all fun c => c.slotTypes.length ≤ 65536) = true → machine.Small :=
    fun machine all c known => by simpa using List.all_eq_true.mp all c known
  obtain ⟨stands, on, stands', on', few, few', content⟩ :
      shadowingWrite.fieldAccess? = some (.putField, 11, 3) ∧ shadowingWrite.stepsOn = true ∧
      shadowingRead.fieldAccess? = some (.getField, 11, 3) ∧ shadowingRead.stepsOn = true ∧
      (shadowingRead.classes.all fun c => c.slotTypes.length ≤ 65536) = true ∧
      ((Exec.step.after shadowingRead).classes.all fun c => c.slotTypes.length ≤ 65536) = true ∧
      shadowingRead.thread.heap.objects.map (·.fields) = #[#[.int 7, .int 0]] := by decide +kernel
  obtain ⟨top, below, frames, next⟩ := next_of_fieldAccess? stands
  obtain ⟨top', below', frames', next'⟩ := next_of_fieldAccess? stands'
  have reached : Reached (fun _ => True) shadowingWrite := session_shadowing.during trivial _ _ _ _
  have reached' : Reached (fun _ => True) shadowingRead := session_shadowing.during trivial _ _ _ _
  exact ⟨⟨top, below, frames, next,
      (((objects_typed shadowingWrite reached).2 top below 11 3 frames).2 next).1 _ _
        (step_of_stepsOn on)⟩,
    ⟨top', below', frames', next',
      (((objects_typed shadowingRead reached').2 top' below' 11 3 frames').1 next').1 _ _
        (step_of_stepsOn on') (small _ few')⟩,
    (objects_typed shadowingRead reached').1 (small _ few), content⟩

end Machine

end Jvm
