/-
# Jvm.Proofs.Machine.FieldAccess — reading and assigning the fields of an object

A field instruction finds the declaration that its reference stands for (`Frame.Names`), and takes
an object of the class of the declaration, or of one that extends it, off the stack. So the slot
of the field has the type of the field in that object, and what is read from it can be pushed
(`ends_getField`). What is assigned to it was popped as a value of that type, so the object still
fits its class, and no other slot of any object is touched (`ends_setField`).
-/
import Jvm.Proofs.Frame.Arguments
import Jvm.Proofs.Machine.InstanceFields

namespace Jvm

set_option autoImplicit false

open Exec Machine
open OperandStack (slotsOf)

/-- A fault is all that an action halts with. -/
def Halt.Raised (halt : Halt) : Prop := ∃ fault, halt = .fault fault

/-- What a field instruction of a frame halts with: a fault, or the abort that the reference on top of
the stack names no object. It is never the abort of pushing a value without a type. -/
inductive Frame.Halts (top : Frame) (machine : Machine) : Halt → Prop
  | fault (fault : Fault) : Halts top machine (.fault fault)
  | noObject {ref : Ref} {rest : List Value} (slots : top.stack.slots = .ref (some ref) :: rest)
      (absent : machine.object? ref = none) : Halts top machine (.violation .unknownObject)

namespace Frame.Halts

variable {top : Frame} {machine later : Machine} {halt : Halt}

theorem of_raised (raised : halt.Raised) : top.Halts machine halt := by
  obtain ⟨fault, rfl⟩ := raised
  exact .fault fault

theorem mapFault (halts : top.Halts machine halt) (change : Fault → Fault) :
    top.Halts machine (halt.mapFault change) := by
  cases halts with
  | fault fault => exact .fault (change fault)
  | noObject slots absent => exact .noObject slots absent

theorem of_objects (halts : top.Halts later halt)
    (objects : ∀ ref, later.object? ref = machine.object? ref) : top.Halts machine halt := by
  cases halts with
  | fault fault => exact .fault fault
  | noObject slots absent => exact .noObject slots ((objects _).symm.trans absent)

end Frame.Halts

/-- The field that an index names in the pool of the class whose method the frame executes: `ref` is
the reference there, and `owner` declares the field that it stands for. -/
structure Frame.Names (top : Frame) (index : Nat) (machine : Machine) (ref : Pool.Member)
    (owner : LinkedClass) (field : Field) : Prop where
  reference : ∃ id c, top.method.owner = some id ∧ machine.classOf? id = some c ∧
    c.pool.field index = .ok ref
  declaration : ∃ c, machine.findClass? ref.owner = some c ∧
    machine.findField? c.chain ref.name ref.descriptor = some (owner, field)

/-- The field that an instruction uses is the one that the reference at an index stands for: `field`
is its declaration. -/
structure LinkedField.StandsFor (linked : LinkedField) (machine : Machine) (pool : Pool)
    (index : Nat) (access : FieldAccess) (ref : Pool.Member) (field : Field) : Prop where
  declared : Linking.Declared machine linked
  kind : linked.isStatic = access.isStatic
  read : pool.field index = .ok ref
  descriptor : linked.descriptor = ref.descriptor
  slot : field.slot = linked.slot
  static : field.isStatic = access.isStatic
  located : ∃ c, machine.findClass? ref.owner = some c ∧
    machine.findField? c.chain ref.name ref.descriptor = some (linked.owner, field)

theorem LinkedField.StandsFor.type {linked : LinkedField} {machine : Machine} {pool : Pool}
    {index : Nat} {access : FieldAccess} {ref : Pool.Member} {field : Field}
    (stands : linked.StandsFor machine pool index access ref field) :
    linked.type = Descriptor.fieldType ref.descriptor := by
  unfold LinkedField.type
  rw [stands.descriptor]

/-! ## Finding the field -/

/-- Only the classes matter for what a search along a chain finds. -/
theorem Machine.findInChain?_of_classes {α : Type} {machine later : Machine}
    (classes : later.classes = machine.classes) (view : LinkedClass → Option α)
    (chain : List ClassId) : later.findInChain? view chain = machine.findInChain? view chain := by
  induction chain with
  | nil => rfl
  | cons id supers ih =>
      unfold findInChain? classOf?
      rw [classes]
      split
      · rfl
      · split
        · rfl
        · exact ih

theorem Frame.Names.of_classes {top : Frame} {index : Nat} {machine later : Machine}
    {ref : Pool.Member} {owner : LinkedClass} {field : Field}
    (names : top.Names index machine ref owner field) (classes : later.classes = machine.classes) :
    top.Names index later ref owner field := by
  obtain ⟨⟨id, holder, owned, known, read⟩, c, found, located⟩ := names
  refine ⟨⟨id, holder, owned, ?_, read⟩, c, ?_, ?_⟩
  · unfold classOf?
    rw [classes]
    exact known
  · unfold findClass?
    rw [classes]
    exact found
  · unfold findField?
    rw [findInChain?_of_classes classes]
    exact located

namespace Exec

variable {machine : Machine} {top : Frame} {below : List Frame}

/-- A frame whose class is there has its pool. -/
theorem ends_currentPool (frames : machine.thread.frames = top :: below) {id : ClassId}
    {c : LinkedClass} (owner : top.method.owner = some id) (known : machine.classOf? id = some c) :
    currentPool.Ends machine (fun pool later => later = machine ∧ pool = c.pool)
      fun _ _ => False := by
  refine ends_bind_topFrame frames ?_
  unfold holder
  rw [owner]
  refine ends_bind_classOf (fun d found => ends_pure ⟨rfl, ?_⟩) fun absent => ?_
  · rw [Option.some.inj (found.symm.trans known)]
  · cases absent.symm.trans known

/-- With the root class in the dictionary, loading halts with a fault or not at all. -/
theorem ends_resolve_raised (formed : machine.Formed) (name : String) :
    (Loading.resolve name).Ends machine (fun _ _ => True) fun halt _ => halt.Raised := by
  obtain ⟨trail, along⟩ := Loading.exists_trail formed.rooted name
  unfold Ends
  rw [Loading.resolve_of_trail along, Loading.Trail.outcome]
  cases trail.answer with
  | ok c => trivial
  | error obstacle => exact ⟨_, rfl⟩

theorem ends_resolveField_standsFor (formed : machine.Formed) (pool : Pool) (index : Nat)
    (access : FieldAccess) :
    (Linking.resolveField pool index access).Ends machine
      (fun linked later => machine.Steady later ∧ later.threads = machine.threads ∧
        ∃ ref field, linked.StandsFor later pool index access ref field)
      fun halt later => later.threads = machine.threads ∧ halt.Raised := by
  refine ends_bind_ofFault (fun ref read => ?_) fun _ _ => ⟨rfl, _, rfl⟩
  have loads := ((Loading.ends_resolve ref.owner (Steady.refl machine)).and
    (Loading.keeps_resolve_threads ref.owner machine rfl)).and
    (ends_resolve_raised formed ref.owner)
  refine loads.before (fun c later found => ends_bind_get ?_)
    fun _ _ stopped => ⟨stopped.1.2, stopped.2⟩
  obtain ⟨⟨⟨steady, found⟩, threads⟩, -⟩ := found
  split
  · exact ends_throw ⟨threads, _, rfl⟩
  · rename_i owner field located
    obtain ⟨known, listed, described⟩ := mem_of_findField? located
    refine ends_guard (fun _ => ⟨threads, _, rfl⟩) fun agree => ends_pure ?_
    have static := Decidable.not_not.mp agree
    exact ⟨steady, threads, ref, field, ⟨known, field, listed, rfl, described, static⟩, rfl, read,
      rfl, rfl, static, c, found, located⟩

/-- The object must have the slot of the field. Objects have classes, so there is no check without
one. -/
theorem ends_checkField (stored : machine.Stored) (ref : Ref) (field : LinkedField) :
    (checkField ref field).Ends machine
      (fun _ later => later = machine ∧ ∃ object c, machine.object? ref = some object ∧
        machine.classOf? object.classId = some c ∧ c.isSubclassOf field.owner.id = true ∧
        field.slot < object.fields.size)
      fun halt later => later = machine ∧ (machine.Small →
        halt.Raised ∨ halt = .violation .unknownObject ∧ machine.object? ref = none) := by
  unfold checkField object
  rw [bind_assoc]
  refine ends_bind_get ?_
  cases held : machine.object? ref with
  | none => exact ends_throw ⟨rfl, fun _ => .inr ⟨rfl, rfl⟩⟩
  | some object =>
      refine ends_bind_classOf (fun c found => ?_) fun absent => ⟨rfl, fun small => ?_⟩
      swap
      · obtain ⟨c, known, fits⟩ := stored.fits small ref object held
        cases absent.symm.trans (stored.classOf?_of_fits known fits)
      split
      · exact ends_throw ⟨rfl, fun _ => .inl ⟨_, rfl⟩⟩
      · rename_i right
        rw [not_or, Decidable.not_not, Nat.not_le] at right
        exact ends_pure ⟨rfl, object, c, rfl, found, right.1, right.2⟩

end Exec

/-! ## The slot of the field -/

namespace Machine

variable {machine : Machine}

theorem Stored.withTop (stored : machine.Stored) (frame : Frame) : (machine.withTop frame).Stored :=
  objectProperty_stored.beside stored (fun thread => thread.popFrame.pushFrame frame) rfl rfl

theorem object?_withTop (machine : Machine) (frame : Frame) (ref : Ref) :
    (machine.withTop frame).object? ref = machine.object? ref := by
  apply object?_eq_of_heap <;> rfl

/-- What an object of the class of a field, or of one that extends it, holds in the slot of the
field. -/
theorem Stored.slotType_field (stored : machine.Stored) (small : machine.Small)
    {field : LinkedField} (declared : Linking.Declared machine field)
    (dynamic : field.isStatic = false) {object : Object} {c d : LinkedClass}
    (found : machine.classOf? object.classId = some c)
    (extended : c.isSubclassOf field.owner.id = true) (known : d ∈ machine.classes)
    (fits : object.Fits d) : d.slotTypes[field.slot]? = some field.type.stackType := by
  obtain rfl := Option.some.inj ((stored.classOf?_of_fits known fits).symm.trans found)
  exact stored.formed.slotType_field stored.identified small declared dynamic known extended

/-- Fields have types that a value can be popped with. -/
theorem Stored.held (stored : machine.Stored) {field : LinkedField}
    (declared : Linking.Declared machine field) : field.type.stackType.isHeld = true := by
  obtain ⟨known, written, listed, -, descriptor, -⟩ := declared
  have held := (stored.sourced _ known).isHeld listed
  unfold Field.stackType at held
  rwa [descriptor] at held

end Machine

namespace Exec

variable {machine : Machine} {top : Frame} {below : List Frame} {field : LinkedField}
  {length : Nat}

theorem type_narrowedTo (type : BasicType) (v : Value) : (narrowedTo type v).type = v.type := by
  unfold narrowedTo
  split <;> rfl

theorem raised_push {v : Value} (held : v.type.isHeld = true) {frame later : Frame} {halt : Halt}
    (failed : FrameM.push v frame = .error halt later) : halt.Raised := by
  have typed : v ≠ .unset ∧ v ≠ .void := by
    refine ⟨?_, ?_⟩ <;> rintro rfl <;> cases held
  unfold FrameM.push at failed
  rw [FrameM.onStack_eq] at failed
  cases pushed : frame.stack.push v with
  | ok stack =>
      rw [pushed] at failed
      cases failed
  | error other =>
      rw [pushed] at failed
      cases failed
      obtain ⟨cause, rfl, -⟩ := OperandStack.refused_push typed pushed
      exact ⟨_, rfl⟩

theorem raised_pop {type : BasicType} {frame later : Frame} {halt : Halt}
    (failed : FrameM.pop type frame = .error halt later) : halt.Raised := by
  rw [FrameM.pop_eq] at failed
  cases taken : frame.stack.pop type with
  | ok result =>
      rw [taken] at failed
      cases failed
  | error other =>
      rw [taken] at failed
      cases failed
      obtain ⟨cause, rfl, -⟩ := OperandStack.refused_popTyped taken
      exact ⟨_, rfl⟩

theorem raised_popRef {frame later : Frame} {halt : Halt}
    (failed : FrameM.popRef frame = .error halt later) : halt.Raised := by
  unfold FrameM.popRef at failed
  cases taken : FrameM.pop .object frame with
  | error other between =>
      rw [bind_of_error taken] at failed
      cases failed
      exact raised_pop taken
  | ok v between =>
      rw [bind_of_ok taken] at failed
      split at failed <;> cases failed

/-- How an instruction that yields a value ends: the value is pushed, and the position is past the
instruction. -/
theorem ends_push_advance (frames : machine.thread.frames = top :: below) (v : Value) :
    (onTop do
      FrameM.push v
      FrameM.advance length).Ends machine
      (fun _ later => ∃ stack, stack.slots = slotsOf v ++ top.stack.slots ∧
        later = machine.withTop { top with bci := top.bci + length, stack := stack })
      fun halt later => (∃ frame, later = machine.withTop frame) ∧
        (v.type.isHeld = true → halt.Raised) := by
  refine ends_onTop frames (fun _ frame ran => ?_)
    fun halt frame failed => ⟨⟨frame, rfl⟩, fun held => ?_⟩
  · obtain ⟨_, pushed, pushes, moved⟩ := bind_eq_ok.mp ran
    obtain ⟨slots, same⟩ := FrameM.push_eq_ok pushes
    cases moved
    exact ⟨pushed.stack, slots, by rw [same]⟩
  · cases pushes : FrameM.push v top with
    | ok _ pushed =>
        rw [bind_of_ok pushes] at failed
        cases failed
    | error other pushed =>
        rw [bind_of_error pushes] at failed
        cases failed
        exact raised_push held pushes

/-- An object is taken off the stack, and what it holds in the slot of the field is pushed. -/
theorem ends_getField (stored : machine.Stored) (frames : machine.thread.frames = top :: below)
    (declared : Linking.Declared machine field) (dynamic : field.isStatic = false) :
    (getField field length).Ends machine
      (fun _ later => ∃ ref v rest stack, top.stack.slots = .ref (some ref) :: rest ∧
        (later.object? ref).bind (·.fields[field.slot]?) = some v ∧
        (later.Small → v.type = field.type.stackType) ∧
        later.thread.frames = { top with bci := top.bci + length, stack := stack } :: below ∧
        stack.slots = slotsOf v ++ rest ∧ later.classes = machine.classes)
      fun halt later => later.Small → top.Halts machine halt := by
  refine ends_bind_onTop frames (fun object between popped => ?_)
    fun _ _ failed _ => .of_raised (raised_popRef failed)
  cases object with
  | none => exact ends_throw fun _ => .fault _
  | some ref =>
      obtain ⟨slots, same⟩ := FrameM.popRef_eq_ok popped
      refine (ends_checkField (stored.withTop between) ref field).before (fun _ _ checked => ?_)
        fun halt later stopped small => ?_
      swap
      · obtain ⟨rfl, halts⟩ := stopped
        rcases halts small with raised | ⟨rfl, absent⟩
        · exact .of_raised raised
        · exact .noObject slots ((object?_withTop machine between ref).symm.trans absent)
      obtain ⟨rfl, object, c, held, found, extended, within⟩ := checked
      unfold Exec.field Exec.object
      rw [bind_assoc, bind_assoc]
      refine ends_bind_get ?_
      rw [held]
      show Ends (do
        onTop do
          FrameM.push (object.fields.getD field.slot .unset)
          FrameM.advance length) _ _ _
      have content : object.fields[field.slot]? = some (object.fields.getD field.slot .unset) := by
        rw [Array.getD_eq_getD_getElem?, Array.getElem?_eq_getElem within, Option.getD_some]
      generalize object.fields.getD field.slot .unset = v at content ⊢
      rw [object?_withTop] at held
      have typed : machine.Small → v.type = field.type.stackType := by
        intro small
        obtain ⟨d, known, fits⟩ := stored.fits small ref object held
        obtain ⟨w, content', type⟩ := fits.getElem?
          (stored.slotType_field small declared dynamic found extended known fits)
        rwa [Option.some.inj (content.symm.trans content')]
      refine (ends_push_advance (frames_withTop frames between) v).mono
        (fun _ later pushed => ?_) fun halt later stopped small => ?_
      · obtain ⟨stack, slots', rfl⟩ := pushed
        refine ⟨ref, v, between.stack.slots, stack, slots, ?_, typed, ?_, slots', rfl⟩
        · rw [object?_withTop, object?_withTop, held]
          exact content
        · rw [frames_withTop (frames_withTop frames between), same]
      · obtain ⟨⟨frame, rfl⟩, raised⟩ := stopped
        exact .of_raised (raised (typed small ▸ stored.held declared))

/-- A value of the type of the field is taken off the stack and an object below it, and the slot of
the field in the object is all that is written. -/
theorem ends_setField (stored : machine.Stored) (frames : machine.thread.frames = top :: below)
    (declared : Linking.Declared machine field) (dynamic : field.isStatic = false) :
    (setField field length).Ends machine
      (fun _ later => later.Stored ∧ ∃ ref v stack, v.type = field.type.stackType ∧
        top.stack.slots = slotsOf v ++ .ref (some ref) :: stack.slots ∧
        later.thread.frames = { top with bci := top.bci + length, stack := stack } :: below ∧
        later.classes = machine.classes ∧
        ∀ other, later.object? other = (machine.object? other).map fun object =>
          if other = ref then object.write field.slot (narrowedTo field.type v) else object)
      fun _ later => later.Stored ∧ ∀ ref, later.object? ref = machine.object? ref := by
  have sized := BasicType.size_of_isHeld (stored.held declared)
  refine ends_bind_onTop frames (fun v popped takes => ?_)
    fun _ frame _ => ⟨stored.withTop frame, object?_withTop machine frame⟩
  obtain ⟨tag, slots, same⟩ := FrameM.pop_eq_ok sized takes
  have frames' := frames_withTop frames popped
  have stored' := (stored.withTop popped)
  have objects : ∀ frame ref, ((machine.withTop popped).withTop frame).object? ref =
      machine.object? ref := fun frame ref =>
    (object?_withTop _ frame ref).trans (object?_withTop machine popped ref)
  refine ends_bind_onTop frames' (fun object between takes' => ?_)
    fun _ frame _ => ⟨stored'.withTop frame, objects frame⟩
  have stored'' := stored'.withTop between
  cases object with
  | none => exact ends_throw ⟨stored'', objects between⟩
  | some ref =>
      obtain ⟨slots', same'⟩ := FrameM.popRef_eq_ok takes'
      refine (ends_checkField stored'' ref field).before (fun _ _ checked => ?_)
        fun _ _ stopped => stopped.1 ▸ ⟨stored'', objects between⟩
      obtain ⟨rfl, object, c, held, found, extended, -⟩ := checked
      have written : (((machine.withTop popped).withTop between).updateHeap ref.heap fun heap =>
          heap.putField ref.index field.slot (narrowedTo field.type v)).Stored := by
        refine stored''.write fun small other held' d known fits => ?_
        obtain rfl := Option.some.inj (held.symm.trans held')
        rw [type_narrowedTo, tag]
        exact stored''.slotType_field small declared dynamic found extended known fits
      have frames'' := (steady_updateHeap ((machine.withTop popped).withTop between) ref.heap
        fun heap => heap.putField ref.index field.slot (narrowedTo field.type v)).frames.trans
          (frames_withTop frames' between)
      refine ends_bind_modify (ends_onTop frames'' (fun _ frame moved => ?_)
        fun _ _ impossible => by cases impossible)
      cases moved
      refine ⟨written.withTop _, ref, v, between.stack, tag, ?_, ?_,
        classes_updateHeap _ _ _, fun other => ?_⟩
      · rw [slots, slots']
      · rw [frames_withTop frames'', same', same]
      · rw [object?_withTop, object?_putField, objects]

end Exec

end Jvm
