/-
# Jvm.Proofs.Machine.OwnObjects — threads that refer to their own objects

A thread is closed if every reference that it keeps, in a variable or on an operand stack, in a
field of an object, in a static field or in the table of strings, is null or to an object of its own
heap (`Thread.Closed`). Its heap is accounted for if the bytes in use are those that its objects take,
and no more than there are (`Heap.Accounted`). A thread that is closed, accounted for and whose
classes are known is sound (`Thread.Sound`), and each of the few changes that are ever made to a
thread leaves it so.
-/
import Jvm.Proofs.Frame.References
import Jvm.Proofs.Machine.Objects
import Jvm.Proofs.StringTable
import Jvm.Thread

namespace Jvm

set_option autoImplicit false

namespace Object

theorem isPlain_initialValue (type : BasicType) : (initialValue type).IsPlain := by
  unfold initialValue
  split
  · exact fun _ => nofun
  · exact Value.isPlain_zero type

end Object

namespace Heap

/-- The bytes in use are those that the objects take, and no more than there are. -/
structure Accounted (heap : Heap) : Prop where
  used : heap.used = (heap.objects.toList.map fun object => Object.byteSize object.fields.size).sum
  room : heap.used ≤ heap.capacity

variable {heap : Heap}

/-- An object that has a field assigned was there before. -/
theorem exists_of_mem_putField {index slot : Nat} {v : Value} {object : Object}
    (member : object ∈ (heap.putField index slot v).objects) :
    ∃ old ∈ heap.objects, object = old ∨ object = old.write slot v := by
  obtain ⟨position, held⟩ := Array.mem_iff_getElem?.mp member
  have held' : (heap.putField index slot v).object? position = some object := held
  rw [object?_putField] at held'
  obtain ⟨old, found, rfl⟩ := Option.map_eq_some_iff.mp held'
  refine ⟨old, Array.mem_of_getElem? found, ?_⟩
  split
  · exact .inr rfl
  · exact .inl rfl

theorem Accounted.add (accounted : heap.Accounted) {c : LinkedClass} (room : heap.hasRoom c = true) :
    (heap.add c).Accounted := by
  constructor
  · show heap.used + sizeOf c = _
    rw [accounted.used]
    simp [Heap.add, sizeOf, Object.ofClass]
  · have enough : sizeOf c ≤ heap.capacity - heap.used := of_decide_eq_true room
    have within := accounted.room
    show heap.used + sizeOf c ≤ heap.capacity
    omega

theorem Accounted.putField (accounted : heap.Accounted) (index slot : Nat) (v : Value) :
    (heap.putField index slot v).Accounted := by
  refine ⟨accounted.used.trans (congrArg List.sum (List.ext_getElem? fun position => ?_)),
    accounted.room⟩
  have same := object?_putField heap index slot v position
  unfold object? at same
  rw [List.getElem?_map, List.getElem?_map, Array.getElem?_toList, Array.getElem?_toList, same,
    Option.map_map]
  congr 1
  funext object
  dsimp only [Function.comp]
  split <;> simp [Object.write]

end Heap

namespace Thread

/-- If the value is a reference, then it is null or to an object of the thread. -/
def Holds (thread : Thread) (v : Value) : Prop :=
  v.Within thread.number thread.heap.objects.size

/-- Every reference that the thread keeps is null or to an object of its own. -/
structure Closed (thread : Thread) : Prop where
  frames : ∀ frame ∈ thread.frames, frame.Within thread.number thread.heap.objects.size
  fields : ∀ object ∈ thread.heap.objects, ∀ v ∈ object.fields, thread.Holds v
  statics : ∀ record ∈ thread.records, ∀ v ∈ record.statics, thread.Holds v
  strings : ∀ entry ∈ thread.strings, thread.Holds (.ref (some entry.2))

/-- The thread is closed and accounted for, and the classes of its objects and of the methods that
it executes are known. -/
structure Sound (Known : ClassId → Prop) (thread : Thread) : Prop where
  closed : thread.Closed
  accounted : thread.heap.Accounted
  methods : ∀ frame ∈ thread.frames, ∃ id, frame.method.owner = some id ∧ Known id
  classes : ∀ object ∈ thread.heap.objects, Known object.classId

/-- The same thread later: its objects are still there. -/
structure Extends (thread later : Thread) : Prop where
  number : later.number = thread.number
  objects : thread.heap.objects.size ≤ later.heap.objects.size
  used : thread.heap.used ≤ later.heap.used
  capacity : later.heap.capacity = thread.heap.capacity

theorem Extends.refl (thread : Thread) : thread.Extends thread :=
  ⟨rfl, Nat.le_refl _, Nat.le_refl _, rfl⟩

theorem Extends.trans {first second third : Thread} (one : first.Extends second)
    (two : second.Extends third) : first.Extends third :=
  ⟨two.number.trans one.number, Nat.le_trans one.objects two.objects,
    Nat.le_trans one.used two.used, two.capacity.trans one.capacity⟩

/-- A thread with the same heap. -/
theorem Extends.of_heap {thread later : Thread} (number : later.number = thread.number)
    (heap : later.heap = thread.heap) : thread.Extends later :=
  ⟨number, by simp [heap], by simp [heap], by rw [heap]⟩

theorem Holds.extends {thread later : Thread} {v : Value} (holds : thread.Holds v)
    (within : thread.Extends later) : later.Holds v := by
  unfold Holds at *
  rw [within.number]
  exact holds.mono within.objects

theorem holds_unset (thread : Thread) : thread.Holds .unset := trivial

theorem extends_addObject (thread : Thread) (c : LinkedClass) : thread.Extends (thread.addObject c) := by
  refine ⟨rfl, ?_, Nat.le_add_right _ _, rfl⟩
  show _ ≤ (thread.heap.objects.push _).size
  rw [Array.size_push]
  exact Nat.le_succ _

/-- The new object is the thread's own. -/
theorem holds_nextRef (thread : Thread) (c : LinkedClass) :
    (thread.addObject c).Holds (.ref (some thread.nextRef)) := by
  refine ⟨rfl, ?_⟩
  show thread.heap.objects.size < (thread.heap.objects.push _).size
  rw [Array.size_push]
  exact Nat.lt_succ_self _

theorem extends_putField (thread : Thread) (index slot : Nat) (v : Value) :
    thread.Extends { thread with heap := thread.heap.putField index slot v } := by
  refine ⟨rfl, ?_, Nat.le_refl _, rfl⟩
  show _ ≤ (thread.heap.objects.modify _ _).size
  exact Nat.le_of_eq Array.size_modify.symm

namespace Sound

variable {Known Known' : ClassId → Prop} {thread : Thread}

theorem mono (sound : thread.Sound Known) (more : ∀ id, Known id → Known' id) :
    thread.Sound Known' where
  closed := sound.closed
  accounted := sound.accounted
  methods frame member := by
    obtain ⟨id, owner, known⟩ := sound.methods frame member
    exact ⟨id, owner, more id known⟩
  classes object member := more _ (sound.classes object member)

/-- Another name, state or output. -/
theorem beside (sound : thread.Sound Known) {later : Thread} (number : later.number = thread.number)
    (calls : later.calls = thread.calls) (heap : later.heap = thread.heap)
    (strings : later.strings = thread.strings) (records : later.records = thread.records) :
    later.Sound Known := by
  obtain ⟨number', _, _, calls', heap', strings', records', _⟩ := later
  cases number
  cases calls
  cases heap
  cases strings
  cases records
  exact ⟨⟨sound.closed.frames, sound.closed.fields, sound.closed.statics, sound.closed.strings⟩,
    sound.accounted, sound.methods, sound.classes⟩

/-- Other frames. -/
theorem withCalls (sound : thread.Sound Known) {calls : CallStack}
    (held : ∀ frame ∈ calls.frames, frame.Within thread.number thread.heap.objects.size)
    (owned : ∀ frame ∈ calls.frames, ∃ id, frame.method.owner = some id ∧ Known id) :
    Sound Known { thread with calls := calls } :=
  ⟨⟨held, sound.closed.fields, sound.closed.statics, sound.closed.strings⟩, sound.accounted, owned,
    sound.classes⟩

theorem pushFrame (sound : thread.Sound Known) {frame : Frame}
    (held : frame.Within thread.number thread.heap.objects.size) {id : ClassId}
    (owner : frame.method.owner = some id) (known : Known id) :
    (thread.pushFrame frame).Sound Known :=
  sound.withCalls (List.forall_mem_cons.mpr ⟨held, sound.closed.frames⟩)
    (List.forall_mem_cons.mpr ⟨⟨id, owner, known⟩, sound.methods⟩)

theorem popFrame (sound : thread.Sound Known) : thread.popFrame.Sound Known :=
  sound.withCalls (fun frame member => sound.closed.frames frame (List.mem_of_mem_tail member))
    fun frame member => sound.methods frame (List.mem_of_mem_tail member)

/-- Other records of classes. -/
theorem withRecords (sound : thread.Sound Known) {records : List ClassRecord}
    (held : ∀ record ∈ records, ∀ v ∈ record.statics, thread.Holds v) :
    Sound Known { thread with records := records } :=
  ⟨⟨sound.closed.frames, sound.closed.fields, held, sound.closed.strings⟩, sound.accounted,
    sound.methods, sound.classes⟩

theorem updateRecord (sound : thread.Sound Known) (id : ClassId)
    {change : ClassRecord → ClassRecord}
    (held : ∀ record, (∀ v ∈ record.statics, thread.Holds v) →
      ∀ v ∈ (change record).statics, thread.Holds v) : (thread.updateRecord id change).Sound Known := by
  refine sound.withRecords fun record member => ?_
  obtain ⟨old, listed, rfl⟩ := List.mem_map.mp member
  split
  · exact held old (sound.closed.statics old listed)
  · exact sound.closed.statics old listed

theorem setInitState (sound : thread.Sound Known) (id : ClassId) (state : InitState) :
    (thread.setInitState id state).Sound Known := sound.updateRecord id fun _ held => held

theorem putStatic (sound : thread.Sound Known) (id : ClassId) (slot : Nat) {v : Value}
    (held : thread.Holds v) : (thread.putStatic id slot v).Sound Known := by
  refine sound.updateRecord id fun record old w member => ?_
  rw [← Array.mem_toList_iff, Array.toList_setIfInBounds] at member
  rcases List.mem_or_eq_of_mem_set member with there | rfl
  · exact old w (Array.mem_toList_iff.mp there)
  · exact held

theorem dropFrame (sound : thread.Sound Known) : thread.dropFrame.Sound Known := by
  unfold Thread.dropFrame
  split
  · exact sound
  · refine popFrame ?_
    unfold Thread.abandon
    split
    · exact sound
    · exact sound.updateRecord _ fun record held => by split <;> exact held

theorem unwindTo (sound : thread.Sound Known) (depth : Nat) : (thread.unwindTo depth).Sound Known := by
  unfold Thread.unwindTo
  generalize thread.depth - depth = count
  induction count generalizing thread with
  | zero => exact sound
  | succ count ih => exact ih sound.dropFrame

/-- An object is added of a class for which there is room. -/
theorem addObject (sound : thread.Sound Known) {c : LinkedClass} (known : Known c.id)
    (room : thread.heap.hasRoom c = true) : (thread.addObject c).Sound Known := by
  have lasts : thread.Extends (thread.addObject c) := thread.extends_addObject c
  refine ⟨⟨fun frame member => (sound.closed.frames frame member).mono lasts.objects,
    fun object member v field => ?_, fun record listed v held =>
      (sound.closed.statics record listed v held).extends lasts,
    fun entry listed => (sound.closed.strings entry listed).extends lasts⟩,
    sound.accounted.add room, sound.methods, fun object member => ?_⟩
  · rcases Array.mem_push.mp member with old | rfl
    · exact (sound.closed.fields object old v field).extends lasts
    · obtain ⟨type, -, rfl⟩ : ∃ type ∈ c.slotTypes, Object.initialValue type = v := by
        simpa [Object.ofClass] using field
      exact (Object.isPlain_initialValue type).within
  · rcases Array.mem_push.mp member with old | rfl
    · exact sound.classes object old
    · exact known

/-- A field of an object is assigned. -/
theorem putField (sound : thread.Sound Known) (index slot : Nat) {v : Value} (held : thread.Holds v) :
    Sound Known { thread with heap := thread.heap.putField index slot v } := by
  have lasts := thread.extends_putField index slot v
  refine ⟨⟨fun frame member => (sound.closed.frames frame member).mono lasts.objects,
    fun object member w field => ?_, fun record listed v held =>
      (sound.closed.statics record listed v held).extends lasts,
    fun entry listed => (sound.closed.strings entry listed).extends lasts⟩,
    sound.accounted.putField index slot v, sound.methods, fun object member => ?_⟩
  · obtain ⟨old, there, rfl | rfl⟩ := Heap.exists_of_mem_putField member
    · exact (sound.closed.fields _ there w field).extends lasts
    · rw [Object.write, ← Array.mem_toList_iff, Array.toList_setIfInBounds] at field
      rcases List.mem_or_eq_of_mem_set field with kept | rfl
      · exact (sound.closed.fields old there w (Array.mem_toList_iff.mp kept)).extends lasts
      · exact held.extends lasts
  · obtain ⟨old, there, same⟩ := Heap.exists_of_mem_putField member
    have known := sound.classes old there
    rcases same with rfl | rfl <;> exact known

/-- A string is entered into the table. -/
theorem addString (sound : thread.Sound Known) (text : String) {ref : Ref}
    (held : thread.Holds (.ref (some ref))) :
    Sound Known { thread with strings := thread.strings.insert text ref } :=
  ⟨⟨sound.closed.frames, sound.closed.fields, sound.closed.statics, fun entry listed =>
    (StringTable.mem_insert.mp listed).elim (fun new => new ▸ held) (sound.closed.strings entry)⟩,
    sound.accounted, sound.methods, sound.classes⟩

end Sound

end Thread

end Jvm
