/-
# Jvm.Proofs.Machine.StaticFields — what the static fields of a class hold

A record holds, in the slot of every static field of its class, a value of the type of the field
(`machine.Typed record`). This is so once the class has been prepared, and no assignment changes
it. But a preparation can be cut short, since a string constant needs room on the heap; its record
then stays behind, in the state `prepared`, with fields that are unset. So an action that answers
leaves all records typed if they were (`Filled`), and one that halts leaves at most the record of a
class that had none before as an exception (`CutSince`).
-/
import Jvm.Proofs.Class.StaticSlots
import Jvm.Proofs.Machine.Bootstrap
import Jvm.Proofs.Machine.Records

namespace Jvm

set_option autoImplicit false

/-- The slot of the field holds a value of the type of the field. -/
def Field.IsSet (field : Field) (statics : Array Value) : Prop :=
  ∃ v, statics[field.slot]? = some v ∧ v.type = field.stackType

/-- The slot of the field has not been written. -/
def Field.IsUnset (field : Field) (statics : Array Value) : Prop :=
  statics[field.slot]? = some .unset

/-- Assigning a static field leaves the others as they are. -/
theorem Field.IsSet.write {c : LinkedClass} (sourced : c.Sourced) {field written : Field}
    (member : field ∈ c.fields) (static : field.isStatic = true) (listed : written ∈ c.fields)
    (static' : written.isStatic = true) {statics : Array Value} {v : Value}
    (tag : v.type = written.stackType) (set : field.IsSet statics) :
    field.IsSet (statics.setIfInBounds written.slot v) := by
  obtain ⟨w, held, type⟩ := set
  by_cases same : written.slot = field.slot
  · obtain rfl := sourced.eq_of_slot listed static' member static same
    have within := (Array.getElem?_eq_some_iff.mp held).1
    exact ⟨v, Array.getElem?_setIfInBounds_self_of_lt within, tag⟩
  · exact ⟨w, by rw [Array.getElem?_setIfInBounds_ne same, held], type⟩

namespace Machine

variable {before machine later : Machine}

/-- The static fields of the class of a record hold values of their types. -/
def Typed (machine : Machine) (record : ClassRecord) : Prop :=
  ∃ c ∈ machine.classes, c.id = record.classId ∧
    ∀ field ∈ c.fields, field.isStatic = true → field.IsSet record.statics

/-- The record has been entered, but the static fields of its class may not be filled yet. -/
def Partly (machine : Machine) (record : ClassRecord) : Prop :=
  record.state = .prepared ∧ ∃ c ∈ machine.classes, c.id = record.classId ∧
    ∀ field ∈ c.fields, field.isStatic = true →
      field.IsSet record.statics ∨ field.IsUnset record.statics

theorem Typed.grows {record : ClassRecord} (typed : machine.Typed record)
    (grows : machine.Grows later) : later.Typed record := by
  obtain ⟨c, known, id, set⟩ := typed
  exact ⟨c, grows.mem known, id, set⟩

theorem Partly.grows {record : ClassRecord} (partly : machine.Partly record)
    (grows : machine.Grows later) : later.Partly record := by
  obtain ⟨prepared, c, known, id, fields⟩ := partly
  exact ⟨prepared, c, grows.mem known, id, fields⟩

/-- A value of the type of a static field is assigned to it. -/
theorem Typed.write {record : ClassRecord} (typed : machine.Typed record)
    (identified : machine.Identified) (sourced : machine.Sourced) {c : LinkedClass}
    (known : c ∈ machine.classes) (id : record.classId = c.id) {written : Field}
    (listed : written ∈ c.fields) (static : written.isStatic = true) {v : Value}
    (tag : v.type = written.stackType) :
    machine.Typed { record with statics := record.statics.setIfInBounds written.slot v } := by
  obtain ⟨d, known', id', set⟩ := typed
  obtain rfl := identified.eq_of_id known known' (id.symm.trans id'.symm)
  exact ⟨c, known, id', fun field member static' =>
    (set field member static').write (sourced c known) member static' listed static tag⟩

/-- Reading a static field takes what its slot holds. -/
theorem read_of_record? {id : ClassId} {record : ClassRecord} {slot : Nat} {v : Value}
    (found : machine.thread.record? id = some record) (held : record.statics[slot]? = some v) :
    Statics.read id slot machine = .ok v machine := by
  unfold Statics.read
  rw [bind_of_ok (rfl : Exec.thread machine = .ok machine.thread machine), found]
  dsimp only
  rw [Array.getD_eq_getD_getElem?, held]
  rfl

/-! ## All records of a machine -/

/-- The records of the current thread are as stated, and those of the other threads are typed. -/
structure RecordsHold (machine : Machine) (Mine : ClassRecord → Prop) : Prop where
  identified : machine.Identified
  sourced : machine.Sourced
  builtins : machine.HasBuiltins
  mine : ∀ record ∈ machine.thread.records, Mine record
  parked : ∀ thread ∈ machine.parked, ∀ record ∈ thread.records, machine.Typed record

/-- Only the heaps of other threads can have changed. -/
theorem RecordsHold.step {Mine Mine' : ClassRecord → Prop} (hold : machine.RecordsHold Mine)
    (grows : machine.Grows later) (mine : ∀ record ∈ later.thread.records, Mine' record) :
    later.RecordsHold Mine' := by
  refine ⟨grows.identified hold.identified, grows.sourced hold.sourced,
    grows.hasBuiltins hold.builtins, mine,
    fun thread member record listed => ?_⟩
  obtain ⟨old, member', records⟩ := grows.records_parked member
  exact (hold.parked old member' record (records.symm ▸ listed)).grows grows

/-- Every record is typed. -/
def Filled (machine : Machine) : Prop := machine.RecordsHold machine.Typed

/-- Every record is typed, but for one of a class that had none before. -/
def CutSince (before machine : Machine) : Prop :=
  machine.RecordsHold fun record => machine.Typed record ∨
    machine.Partly record ∧ before.thread.record? record.classId = none

/-- Every record is typed, unless it has been left by a preparation. -/
def Usable (machine : Machine) : Prop :=
  machine.RecordsHold fun record => machine.Typed record ∨ machine.Partly record

theorem Filled.cutSince (filled : machine.Filled) : CutSince before machine :=
  RecordsHold.step filled (Grows.refl machine) fun record listed => .inl (filled.mine record listed)

theorem CutSince.usable (cut : CutSince before machine) : machine.Usable :=
  RecordsHold.step cut (Grows.refl machine) fun record listed =>
    (cut.mine record listed).imp_right And.left

theorem Filled.usable (filled : machine.Filled) : machine.Usable :=
  RecordsHold.step filled (Grows.refl machine) fun record listed => .inl (filled.mine record listed)

theorem Filled.still (filled : machine.Filled) (still : machine.Still later) : later.Filled :=
  RecordsHold.step filled still.toGrows fun record listed =>
    (filled.mine record (still.records ▸ listed)).grows still.toGrows

/-! ## Changes of records -/

theorem mem_updateRecord {thread : Thread} {id : ClassId} {change : ClassRecord → ClassRecord}
    {record : ClassRecord} (listed : record ∈ (thread.updateRecord id change).records) :
    record ∈ thread.records ∧ record.classId ≠ id ∨
      ∃ old ∈ thread.records, old.classId = id ∧ record = change old := by
  obtain ⟨old, member, same⟩ := List.mem_map.mp listed
  split at same
  · rename_i id'
    exact .inr ⟨old, member, id', same.symm⟩
  · rename_i other
    obtain rfl := same
    exact .inl ⟨member, other⟩

theorem record?_updateRecord (thread : Thread) (id : ClassId) (change : ClassRecord → ClassRecord)
    (kept : ∀ record, (change record).classId = record.classId) (other : ClassId) :
    (thread.updateRecord id change).record? other =
      (thread.record? other).map fun record =>
        if record.classId = id then change record else record := by
  unfold Thread.record? Thread.updateRecord
  rw [List.find?_map]
  have same : ((fun record : ClassRecord => record.classId == other) ∘ fun record =>
      if record.classId = id then change record else record) =
      fun record => record.classId == other := by
    funext record
    show ((if _ then _ else _ : ClassRecord).classId == other) = _
    split
    · rw [kept]
    · rfl
  rw [same]

/-- A class has a record afterwards if it had one before. -/
def Knows (before machine : Machine) : Prop :=
  ∀ id, machine.thread.record? id = none → before.thread.record? id = none

theorem Knows.refl (machine : Machine) : machine.Knows machine := fun _ absent => absent

theorem Knows.trans {first second third : Machine} (one : first.Knows second)
    (two : second.Knows third) : first.Knows third := fun id absent => one id (two id absent)

theorem Still.knows (still : machine.Still later) : machine.Knows later := by
  intro id absent
  unfold Thread.record? at absent ⊢
  rwa [← still.records]

theorem CutSince.knows {first : Machine} (cut : CutSince before machine) (knows : first.Knows before) :
    CutSince first machine :=
  RecordsHold.step cut (Grows.refl machine) fun record listed =>
    (cut.mine record listed).imp_right fun exception => ⟨exception.1, knows _ exception.2⟩

theorem grows_setInitState (machine : Machine) (id : ClassId) (state : InitState) :
    machine.Grows (machine.updateThread fun thread => thread.setInitState id state) :=
  (Grows.refl machine).step rfl rfl rfl rfl rfl rfl

theorem knows_setInitState (machine : Machine) (id : ClassId) (state : InitState) :
    machine.Knows (machine.updateThread fun thread => thread.setInitState id state) :=
  fun other absent => Option.map_eq_none_iff.mp ((record?_updateRecord machine.thread id
    (fun record => { record with state := state }) (fun _ => rfl) other).symm.trans absent)

/-- A typed record stays typed in another state. -/
theorem Filled.setInitState (filled : machine.Filled) (id : ClassId) (state : InitState) :
    (machine.updateThread fun thread => thread.setInitState id state).Filled := by
  have grows := grows_setInitState machine id state
  refine RecordsHold.step filled grows fun record listed => Typed.grows ?_ grows
  rcases mem_updateRecord listed with ⟨member, -⟩ | ⟨old, member, -, rfl⟩
  · exact filled.mine record member
  · exact filled.mine old member

/-- A class that had a record before is marked failed; the exception is another class. -/
theorem CutSince.setFailed (cut : CutSince before machine) {id : ClassId}
    (recorded : before.thread.record? id ≠ none) :
    CutSince before (machine.updateThread fun thread => thread.setInitState id .failed) := by
  have grows := grows_setInitState machine id .failed
  refine RecordsHold.step cut grows fun record listed => ?_
  rcases mem_updateRecord listed with ⟨member, -⟩ | ⟨old, member, id', rfl⟩
  · exact (cut.mine record member).imp (fun typed => typed.grows grows)
      fun exception => ⟨exception.1.grows grows, exception.2⟩
  · refine (cut.mine old member).elim (fun typed => .inl (Typed.grows typed grows)) fun exception => ?_
    rw [id'] at exception
    exact absurd exception.2 recorded

/-- A value of its type is assigned to a static field. -/
theorem Filled.putStatic (filled : machine.Filled) {c : LinkedClass} (known : c ∈ machine.classes)
    {written : Field} (listed : written ∈ c.fields) (static : written.isStatic = true) {v : Value}
    (tag : v.type = written.stackType) :
    (machine.updateThread fun thread => thread.putStatic c.id written.slot v).Filled := by
  have grows : machine.Grows
      (machine.updateThread fun thread => thread.putStatic c.id written.slot v) :=
    (Grows.refl machine).step rfl rfl rfl rfl rfl rfl
  refine RecordsHold.step filled grows fun record listed' => Typed.grows ?_ grows
  rcases mem_updateRecord listed' with ⟨member, -⟩ | ⟨old, member, id, rfl⟩
  · exact filled.mine record member
  · exact (filled.mine old member).write filled.identified filled.sourced known id listed static tag

end Machine

end Jvm
