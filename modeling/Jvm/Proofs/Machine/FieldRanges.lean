/-
# Jvm.Proofs.Machine.FieldRanges — the range of what a static field holds

A static field of type `boolean`, `byte`, `char` or `short` is kept as an `int`. It is written in
three ways: with zero, with the constant of its class file, and by an assignment. An assignment
narrows the value to the type of the field (`inRange_narrowed`), the constant is taken as it is. So
the slot of such a field holds an `int` in the range of its type or the constant itself
(`LinkedClass.Admits`), which is kept by everything that changes records (`recorded_ranged`). A
preparation that answers has put the constant into the slot (`ends_prepare_constants`).
-/
import Jvm.Proofs.Machine.Preparation

namespace Jvm

set_option autoImplicit false

/-! ## Ranges -/

/-- The values of a type that is narrower than `int`. -/
def BasicType.InRange (type : BasicType) (v : Int32) : Prop :=
  match type with
  | .boolean => 0 ≤ v.toInt ∧ v.toInt ≤ 1
  | .byte => -128 ≤ v.toInt ∧ v.toInt ≤ 127
  | .char => 0 ≤ v.toInt ∧ v.toInt ≤ 65535
  | .short => -32768 ≤ v.toInt ∧ v.toInt ≤ 32767
  | _ => True

instance (type : BasicType) (v : Int32) : Decidable (type.InRange v) := by
  unfold BasicType.InRange
  cases type <;> infer_instance

theorem BasicType.inRange_zero (type : BasicType) : type.InRange 0 := by
  cases type <;> decide

theorem toInt_narrowBoolean (v : Int32) :
    0 ≤ (narrowBoolean v).toInt ∧ (narrowBoolean v).toInt ≤ 1 := by
  unfold narrowBoolean
  rw [← Int32.toInt_toBitVec, Int32.toBitVec_and]
  have small : (v.toBitVec &&& (1 : Int32).toBitVec).toNat ≤ 1 := by
    rw [BitVec.toNat_and]
    exact Nat.and_le_right
  rw [BitVec.toInt_eq_toNat_of_lt (by omega)]
  omega

theorem toInt_narrowByte (v : Int32) :
    -128 ≤ (narrowByte v).toInt ∧ (narrowByte v).toInt ≤ 127 := by
  have same : (narrowByte v).toInt = v.toInt8.toInt := Int8.toInt_toInt32 _
  have least := v.toInt8.le_toInt
  have most := v.toInt8.toInt_lt
  omega

theorem toInt_narrowShort (v : Int32) :
    -32768 ≤ (narrowShort v).toInt ∧ (narrowShort v).toInt ≤ 32767 := by
  have same : (narrowShort v).toInt = v.toInt16.toInt := Int16.toInt_toInt32 _
  have least := v.toInt16.le_toInt
  have most := v.toInt16.toInt_lt
  omega

theorem toInt_narrowChar (v : Int32) :
    0 ≤ (narrowChar v).toInt ∧ (narrowChar v).toInt ≤ 65535 := by
  have below := v.toUInt32.toUInt16.toNat_lt
  have same : (narrowChar v).toBitVec.toNat = v.toUInt32.toUInt16.toNat := UInt16.toNat_toUInt32 _
  rw [← Int32.toInt_toBitVec, BitVec.toInt_eq_toNat_of_lt (by omega), same]
  omega

theorem FrameM.inRange_narrowed (type : BasicType) (v : Int32) :
    type.InRange (FrameM.narrowed type v) := by
  cases type with
  | boolean => exact toInt_narrowBoolean v
  | byte => exact toInt_narrowByte v
  | char => exact toInt_narrowChar v
  | short => exact toInt_narrowShort v
  | _ => trivial

/-! ## What a slot may hold -/

/-- The type that the descriptor of the field spells. -/
def Field.declaredType (field : Field) : BasicType := Descriptor.fieldType field.descriptor

/-- The `int` that a constant is, if it is one. -/
def Pool.Loadable.int? : Pool.Loadable → Option Int32
  | .value (.int v) => some v
  | _ => none

namespace LinkedClass

variable {c : LinkedClass}

/-- The `int` that the class file gives a static field at first, if it does. -/
def intConstant? (c : LinkedClass) (field : Field) : Option Int32 :=
  if field.constantIndex = 0 then none
  else (c.pool.loadable field.constantIndex (field.stackType.size == 2)).toOption.bind (·.int?)

/-- The slot of a static field may hold the value: it is in the range of the type of the field, or
it is the constant of the field. -/
def Admits (c : LinkedClass) (field : Field) (v : Int32) : Prop :=
  field.declaredType.InRange v ∨ c.intConstant? field = some v

/-- The slots of the static fields of a class hold no `int` that they may not. -/
def Ranged (c : LinkedClass) (statics : Array Value) : Prop :=
  ∀ field ∈ c.fields, field.isStatic = true → ∀ v, statics[field.slot]? = some (.int v) →
    c.Admits field v

theorem ranged_unset : c.Ranged (Array.replicate c.staticCount .unset) := by
  intro field member static v held
  rw [Array.getElem?_replicate] at held
  split at held <;> cases held

theorem Ranged.write (sourced : c.Sourced) {statics : Array Value} (ranged : c.Ranged statics)
    {written : Field} (listed : written ∈ c.fields) (static : written.isStatic = true) {v : Value}
    (admits : ∀ n, v = .int n → c.Admits written n) :
    c.Ranged (statics.setIfInBounds written.slot v) := by
  intro field member static' n held
  by_cases same : written.slot = field.slot
  · obtain rfl := sourced.eq_of_slot listed static member static' same
    rw [Array.getElem?_setIfInBounds_self] at held
    split at held
    · exact admits n (Option.some.inj held)
    · cases held
  · rw [Array.getElem?_setIfInBounds_ne same] at held
    exact ranged field member static' n held

end LinkedClass

namespace Machine

variable {machine later : Machine}

/-- The static fields of the class of a record hold no `int` that they may not. -/
def InRanges (machine : Machine) (record : ClassRecord) : Prop :=
  ∃ c ∈ machine.classes, c.id = record.classId ∧ c.Ranged record.statics

theorem InRanges.grows {record : ClassRecord} (ranges : machine.InRanges record)
    (grows : machine.Grows later) : later.InRanges record := by
  obtain ⟨c, known, id, ranged⟩ := ranges
  exact ⟨c, grows.mem known, id, ranged⟩

/-- No static field of any thread holds an `int` that it may not. -/
structure Ranged (machine : Machine) : Prop where
  identified : machine.Identified
  sourced : machine.Sourced
  builtins : machine.HasBuiltins
  mine : ∀ record ∈ machine.thread.records, machine.InRanges record
  parked : ∀ thread ∈ machine.parked, ∀ record ∈ thread.records, machine.InRanges record

namespace Ranged

/-- Only the heaps of other threads can have changed. -/
theorem step (ranged : machine.Ranged) (grows : machine.Grows later)
    (mine : ∀ record ∈ later.thread.records, later.InRanges record) : later.Ranged := by
  refine ⟨grows.identified ranged.identified, grows.sourced ranged.sourced,
    grows.hasBuiltins ranged.builtins, mine, fun thread member record listed => ?_⟩
  obtain ⟨old, member', records⟩ := grows.records_parked member
  exact (ranged.parked old member' record (records.symm ▸ listed)).grows grows

theorem still (ranged : machine.Ranged) (still : machine.Still later) : later.Ranged :=
  ranged.step still.toGrows fun record listed =>
    (ranged.mine record (still.records ▸ listed)).grows still.toGrows

theorem setInitState (ranged : machine.Ranged) (id : ClassId) (state : InitState) :
    (machine.updateThread fun thread => thread.setInitState id state).Ranged := by
  have grows := grows_setInitState machine id state
  refine ranged.step grows fun record listed => InRanges.grows ?_ grows
  rcases mem_updateRecord listed with ⟨member, -⟩ | ⟨old, member, -, rfl⟩
  · exact ranged.mine record member
  · exact ranged.mine old member

theorem putStatic (ranged : machine.Ranged) {c : LinkedClass} (known : c ∈ machine.classes)
    {written : Field} (listed : written ∈ c.fields) (static : written.isStatic = true) {v : Value}
    (admits : ∀ n, v = .int n → c.Admits written n) :
    (machine.updateThread fun thread => thread.putStatic c.id written.slot v).Ranged := by
  have grows : machine.Grows
      (machine.updateThread fun thread => thread.putStatic c.id written.slot v) :=
    (Grows.refl machine).step rfl rfl rfl rfl rfl rfl
  refine ranged.step grows fun record listed' => InRanges.grows ?_ grows
  rcases mem_updateRecord listed' with ⟨member, -⟩ | ⟨old, member, id, rfl⟩
  · exact ranged.mine record member
  · obtain ⟨d, known', id', kept⟩ := ranged.mine old member
    obtain rfl := ranged.identified.eq_of_id known known' (id.symm.trans id'.symm)
    exact ⟨c, known, id', kept.write (ranged.sourced c known) listed static admits⟩

/-- A record of unset fields is entered. -/
theorem enter (ranged : machine.Ranged) {c : LinkedClass} (known : c ∈ machine.classes)
    (state : InitState) :
    (machine.updateThread fun thread => { thread with
      records := ⟨c.id, state, Array.replicate c.staticCount .unset⟩ :: thread.records }).Ranged := by
  have grows : machine.Grows (machine.updateThread fun thread => { thread with
      records := ⟨c.id, state, Array.replicate c.staticCount .unset⟩ :: thread.records }) :=
    (Grows.refl machine).step rfl rfl rfl rfl rfl rfl
  refine ranged.step grows fun record listed => ?_
  rcases List.mem_cons.mp listed with rfl | old
  · exact ⟨c, grows.mem known, rfl, LinkedClass.ranged_unset⟩
  · exact (ranged.mine record old).grows grows

end Ranged

end Machine

open Exec Machine

/-! ## First values -/

namespace Statics

variable {machine : Machine} {c : LinkedClass}

/-- A first value that is an `int` is zero or the constant of the field, and it is the constant if
there is one. -/
theorem ends_firstValue_admits (c : LinkedClass) (field : Field) :
    (firstValue c field).Ends machine
      (fun v later => machine.Steady later ∧ (∀ n, v = .int n → c.Admits field n) ∧
        ∀ n, c.intConstant? field = some n → v = .int n)
      fun _ later => machine.Steady later := by
  suffices value : (firstValue c field).Ends machine
      (fun v _ => (∀ n, v = .int n → c.Admits field n) ∧
        ∀ n, c.intConstant? field = some n → v = .int n) fun _ _ => True from
    ((keeps_firstValue c field machine (Steady.refl machine)).and value).mono
      (fun _ _ ended => ended) fun _ _ ended => ended.1
  unfold firstValue
  dsimp only
  split
  · rename_i absent
    refine ends_pure ⟨fun n zero => .inl ?_, fun n constant => ?_⟩
    · have zero' : n = 0 := by
        unfold Value.zero at zero
        split at zero <;> cases zero
        rfl
      exact zero' ▸ field.declaredType.inRange_zero
    · unfold LinkedClass.intConstant? at constant
      rw [if_pos absent] at constant
      cases constant
  · rename_i present
    refine ends_bind_ofFault (fun constant loads => ?_) fun _ _ => trivial
    have known : c.intConstant? field = constant.int? := by
      unfold LinkedClass.intConstant?
      rw [if_neg present, loads]
      rfl
    have loaded : (loadedValue constant).Ends machine
        (fun v _ => ∀ n, v = .int n ↔ c.intConstant? field = some n) fun _ _ => True := by
      rw [known]
      cases constant with
      | value v =>
          refine ends_pure fun n => ?_
          cases v <;> simp [Pool.Loadable.int?]
      | string text =>
          have answers : (intern text).Ends machine (fun _ _ => True) fun _ _ => True :=
            keeps_true (intern text) machine trivial
          exact answers.bind fun _ _ _ => ends_pure fun n => by simp [Pool.Loadable.int?]
    refine loaded.bind fun v later exact' => ?_
    exact ends_guard (fun _ => trivial) fun _ =>
      ends_pure ⟨fun n int => .inr ((exact' n).mp int), fun n constant => (exact' n).mpr constant⟩

theorem keeps_fill_ranged (fields : List Field) (listed : ∀ field ∈ fields, field ∈ c.fields) :
    Keeps (fun machine => c ∈ machine.classes ∧ machine.Ranged) (fill c fields) := by
  induction fields with
  | nil => exact keeps_pure _
  | cons field rest ih =>
      have rest' := ih fun other member => listed other (List.mem_cons_of_mem field member)
      rintro machine ⟨known, ranged⟩
      unfold fill
      dsimp only
      split
      · rename_i static
        refine (ends_firstValue_admits c field).before (fun v later ended => ?_)
          fun _ _ steady => ⟨steady.mem known, ranged.still steady.still⟩
        obtain ⟨steady, admits, -⟩ := ended
        refine ends_bind_modify (rest' _ ⟨steady.mem known, ?_⟩)
        exact (ranged.still steady.still).putStatic (steady.mem known)
          (listed field List.mem_cons_self) static admits
      · exact rest' machine ⟨known, ranged⟩

theorem ends_prepare_ranged (known : c ∈ machine.classes) (ranged : machine.Ranged) :
    (prepare c).Ends machine (fun _ => Ranged) fun _ => Ranged := by
  refine ends_bind_thread ?_
  split
  · exact ends_pure ranged
  · refine ends_bind_modify ?_
    refine Ends.before (keeps_fill_ranged c.fields (fun _ member => member) _
      ⟨known, ranged.enter known .prepared⟩) (fun _ _ kept => ends_pure kept.2) fun _ _ kept => kept.2

/-- The fields that are done hold their constants. -/
def HoldsConstants (c : LinkedClass) (done : List Field) (machine : Machine) : Prop :=
  ∃ record, machine.thread.record? c.id = some record ∧ record.statics.size = c.staticCount ∧
    ∀ field ∈ done, field.isStatic = true → ∀ n, c.intConstant? field = some n →
      record.statics[field.slot]? = some (.int n)

theorem HoldsConstants.still {done : List Field} {later : Machine}
    (holds : HoldsConstants c done machine) (still : machine.Still later) :
    HoldsConstants c done later := by
  unfold HoldsConstants Thread.record? at holds ⊢
  rwa [still.records]

theorem HoldsConstants.skip {done : List Field} (holds : HoldsConstants c done machine)
    {skipped : Field} (dynamic : ¬ skipped.isStatic = true) :
    HoldsConstants c (done ++ [skipped]) machine := by
  obtain ⟨record, found, size, fields⟩ := holds
  refine ⟨record, found, size, fun field member static => ?_⟩
  rcases List.mem_append.mp member with earlier | last
  · exact fields field earlier static
  · rw [List.mem_singleton.mp last] at static
    exact absurd static dynamic

/-- The next field gets its constant, and the fields before it keep theirs. -/
theorem HoldsConstants.write {done : List Field} (holds : HoldsConstants c done machine)
    (sourced : c.Sourced) (listed : ∀ field ∈ done, field ∈ c.fields) {written : Field}
    (member : written ∈ c.fields) (static : written.isStatic = true) {v : Value}
    (exact' : ∀ n, c.intConstant? written = some n → v = .int n) :
    HoldsConstants c (done ++ [written])
      (machine.updateThread fun thread => thread.putStatic c.id written.slot v) := by
  obtain ⟨record, found, size, fields⟩ := holds
  have own : record.classId = c.id := by simpa using List.find?_some found
  have within : written.slot < record.statics.size := size ▸ sourced.staticsWithin member static
  have changed := record?_updateRecord machine.thread c.id
    (fun record => { record with statics := record.statics.setIfInBounds written.slot v })
    (fun _ => rfl) c.id
  refine ⟨{ record with statics := record.statics.setIfInBounds written.slot v },
    changed.trans (by rw [found, Option.map_some, if_pos own]), ?_, fun field done' static' n constant => ?_⟩
  · exact Array.size_setIfInBounds.trans size
  · have last (same : written = field) :
        (record.statics.setIfInBounds written.slot v)[field.slot]? = some (.int n) := by
      rw [← same] at constant ⊢
      rw [Array.getElem?_setIfInBounds_self_of_lt within, exact' n constant]
    rcases List.mem_append.mp done' with earlier | chosen
    · by_cases same : written.slot = field.slot
      · exact last (sourced.eq_of_slot member static (listed field earlier) static' same)
      · exact (Array.getElem?_setIfInBounds_ne same).trans (fields field earlier static' n constant)
    · exact last (List.mem_singleton.mp chosen).symm

theorem ends_fill_constants (sourced : c.Sourced) {done rest : List Field}
    (fields : done ++ rest = c.fields) (holds : HoldsConstants c done machine) :
    (fill c rest).Ends machine (fun _ later => HoldsConstants c c.fields later) fun _ _ => True := by
  induction rest generalizing done machine with
  | nil =>
      rw [List.append_nil] at fields
      exact ends_pure (fields ▸ holds)
  | cons field rest ih =>
      have fields' : (done ++ [field]) ++ rest = c.fields := by
        rw [← fields, List.append_assoc]
        rfl
      have listed : field ∈ c.fields := fields ▸ List.mem_append_right done List.mem_cons_self
      unfold fill
      dsimp only
      split
      · rename_i static
        refine (ends_firstValue_admits c field).before (fun v later ended => ?_) fun _ _ _ => trivial
        obtain ⟨steady, -, exact'⟩ := ended
        refine ends_bind_modify (ih fields' ?_)
        exact (holds.still steady.still).write sourced
          (fun other earlier => fields ▸ List.mem_append_left _ earlier) listed static exact'
      · rename_i dynamic
        exact ih fields' (holds.skip dynamic)

/-- The first preparation of a class, if it answers, puts the constants into the slots. -/
theorem ends_prepare_constants (sourced : c.Sourced)
    (absent : machine.thread.record? c.id = none) :
    (prepare c).Ends machine (fun _ later => HoldsConstants c c.fields later) fun _ _ => True := by
  refine ends_bind_thread ?_
  rw [absent]
  refine ends_bind_modify ?_
  refine (ends_fill_constants sourced (List.nil_append c.fields) ?_).bind
    fun _ _ holds => ends_pure holds
  refine ⟨⟨c.id, .prepared, Array.replicate c.staticCount .unset⟩, ?_, Array.size_replicate,
    fun field none => by cases none⟩
  unfold Thread.record?
  simp [Machine.updateThread]

end Statics

/-! ## What changes records -/

namespace Native

theorem keeps_storeOutput_ranged : Keeps Ranged storeOutput := by
  intro machine ranged
  refine (ends_builtin _).before (fun system _ ended => ?_) fun _ _ ended => by rwa [ended.1]
  obtain ⟨rfl, found⟩ := ended
  refine (ends_builtin _).before (fun stream _ ended => ?_) fun _ _ ended => by rwa [ended.1]
  obtain ⟨rfl, -⟩ := ended
  refine (keeps_allocate stream).before (Steady.refl _) (fun ref allocated steady => ?_)
    fun _ _ steady => ranged.still steady.still
  have ranged' := ranged.still steady.still
  have known : system ∈ allocated.classes := steady.mem (List.mem_of_find?_eq_some found)
  have aside : (Statics.prepare system).Ends allocated (fun _ => allocated.Aside)
      fun _ => allocated.Aside := keeps_prepare system allocated (Aside.refl allocated)
  refine ((Statics.ends_prepare_ranged known ranged').and aside).before
    (fun _ prepared ended => ?_) fun _ _ ended => ended.1
  have builtIn : system ∈ builtinClasses := ranged.builtins.mem (by decide +kernel) found
  split
  · rename_i field out
    have name : system.name = Builtin.system.name := by simpa using List.find?_some found
    have static := (outField_of_builtin system builtIn name field out).1
    exact ends_modify (ended.1.putStatic (ended.2.mem known) (List.mem_of_find?_eq_some out) static
      fun n int => by cases int)
  · exact ended.1

theorem keeps_run_ranged (native : Native) (arguments : List Value) :
    Keeps Ranged (native.run arguments) := by
  have quietly {α : Type} {action : Exec α}
      (keeps : ∀ before : Machine, Keeps before.Steady action) : Keeps Ranged action :=
    fun machine ranged => (keeps machine machine (Steady.refl machine)).mono
      (fun _ _ steady => ranged.still steady.still) fun _ _ steady => ranged.still steady.still
  cases native with
  | newline => exact keeps_bind (quietly fun _ => keeps_print _) fun _ => keeps_pure _
  | print kind endsLine =>
      exact keeps_bind (quietly fun _ => keeps_printedText kind _) fun _ =>
        keeps_bind (quietly fun _ => keeps_print _) fun _ => keeps_pure _
  | openOutput => exact keeps_bind keeps_storeOutput_ranged fun _ => keeps_pure _
  | fail => exact keeps_fail _
  | _ => exact keeps_pure _

end Native

namespace Initialization

theorem keeps_setState_ranged (id : ClassId) (state : InitState) : Keeps Ranged (setState id state) :=
  keeps_modify fun _ ranged => ranged.setInitState id state

theorem keeps_failing_ranged {α : Type} (id : ClassId) {action : Exec α} (keeps : Keeps Ranged action) :
    Keeps Ranged (failing id action) :=
  keeps_onHalt keeps fun _ ranged => ranged.setInitState id .failed

theorem keeps_start_ranged (c : LinkedClass) : Keeps Ranged (start c) := by
  refine keeps_bind (fun machine ranged => ?_) fun _ => ?_
  · exact (keeps_trace _ _ machine (Steady.refl machine)).mono
      (fun _ _ steady => ranged.still steady.still) fun _ _ steady => ranged.still steady.still
  · split
    · exact keeps_bind (keeps_setState_ranged c.id .ready) fun _ => keeps_pure _
    · rename_i method found
      refine keeps_bind (keeps_setState_ranged c.id .running) fun _ => ?_
      split
      · have runs : Keeps Ranged (runNative c method.native) := by
          unfold runNative
          split
          · exact keeps_fail _
          · exact keeps_bind (Native.keeps_run_ranged _ []) fun _ => keeps_pure _
        refine keeps_bind (keeps_failing_ranged c.id runs) fun _ => ?_
        exact keeps_bind (keeps_setState_ranged c.id .ready) fun _ => keeps_pure _
      · refine keeps_bind (keeps_failing_ranged c.id fun machine ranged => ?_) fun _ => keeps_pure _
        exact ends_pushFrame (fun _ => ranged.still (still_pushFrame machine _)) fun _ => ranged

theorem keeps_initializeChain_ranged (chain : List ClassId) :
    Keeps Ranged (initializeChain chain) := by
  induction chain with
  | nil => exact keeps_pure _
  | cons id supers ih =>
      intro machine ranged
      refine ends_bind_classOf (fun c found => ?_) fun _ => ranged
      refine (Statics.ends_prepare_ranged (mem_of_classOf? found).1 ranged).bind
        fun state prepared ranged' => ?_
      cases state with
      | ready => exact ends_pure ranged'
      | running => exact ends_pure ranged'
      | failed => exact ends_throw ranged'
      | prepared =>
          refine (keeps_failing_ranged id ih prepared ranged').bind fun ready later ranged'' => ?_
          split
          · exact keeps_start_ranged c later ranged''
          · exact ends_pure ranged''

end Initialization

/-- What is assigned to a static field is narrowed to its type. -/
theorem Exec.inRange_narrowedTo {type : BasicType} {v : Value} {n : Int32}
    (int : narrowedTo type v = .int n) : type.InRange n := by
  unfold narrowedTo at int
  split at int
  · cases int
    exact FrameM.inRange_narrowed type _
  · rename_i other
    exact absurd int (other n)

/-- After an assignment that is done, the slot of the field holds no `int` out of its range. -/
theorem Exec.ends_putStatic_ranged {machine asked : Machine} {field : LinkedField}
    (ready : Initialization.ensureReady field.owner machine = .ok true asked) (length : Nat) :
    (Exec.putStatic field length).Ends machine
      (fun _ later => ∀ record, later.thread.record? field.owner.id = some record →
        ∀ n, record.statics[field.slot]? = some (.int n) → field.type.InRange n)
      fun _ _ => True := by
  refine ends_bind_run ready ?_
  refine (ends_onTop_calm (FrameM.continues_pop _)).before (fun v popped _ => ?_)
    fun _ _ _ => trivial
  refine ends_bind_modify ?_
  refine (ends_onTop_calm (FrameM.continues_advance length)).mono (fun _ later ended => ?_)
    fun _ _ _ => trivial
  intro record found n held
  have changed := record?_updateRecord popped.thread field.owner.id
    (fun record => { record with
      statics := record.statics.setIfInBounds field.slot (narrowedTo field.type v) })
    (fun _ => rfl) field.owner.id
  unfold Thread.record? at found changed
  rw [ended.1.records] at found
  obtain ⟨old, found', rfl⟩ := Option.map_eq_some_iff.mp (changed.symm.trans found)
  have own : old.classId = field.owner.id := by simpa using List.find?_some found'
  rw [if_pos own, Array.getElem?_setIfInBounds_self] at held
  split at held
  · exact inRange_narrowedTo (Option.some.inj held)
  · cases held

theorem recorded_ranged : Recorded Ranged Ranged where
  weaken _ ranged := ranged
  calm _ _ calm ranged := ranged.still calm.toStill
  native native arguments machine ranged := Native.keeps_run_ranged native arguments machine ranged
  ready c machine _ ranged := Initialization.keeps_initializeChain_ranged c.chain machine ranged
  write machine field v frame later ranged declared static popped := by
    obtain ⟨known, written, listed, slot, descriptor, static'⟩ := declared
    rw [← slot]
    refine ranged.putStatic known listed (static'.trans static) fun n int => .inl ?_
    have same : written.declaredType = field.type := by
      unfold Field.declaredType LinkedField.type
      rw [descriptor]
    exact same ▸ inRange_narrowedTo int
  leave machine top frame below ranged _ _ := by
    have pops : ∀ machine : Machine, machine.Ranged → machine.popFrame.Ranged :=
      fun machine ranged => ranged.still (still_popFrame machine)
    unfold Exec.leave
    split
    · rename_i id initializing
      exact ends_bind_modify (pops _ (ranged.setInitState id .ready))
    · exact pops machine ranged

end Jvm
