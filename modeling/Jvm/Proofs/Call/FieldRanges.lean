/-
# Jvm.Proofs.Call.FieldRanges — when narrow static fields are in range

Through any session, the slot of a static field of type `boolean`, `byte`, `char` or `short` holds a
value in the range of the type, unless it holds the constant that the class file gives the field:
that is not narrowed, and a class file may give a `byte` the constant 300.
-/
import Jvm.Proofs.Call.InstanceFields
import Jvm.Proofs.Call.StaticFields
import Jvm.Proofs.Machine.FieldRanges

namespace Jvm

set_option autoImplicit false

open Machine Exec

namespace Machine

variable {machine : Machine}

/-- Other threads are current and parked. -/
theorem Ranged.withThreads (ranged : machine.Ranged) {thread : Thread} {parked : List Thread}
    (mine : ∀ record ∈ thread.records, machine.InRanges record)
    (others : ∀ other ∈ parked, ∀ record ∈ other.records, machine.InRanges record) :
    { machine with thread := thread, parked := parked }.Ranged :=
  ⟨dictionary_identified.threads _ _ _ ranged.identified, ranged.sourced, ranged.builtins, mine, others⟩

theorem kept_ranged : Call.Kept Ranged Ranged where
  weaken := recorded_ranged.weaken
  state _ _ ranged := ranged.withThreads ranged.mine ranged.parked
  ready := recorded_ranged.ready
  step := recorded_ranged.step
  native := recorded_ranged.native
  enter _ _ plain machine _ :=
    recorded_ranged.quiet (fun _ => keeps_pushFrame_calm plain) machine
  unwind machine _ _ ranged :=
    ranged.withThreads
      (records_dropFrames (fun _ ranges _ => ranges) _ machine.thread ranged.mine) ranged.parked

theorem lasting_ranged : Lasting Ranged where
  start {options files _} started := by
    have identified := identified_start started
    have sourced := sourced_start started
    have builtins := dictionary_hasBuiltins.start started
    obtain ⟨heap, rfl⟩ := exists_start started
    have steady := steady_withBuiltins (blank options files heap)
    have parked : (blank options files heap).withBuiltins.parked.map Thread.heapless = [] :=
      steady.parked
    refine ⟨identified, sourced, builtins, fun record listed => ?_, fun thread waits => ?_⟩
    · rw [steady.records] at listed
      cases listed
    · rw [List.map_eq_nil_iff.mp parked] at waits
      cases waits
  kept := kept_ranged
  resolve name machine ranged :=
    (Loading.keeps_resolve name machine (Steady.refl machine)).mono
      (fun _ _ steady => ranged.still steady.still) fun _ _ steady => ranged.still steady.still
  define read machine ranged :=
    (Loading.keeps_define (.inl ⟨_, _, read⟩) machine (Steady.refl machine)).mono
      (fun _ _ steady => ranged.still steady.still) fun _ _ steady => ranged.still steady.still
  create machine _ _ ranged _ := by
    refine ranged.withThreads (fun _ held => (List.not_mem_nil held).elim) fun thread member => ?_
    rcases List.mem_cons.mp member with rfl | waits
    · exact ranged.mine
    · exact ranged.parked thread waits
  switch machine thread ranged waited := by
    refine ranged.withThreads (ranged.parked thread waited) fun other member => ?_
    rcases List.mem_cons.mp member with rfl | kept
    · exact ranged.mine
    · exact ranged.parked other (List.mem_filter.mp kept).1

/-- In every reachable machine, an `int` in the slot of a static field is in the range of the
declared type, or it is the constant that the class file gives the field. The constant is taken as
it is: the first preparation of a class that answers leaves it in the slot. An assignment that is
done leaves a value in the range. -/
theorem statics_inRange_unless_constant (machine : Machine)
    (reached : Reached (fun _ => True) machine) :
    (∀ thread ∈ machine.thread :: machine.parked, ∀ record ∈ thread.records,
      ∀ c ∈ machine.classes, c.id = record.classId → ∀ field ∈ c.fields, field.isStatic = true →
      ∀ n, record.statics[field.slot]? = some (.int n) →
        field.declaredType.InRange n ∨ c.intConstant? field = some n) ∧
    (∀ (c : LinkedClass) (state : InitState) (later : Machine), c ∈ machine.classes →
      machine.thread.record? c.id = none → Statics.prepare c machine = .ok state later →
      ∃ record, later.thread.record? c.id = some record ∧ ∀ field ∈ c.fields,
        field.isStatic = true → ∀ n, c.intConstant? field = some n →
          record.statics[field.slot]? = some (.int n)) ∧
    ∀ (field : LinkedField) (length : Nat) (asked later : Machine),
      Initialization.ensureReady field.owner machine = .ok true asked →
      Exec.putStatic field length machine = .ok () later →
      ∀ record, later.thread.record? field.owner.id = some record →
        ∀ n, record.statics[field.slot]? = some (.int n) → field.type.InRange n := by
  have ranged := lasting_ranged.reached reached
  refine ⟨fun thread member record listed c known id => ?_, fun c state later known absent ran => ?_,
    fun field length asked later ready ran => (ends_putStatic_ranged ready length).of_ok ran⟩
  · have ranges : machine.InRanges record := by
      rcases List.mem_cons.mp member with rfl | waits
      · exact ranged.mine record listed
      · exact ranged.parked thread waits record listed
    obtain ⟨d, known', id', kept⟩ := ranges
    obtain rfl := ranged.identified.eq_of_id known known' (id.trans id'.symm)
    exact kept
  · obtain ⟨record, found, -, constants⟩ :=
      (Statics.ends_prepare_constants (ranged.sourced c known) absent).of_ok ran
    exact ⟨record, found, constants⟩

/-! ## A constant out of range -/

/-- The file of a class with a static field `low` of type `byte`, whose constant is 300. The static
method `getLow` returns it, and `setLow` assigns it its argument. -/
def limitsFile : List UInt8 :=
  [202, 254, 186, 190, 0, 0, 0, 52, 0, 16, 1, 0, 6, 76, 105, 109, 105, 116, 115, 7, 0, 1, 1, 0,
    16, 106, 97, 118, 97, 47, 108, 97, 110, 103, 47, 79, 98, 106, 101, 99, 116, 7, 0, 3, 1, 0, 4,
    67, 111, 100, 101, 1, 0, 3, 108, 111, 119, 1, 0, 1, 66, 12, 0, 6, 0, 7, 9, 0, 2, 0, 8, 3, 0,
    0, 1, 44, 1, 0, 13, 67, 111, 110, 115, 116, 97, 110, 116, 86, 97, 108, 117, 101, 1, 0, 6, 103,
    101, 116, 76, 111, 119, 1, 0, 3, 40, 41, 73, 1, 0, 6, 115, 101, 116, 76, 111, 119, 1, 0, 4,
    40, 73, 41, 86, 0, 33, 0, 2, 0, 4, 0, 0, 0, 1, 0, 8, 0, 6, 0, 7, 0, 1, 0, 11, 0, 0, 0, 2, 0,
    10, 0, 2, 0, 9, 0, 12, 0, 13, 0, 1, 0, 5, 0, 0, 0, 16, 0, 1, 0, 0, 0, 0, 0, 4, 178, 0, 9, 172,
    0, 0, 0, 0, 0, 9, 0, 14, 0, 15, 0, 1, 0, 5, 0, 0, 0, 17, 0, 1, 0, 1, 0, 0, 0, 5, 26, 179, 0,
    9, 177, 0, 0, 0, 0, 0, 0]

/-- The built-in classes, and the class of the file. -/
def limits : Machine := (sized 8388608).withFile "Limits" limitsFile

theorem session_limits : Session (fun _ => True) limits :=
  Session.withFile (.start (start_eq_ok rfl)) trivial "Limits" limitsFile

/-- The field has been read. -/
def limitsRead : Machine := limits.calling "getLow" 16 []

/-- The field is about to be assigned. -/
def limitsWrite : Machine := (limits.during? "setLow" 16 [.int 300] 1).getD limits

theorem statics_inRange_unless_constant_limits :
    (∃ c ∈ limitsRead.classes, ∃ record ∈ limitsRead.thread.records, ∃ field ∈ c.fields,
      c.id = record.classId ∧ field.declaredType = .byte ∧
      record.statics[field.slot]? = some (.int 300) ∧ ¬ BasicType.byte.InRange 300 ∧
      c.intConstant? field = some 300) ∧
    (∃ (c : LinkedClass) (later : Machine) (record : ClassRecord), c ∈ limits.classes ∧
      Statics.prepare c limits = .ok .prepared later ∧
      later.thread.record? c.id = some record ∧ record.statics[0]? = some (.int 300)) ∧
    ∃ (field : LinkedField) (later : Machine) (record : ClassRecord),
      Exec.putStatic field 3 limitsWrite = .ok () later ∧ field.type = .byte ∧
      later.thread.record? field.owner.id = some record ∧ record.statics[0]? = some (.int 44) ∧
      BasicType.byte.InRange 44 := by
  have read : Reached (fun _ => True) limitsRead :=
    .between (session_limits.calling trivial _ _ _)
  have write : Reached (fun _ => True) limitsWrite := session_limits.during trivial _ _ _ _
  refine ⟨?_, ?_, ?_⟩
  · obtain ⟨c, known, record, listed, field, member, id, type, static, held, out⟩ :
        ∃ c ∈ limitsRead.classes, ∃ record ∈ limitsRead.thread.records, ∃ field ∈ c.fields,
          c.id = record.classId ∧ field.declaredType = .byte ∧ field.isStatic = true ∧
          record.statics[field.slot]? = some (.int 300) ∧ ¬ BasicType.byte.InRange 300 := by
      decide +kernel
    have admits := (statics_inRange_unless_constant limitsRead read).1 _ List.mem_cons_self record
      listed c known id field member static 300 held
    exact ⟨c, known, record, listed, field, member, id, type, held, out,
      admits.resolve_left (type ▸ out)⟩
  · obtain ⟨c, known, absent, field, member, static, slot, constant, prepares⟩ :
        ∃ c ∈ limits.classes, limits.thread.record? c.id = none ∧ ∃ field ∈ c.fields,
          field.isStatic = true ∧ field.slot = 0 ∧ c.intConstant? field = some 300 ∧
          (Statics.prepare c).answer? limits = some .prepared := by decide +kernel
    have ran := run_of_answer? prepares
    obtain ⟨record, found, constants⟩ := (statics_inRange_unless_constant limits
      (.between session_limits)).2.1 c .prepared _ known absent ran
    exact ⟨c, _, record, known, ran, found, slot ▸ constants field member static 300 constant⟩
  · let field (c : LinkedClass) (written : Field) : LinkedField :=
      ⟨c, written.name, written.descriptor, written.slot, true⟩
    let later (c : LinkedClass) (written : Field) : Machine :=
      (Exec.putStatic (field c written) 3).after limitsWrite
    obtain ⟨c, -, written, -, type, slot, ready, assigns, record, -, found, held⟩ :
        ∃ c ∈ limitsWrite.classes, ∃ written ∈ c.fields, written.declaredType = .byte ∧
          written.slot = 0 ∧ limitsWrite.readies? c = some true ∧
          (Exec.putStatic (field c written) 3).answer? limitsWrite = some () ∧
          ∃ record ∈ (later c written).thread.records,
            (later c written).thread.record? c.id = some record ∧
            record.statics[0]? = some (.int 44) := by decide +kernel
    obtain ⟨asked, ran⟩ := readies?_eq_some ready
    have held' : record.statics[written.slot]? = some (.int 44) := slot.symm ▸ held
    have assigned := run_of_answer? assigns
    have ranged := (statics_inRange_unless_constant limitsWrite write).2.2 (field c written) 3
      asked _ ran assigned record found 44 held'
    have byte : (field c written).type = .byte := type
    exact ⟨field c written, _, record, assigned, byte, found, held, byte ▸ ranged⟩

end Machine

end Jvm
