/-
# Jvm.Proofs.Call.StaticFields — when static fields are typed

The static fields of a class that is being initialized or ready hold values of their types, as long
as no preparation has been cut short. If one has been, because there was no room for a string
constant, its record stays behind with unset fields in the state `prepared`, and the next use of
the class takes it for prepared and goes on: then a class becomes ready whose fields are unset.
-/
import Jvm.Proofs.Call.Passage
import Jvm.Proofs.Machine.CutShort
import Jvm.Proofs.Machine.Session

namespace Jvm

set_option autoImplicit false

open Machine Exec

namespace Machine

variable {machine later : Machine}

/-- The records of classes that are being initialized or ready, of whatever thread, have values of
the types of their fields. -/
def StaticsTyped (machine : Machine) : Prop :=
  ∀ thread ∈ machine.thread :: machine.parked, ∀ record ∈ thread.records,
    record.state = .running ∨ record.state = .ready →
    ∃ c ∈ machine.classes, c.id = record.classId ∧ ∀ field ∈ c.fields, field.isStatic = true →
      ∃ v, record.statics[field.slot]? = some v ∧ v.type = field.stackType ∧ v ≠ .unset

/-- The preparation of a class has left a field unset. -/
def CutShort (machine : Machine) : Prop :=
  ∃ thread ∈ machine.thread :: machine.parked, ∃ record ∈ thread.records,
    record.state = .prepared ∧ ∃ c ∈ machine.classes, c.id = record.classId ∧
      ∃ field ∈ c.fields, field.isStatic = true ∧ record.statics[field.slot]? = some .unset

theorem Typed.set {record : ClassRecord} (typed : machine.Typed record)
    (sourced : machine.Sourced) :
    ∃ c ∈ machine.classes, c.id = record.classId ∧ ∀ field ∈ c.fields, field.isStatic = true →
      ∃ v, record.statics[field.slot]? = some v ∧ v.type = field.stackType ∧ v ≠ .unset := by
  obtain ⟨c, known, id, fields⟩ := typed
  refine ⟨c, known, id, fun field member static => ?_⟩
  obtain ⟨v, held, type⟩ := fields field member static
  refine ⟨v, held, type, fun unset => ?_⟩
  have held := (sourced c known).isHeld member
  rw [← type, unset] at held
  cases held

theorem Usable.staticsTyped (usable : machine.Usable) : machine.StaticsTyped := by
  intro thread member record listed further
  rcases List.mem_cons.mp member with rfl | parked
  · refine ((usable.mine record listed).resolve_right fun partly => ?_).set usable.sourced
    rcases further with running | ready
    · exact absurd (running.symm.trans partly.1) (by simp)
    · exact absurd (ready.symm.trans partly.1) (by simp)
  · exact (usable.parked thread parked record listed).set usable.sourced

theorem Usable.filled (usable : machine.Usable) (whole : ¬ machine.CutShort) : machine.Filled := by
  refine RecordsHold.step usable (Grows.refl machine) fun record listed => ?_
  refine (usable.mine record listed).elim (fun typed => typed) fun ⟨prepared, c, known, id, fields⟩ =>
    ⟨c, known, id, fun field member static => ?_⟩
  exact (fields field member static).resolve_right fun unset =>
    whole ⟨machine.thread, List.mem_cons_self, record, listed, prepared, c, known, id, field,
      member, static, unset⟩

/-! ## What a call keeps -/

theorem recorded_filled : Recorded Filled Usable where
  weaken _ filled := filled.usable
  calm _ _ calm filled := filled.still calm.toStill
  ready c machine _ filled := (Initialization.ends_initializeChain_filled c.chain filled).mono
    (fun _ _ ended => ended.1) fun _ _ cut => cut.usable
  native native arguments machine filled := (Native.ends_run_filled filled native arguments).mono
    (fun _ _ ended => ended.1) fun _ _ cut => cut.usable
  write machine field v frame later filled declared static popped := by
    obtain ⟨known, written, listed, slot, descriptor, static'⟩ := declared
    rw [← slot]
    have type : written.stackType = field.type.stackType := by
      unfold Field.stackType LinkedField.type
      rw [descriptor]
    have held := (filled.sourced _ known).isHeld listed
    rw [type] at held
    refine filled.putStatic known listed (static'.trans static) ?_
    rw [type, ← (FrameM.pop_eq_ok (BasicType.size_of_isHeld held) popped).1]
    unfold Exec.narrowedTo
    split <;> rfl
  leave machine top frame below filled _ _ := by
    have pops : ∀ machine : Machine, machine.Filled → machine.popFrame.Filled :=
      fun machine filled => filled.still (still_popFrame machine)
    unfold Exec.leave
    split
    · rename_i id initializing
      exact ends_bind_modify (pops _ (filled.setInitState id .ready))
    · exact pops machine filled

theorem records_dropFrames {P : ClassRecord → Prop} (failing : ∀ record, P record →
      record.state = .running → P { record with state := .failed }) (count : Nat) (thread : Thread)
    (holds : ∀ record ∈ thread.records, P record) :
    ∀ record ∈ (thread.dropFrames count).records, P record := by
  have drops : ∀ thread : Thread, (∀ record ∈ thread.records, P record) →
      ∀ record ∈ thread.dropFrame.records, P record := by
    intro thread holds record listed
    unfold Thread.dropFrame at listed
    split at listed
    · exact holds record listed
    · rename_i frame rest frames
      have listed : record ∈ (thread.abandon frame.initializing).records := listed
      unfold Thread.abandon at listed
      split at listed
      · exact holds record listed
      · rcases mem_updateRecord listed with ⟨member, -⟩ | ⟨old, member, -, rfl⟩
        · exact holds record member
        · split
          · exact failing old (holds old member) ‹_›
          · exact holds old member
  induction count generalizing thread with
  | zero => exact holds
  | succ count ih => exact ih thread.dropFrame (drops thread holds)

/-- An action on the current thread that does not touch the dictionary. -/
theorem RecordsHold.onThread {Mine Mine' : ClassRecord → Prop} (hold : machine.RecordsHold Mine)
    {change : Thread → Thread} (mine : ∀ record ∈ (change machine.thread).records, Mine' record) :
    (machine.updateThread change).RecordsHold Mine' :=
  ⟨dictionary_identified.threads _ _ _ hold.identified, hold.sourced, hold.builtins, mine, hold.parked⟩

theorem kept_filled : Call.Kept Filled Usable where
  weaken := recorded_filled.weaken
  state machine state filled := RecordsHold.onThread filled filled.mine
  ready := recorded_filled.ready
  step := recorded_filled.step
  native := recorded_filled.native
  enter frame _ plain machine _ :=
    recorded_filled.quiet (fun _ => keeps_pushFrame_calm plain) machine
  unwind machine depth state usable := by
    refine RecordsHold.onThread usable
      (records_dropFrames (fun record known running => ?_) _ machine.thread usable.mine)
    refine .inl (known.elim (fun typed => typed) fun partly => ?_)
    exact absurd (running.symm.trans partly.1) (by simp)

/-! ## Sessions -/

theorem filled_start {options : Options} {files : Files}
    (started : Machine.start options files = .ok machine) : machine.Filled := by
  have sourced := sourced_start started
  have identified := identified_start started
  have builtins := dictionary_hasBuiltins.start started
  obtain ⟨heap, rfl⟩ := exists_start started
  have steady := steady_withBuiltins (blank options files heap)
  refine ⟨identified, sourced, builtins, fun record listed => ?_, fun thread member => ?_⟩
  · rw [steady.records] at listed
    cases listed
  · have parked : (blank options files heap).withBuiltins.parked.map Thread.heapless = [] :=
      steady.parked
    rw [List.map_eq_nil_iff.mp parked] at member
    cases member

/-- Another thread becomes current, and the one that was is parked. -/
theorem Filled.withThread (filled : machine.Filled) {thread : Thread} {parked : List Thread}
    (mine : ∀ record ∈ thread.records, machine.Typed record)
    (others : ∀ other ∈ parked, other = machine.thread ∨ other ∈ machine.parked) :
    { machine with thread := thread, parked := parked }.Filled := by
  refine ⟨dictionary_identified.threads _ _ _ filled.identified, filled.sourced, filled.builtins,
    mine, fun other member record listed => ?_⟩
  rcases others other member with rfl | kept
  · exact filled.mine record listed
  · exact filled.parked other kept record listed

theorem Filled.follows (filled : machine.Filled) (follows : machine.Follows later) :
    later.Usable := by
  cases follows with
  | call declared fuel arguments => exact kept_filled.left (kept_filled.run fuel _ _) filled
  | resolve name =>
      have steady := (Loading.keeps_resolve name).after (Steady.refl machine)
      exact (filled.still steady.still).usable
  | @define source bytes c read =>
      have steady := (Loading.keeps_define (.inl ⟨source, bytes, read⟩)).after (Steady.refl machine)
      exact (filled.still steady.still).usable
  | createThread name size =>
      rcases createThread_cases machine name size with same | ⟨-, heap, -, same⟩
      · rw [same]
        exact filled.usable
      · rw [same]
        refine (filled.withThread (fun record none => by cases none) fun other member => ?_).usable
        exact List.mem_cons.mp member
  | switchTo number =>
      rcases switchTo_cases machine number with same | ⟨thread, member, -, same⟩
      · rw [same]
        exact filled.usable
      · rw [same]
        refine (filled.withThread (filled.parked thread member) fun other listed => ?_).usable
        exact (List.mem_cons.mp listed).imp_right fun kept => (List.mem_filter.mp kept).1

/-- A session that never goes on from a preparation that was cut short. -/
theorem Session.usable (session : Session (fun machine => ¬ machine.CutShort) machine) :
    machine.Usable := by
  induction session with
  | start started => exact (filled_start started).usable
  | next session whole follows ih => exact (ih.filled whole).follows follows

theorem Reached.usable (reached : Reached (fun machine => ¬ machine.CutShort) machine) :
    machine.Usable := by
  cases reached with
  | between session => exact session.usable
  | inside session whole declared passes =>
      exact kept_filled.passes passes (session.usable.filled whole)

/-! ## Reading a static field -/

/-- What is read from a static field, once its class is ready, can be pushed. -/
theorem Filled.reads (filled : machine.Filled) {field : LinkedField}
    (declared : Linking.Declared machine field) (static : field.isStatic = true)
    (ready : Initialization.ensureReady field.owner machine = .ok true later) :
    ∃ v, Statics.read field.owner.id field.slot later = .ok v later ∧
      v.type = field.type.stackType ∧
      ∀ stack : OperandStack, stack.push v ≠ .error (.violation .untypedPush) := by
  obtain ⟨filled', -, recorded⟩ :=
    (Initialization.ends_initializeChain_filled field.owner.chain filled).of_ok ready
  have aside : machine.Aside later :=
    (Initialization.ends_ensureReady field.owner (Aside.refl machine)).of_ok ready
  obtain ⟨known, written, listed, slot, descriptor, static'⟩ := declared
  have known' := aside.mem known
  obtain ⟨record, found⟩ := Option.ne_none_iff_exists'.mp (recorded field.owner.id rfl)
  have member : record ∈ later.thread.records := List.mem_of_find?_eq_some found
  have id : record.classId = field.owner.id := by simpa using List.find?_some found
  obtain ⟨c, knownClass, sameId, fields⟩ := filled'.mine record member
  obtain rfl := filled'.identified.eq_of_id knownClass known' (sameId.trans id)
  obtain ⟨v, held, type⟩ := fields written listed (static'.trans static)
  have type' : v.type = field.type.stackType := by
    rw [type]
    unfold Field.stackType LinkedField.type
    rw [descriptor]
  have isHeld := (filled'.sourced _ known').isHeld listed
  refine ⟨v, read_of_record? found (slot ▸ held), type', fun stack aborts => ?_⟩
  · have typed : v ≠ .unset ∧ v ≠ .void := by
      rw [← type] at isHeld
      refine ⟨fun unset => ?_, fun void => ?_⟩
      · rw [unset] at isHeld
        cases isHeld
      · rw [void] at isHeld
        cases isHeld
    obtain ⟨cause, refused, -⟩ := OperandStack.refused_push typed aborts
    cases refused

/-! ## The condition -/

/-- The machines of a session in which nothing has been cut short: those between two calls, and
those from which a call executes an instruction. -/
inductive Whole : Machine → Prop
  | between {machine : Machine} (session : Session (fun machine => ¬ machine.CutShort) machine)
      (whole : ¬ machine.CutShort) : Whole machine
  | inside {first machine : Machine} {method : Method} {arguments : List Value}
      (session : Session (fun machine => ¬ machine.CutShort) first) (whole : ¬ first.CutShort)
      (declared : first.Declares method) (steps : Call.Steps method arguments first machine) :
      Whole machine

theorem Whole.filled (whole : machine.Whole) : machine.Filled := by
  cases whole with
  | between session whole => exact session.usable.filled whole
  | inside session whole declared steps =>
      exact kept_filled.steps steps (session.usable.filled whole)

/-- A class with an unset field that is taken for ready is not typed, and the field reads as unset. -/
theorem untyped_of_readyWithout (identified : machine.Identified) {c : LinkedClass}
    (known : c ∈ machine.classes) {field : Field} (listed : field ∈ c.fields)
    (static : field.isStatic = true)
    (without : Initialization.ReadyWithout c.id field.slot machine) :
    ¬ machine.StaticsTyped ∧ Statics.read c.id field.slot machine = .ok .unset machine := by
  obtain ⟨record, found, ready, empty⟩ := without
  refine ⟨fun typed => ?_, ?_⟩
  · have member : record ∈ machine.thread.records := List.mem_of_find?_eq_some found
    have id : record.classId = c.id := by simpa using List.find?_some found
    obtain ⟨d, knownClass, sameId, fields⟩ :=
      typed machine.thread List.mem_cons_self record member (.inr ready)
    obtain rfl := identified.eq_of_id knownClass known (sameId.trans id)
    obtain ⟨v, held, -, set⟩ := fields field listed static
    exact set (Option.some.inj (held.symm.trans empty))
  · exact read_of_record? found empty

/-- A built-in class is known by its id. -/
theorem HasBuiltins.foreign (has : machine.HasBuiltins) (identified : machine.Identified)
    {c : LinkedClass} (known : c ∈ machine.classes) (other : c ∉ builtinClasses) :
    ∀ d ∈ builtinClasses, d.id ≠ c.id := by
  intro d listed same
  have known' : d ∈ machine.classes := List.mem_of_find?_eq_some (has d listed)
  exact other (identified.eq_of_id known' known same ▸ listed)

/-- As long as a session does not go on after a preparation has been cut short, the static fields of
all classes in use are typed, and reading one gives a value of its type that can be pushed. Only a
heap without room for a string constant cuts a preparation short. If the class is then used again
and becomes ready, its fields are unset, and reading one aborts. -/
theorem statics_typed_unless_cutShort (machine : Machine) :
    (Reached (fun passed => ¬ passed.CutShort) machine → machine.StaticsTyped) ∧
    (∀ (later : Machine) (field : LinkedField), machine.Whole →
      Linking.Declared machine field → field.isStatic = true →
      Initialization.ensureReady field.owner machine = .ok true later →
      ∃ v, Statics.read field.owner.id field.slot later = .ok v later ∧
        v.type = field.type.stackType ∧
        ∀ stack : OperandStack, stack.push v ≠ .error (.violation .untypedPush)) ∧
    (∀ (later : Machine) (c : LinkedClass) (halt : Halt), machine.Whole →
      c ∈ machine.classes → Statics.prepare c machine = .error halt later →
      later.LacksRoom halt) ∧
    ∀ (later : Machine) (c : LinkedClass) (field : Field) (record : ClassRecord),
      Reached (fun _ => True) machine → c ∈ machine.classes → c ∉ builtinClasses →
      field ∈ c.fields → field.isStatic = true →
      machine.thread.record? c.id = some record → record.state = .prepared →
      record.statics[field.slot]? = some .unset →
      Initialization.ensureReady c machine = .ok true later →
      ¬ later.StaticsTyped ∧ Statics.read c.id field.slot later = .ok .unset later ∧
        ∀ stack : OperandStack, stack.push .unset = .error (.violation .untypedPush) := by
  refine ⟨fun reached => reached.usable.staticsTyped,
    fun later field whole declared static ready => whole.filled.reads declared static ready,
    fun later c halt whole known ran =>
      ((Statics.ends_prepare whole.filled known).of_error ran).2, ?_⟩
  intro later c field record reached known other listed static found prepared empty ready
  have identified := dictionary_identified.reached reached
  have builtins := dictionary_hasBuiltins.reached reached
  have foreign := builtins.foreign identified known other
  have lacking : Lacking c.id field.slot machine := ⟨builtins, record, found, empty⟩
  have without := (Initialization.ends_ensureReady_lacking foreign (identified.classOf? known)
    found prepared lacking).of_ok ready rfl
  have aside : machine.Aside later :=
    (Initialization.ends_ensureReady c (Aside.refl machine)).of_ok ready
  obtain ⟨untyped, reads⟩ := untyped_of_readyWithout (aside.toGrows.identified identified)
    (aside.mem known) listed static without
  exact ⟨untyped, reads, fun stack => rfl⟩

/-! ## A class that is cut short -/

/-- The file of a class with a static field `greeting`, whose first value is the string `hello`, a
static field `count` after it, and a static method `getCount` that returns `count`. -/
def greeterFile : List UInt8 :=
  [202, 254, 186, 190, 0, 0, 0, 52, 0, 17, 1, 0, 7, 71, 114, 101, 101, 116, 101, 114, 7, 0, 1, 1, 0,
    16, 106, 97, 118, 97, 47, 108, 97, 110, 103, 47, 79, 98, 106, 101, 99, 116, 7, 0, 3, 1, 0, 4,
    67, 111, 100, 101, 1, 0, 13, 67, 111, 110, 115, 116, 97, 110, 116, 86, 97, 108, 117, 101, 1, 0,
    8, 103, 114, 101, 101, 116, 105, 110, 103, 1, 0, 18, 76, 106, 97, 118, 97, 47, 108, 97, 110,
    103, 47, 83, 116, 114, 105, 110, 103, 59, 1, 0, 5, 104, 101, 108, 108, 111, 8, 0, 9, 1, 0, 5,
    99, 111, 117, 110, 116, 1, 0, 1, 73, 12, 0, 11, 0, 12, 9, 0, 2, 0, 13, 1, 0, 8, 103, 101, 116,
    67, 111, 117, 110, 116, 1, 0, 3, 40, 41, 73, 0, 33, 0, 2, 0, 4, 0, 0, 0, 2, 0, 24, 0, 7, 0, 8,
    0, 1, 0, 6, 0, 0, 0, 2, 0, 10, 0, 8, 0, 11, 0, 12, 0, 0, 0, 1, 0, 9, 0, 15, 0, 16, 0, 1, 0, 5,
    0, 0, 0, 16, 0, 1, 0, 0, 0, 0, 0, 4, 178, 0, 14, 172, 0, 0, 0, 0, 0, 0]

/-- The built-in classes, and a heap of the given size. -/
def sized (size : UInt64) : Machine :=
  (blank { Options.standard with heapSize := size } .empty
    (.empty (Heap.capacityFor size))).withBuiltins

/-- The built-in classes and the class of the file, and a heap of the given size. -/
def greeting (size : UInt64) : Machine := (sized size).withFile "Greeter" greeterFile

theorem session_greeting {Allowed : Machine → Prop} {size : UInt64}
    (reserved : Heap.reserve size = .ok (.empty (Heap.capacityFor size)))
    (allowed : Allowed (sized size)) : Session Allowed (greeting size) := by
  have started : Machine.start { Options.standard with heapSize := size } .empty =
      .ok (sized size) := start_eq_ok reserved
  exact (Session.start started).withFile allowed "Greeter" greeterFile

/-- A thread without records has left nothing unset. -/
theorem whole_of_records (fresh : machine.thread.records = [] ∧ machine.parked = []) :
    ¬ machine.CutShort := by
  rintro ⟨thread, member, record, listed, -⟩
  rw [fresh.2] at member
  rw [List.mem_singleton.mp member, fresh.1] at listed
  cases listed

/-- The method of the class is called, when there is no room for the string. -/
def cut : Machine := (greeting 16).calling "getCount" 16 []

theorem statics_typed_unless_cutShort_greeting :
    cut.StaticsTyped ∧
    (∃ (field : LinkedField) (later : Machine) (v : Value), field.name = "greeting" ∧
      Statics.read field.owner.id field.slot later = .ok v later ∧
      v.type = field.type.stackType ∧
      ∀ stack : OperandStack, stack.push v ≠ .error (.violation .untypedPush)) ∧
    (∃ (c : LinkedClass) (halt : Halt) (later : Machine),
      Statics.prepare c (greeting 16) = .error halt later ∧ later.LacksRoom halt) ∧
    ∃ (c : LinkedClass) (field : Field) (later : Machine), field.name = "count" ∧
      Initialization.ensureReady c cut = .ok true later ∧ ¬ later.StaticsTyped ∧
      Statics.read c.id field.slot later = .ok .unset later ∧
      ∀ stack : OperandStack, stack.push .unset = .error (.violation .untypedPush) := by
  have session : Session (fun machine => ¬ machine.CutShort) (greeting 16) :=
    session_greeting rfl (whole_of_records (by decide +kernel))
  have whole : ¬ (greeting 16).CutShort := whole_of_records (by decide +kernel)
  have roomy : (greeting 8388608).Whole :=
    .between (session_greeting rfl (whole_of_records (by decide +kernel)))
      (whole_of_records (by decide +kernel))
  refine ⟨(statics_typed_unless_cutShort cut).1 (.between (session.calling whole _ _ _)), ?_, ?_, ?_⟩
  · obtain ⟨c, known, written, listed, static, name, ready⟩ :
        ∃ c ∈ (greeting 8388608).classes, ∃ field ∈ c.fields, field.isStatic = true ∧
          field.name = "greeting" ∧ (greeting 8388608).readies? c = some true := by decide +kernel
    obtain ⟨later, ran⟩ := readies?_eq_some ready
    let field : LinkedField := ⟨c, written.name, written.descriptor, written.slot, true⟩
    have declared : Linking.Declared (greeting 8388608) field :=
      ⟨known, written, listed, rfl, rfl, static⟩
    obtain ⟨v, reads⟩ := (statics_typed_unless_cutShort _).2.1 later field roomy declared rfl ran
    exact ⟨field, later, v, name, reads⟩
  · obtain ⟨c, known, halts⟩ : ∃ c ∈ (greeting 16).classes,
        (match Statics.prepare c (greeting 16) with
          | .ok _ _ => false
          | .error _ _ => true) = true := by decide +kernel
    split at halts
    · cases halts
    · rename_i halt later ran
      exact ⟨c, halt, later, ran, (statics_typed_unless_cutShort _).2.2.1 later c halt
        (.between session whole) known ran⟩
  · obtain ⟨c, known, other, field, listed, static, name, record, -, found, prepared, empty, ready⟩ :
        ∃ c ∈ cut.classes, c ∉ builtinClasses ∧ ∃ field ∈ c.fields, field.isStatic = true ∧
          field.name = "count" ∧ ∃ record ∈ cut.thread.records,
          cut.thread.record? c.id = some record ∧ record.state = .prepared ∧
          record.statics[field.slot]? = some .unset ∧ cut.readies? c = some true := by decide +kernel
    obtain ⟨later, ran⟩ := readies?_eq_some ready
    have reached : Reached (fun _ => True) cut :=
      .between ((session_greeting rfl trivial).calling trivial _ _ _)
    exact ⟨c, field, later, name, ran, (statics_typed_unless_cutShort cut).2.2.2 later c field record
      reached known other listed static found prepared empty ran⟩

end Machine

end Jvm
