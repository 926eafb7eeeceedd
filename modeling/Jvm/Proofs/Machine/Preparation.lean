/-
# Jvm.Proofs.Machine.Preparation — how static fields get their first values

Preparing a class enters a record with unset fields and then fills the fields in order
(`Filling`, an invariant on the fields that are done). When all are done the record is typed; when
filling halts, the record is the one exception (`ends_prepare`). Natives and initializers prepare
classes in their turn, and what they mark as failed had a record before, so it is never the
exception (`ends_initializeChain_filled`).
-/
import Jvm.Proofs.Machine.StaticFields

namespace Jvm

set_option autoImplicit false

open Exec Machine

/-! ## First values -/

/-- The type of the value that a constant stands for. -/
def Pool.Loadable.type : Pool.Loadable → BasicType
  | .value v => v.type
  | .string _ => .object

open ClassFile.Reader in
/-- A constant that fits a field can be loaded, and stands for a value of the type of the field. -/
theorem Pool.Checked.loadable {pool : Pool} (checked : pool.Checked) {index : Nat}
    (within : pool.isWithin index = true) {descriptor : String}
    (held : (Descriptor.fieldType descriptor).stackType.isHeld = true)
    (fits : initialValueFits (pool.tagAt index) descriptor = true) :
    ∃ constant, pool.loadable index ((Descriptor.fieldType descriptor).stackType.size == 2) =
      .ok constant ∧ constant.type = (Descriptor.fieldType descriptor).stackType := by
  cases here : pool.entryAt index with
  | none =>
      unfold initialValueFits Pool.tagAt at fits
      rw [here] at fits
      split at fits <;> simp at fits
  | some entry =>
      have visited : pool.visit [] index = .ok entry := by
        unfold Pool.visit Pool.reach
        rw [if_neg (by simp [within]), Int.toNat_natCast, here]
        rfl
      unfold Pool.loadable
      rw [visited]
      unfold initialValueFits Pool.tagAt at fits
      rw [here] at fits
      generalize Descriptor.fieldType descriptor = type at fits held ⊢
      -- an entry of another kind does not fit the field
      cases entry with
      | integer v => cases type <;> first | exact ⟨_, rfl, rfl⟩ | (cases fits; done) | cases held
      | float bits => cases type <;> first | exact ⟨_, rfl, rfl⟩ | cases fits
      | long v => cases type <;> first | exact ⟨_, rfl, rfl⟩ | cases fits
      | double bits => cases type <;> first | exact ⟨_, rfl, rfl⟩ | cases fits
      | string text =>
          obtain ⟨content, found⟩ := checked.string here
          cases type with
          | object =>
              exact ⟨.string content, by simp [BasicType.stackType, BasicType.size, found], rfl⟩
          | _ => cases fits
      | member kind parts => cases kind <;> cases type <;> cases fits
      | _ => cases type <;> cases fits

/-- The heap has no room for another string, and this is the halt that says so. -/
def Machine.LacksRoom (machine : Machine) (halt : Halt) : Prop :=
  ∃ c, machine.findClass? stringClass = some c ∧ machine.thread.heap.hasRoom c = false ∧
    halt = (machine.thread.heap.exhausted c).halt

/-- A string is allocated for a text, and the text is entered into the table of the current thread.
-/
def Machine.withString (machine : Machine) (c : LinkedClass) (text : String) : Machine :=
  machine.updateThread fun thread => { thread with
    heap := (thread.heap.add c).putField thread.nextRef.index c.firstHiddenSlot (.text (some text))
    strings := thread.strings.insert text thread.nextRef }

theorem Machine.updateHeap_own (machine : Machine) (change : Heap → Heap) :
    machine.updateHeap machine.thread.number change =
      machine.updateThread fun thread => { thread with heap := change thread.heap } :=
  if_pos rfl

namespace Exec

variable {machine : Machine}

theorem ends_builtin (name : String) :
    (builtin name).Ends machine
      (fun c later => later = machine ∧ machine.findClass? name = some c)
      fun _ later => later = machine ∧ machine.findClass? name = none := by
  refine ends_bind_get ?_
  split
  · rename_i c found
    exact ends_pure ⟨rfl, found⟩
  · rename_i absent
    exact ends_throw ⟨rfl, absent⟩

/-- Interning answers with what the table has for the text. If it has nothing, then a string is made
and entered if there is room for one, and nothing is changed if there is none. -/
theorem ends_intern (has : machine.HasBuiltins) (text : String) :
    (intern text).Ends machine
      (fun ref later =>
        (machine.thread.interned? text = some ref ∧ later = machine) ∨
        (machine.thread.interned? text = none ∧ ref = machine.thread.nextRef ∧
          ∃ c, machine.findClass? stringClass = some c ∧ later = machine.withString c text))
      fun halt later => later = machine ∧ machine.thread.interned? text = none ∧
        machine.LacksRoom halt := by
  refine ends_bind_thread ?_
  cases known : machine.thread.interned? text with
  | some ref => exact ends_pure (.inl ⟨rfl, rfl⟩)
  | none =>
      obtain ⟨c, -, found, -⟩ := has.exists_string
      have ran : builtin stringClass machine = .ok c machine := by
        unfold builtin
        rw [bind_get, found]
        rfl
      refine ends_bind_run ran ((ends_allocate c machine).before (fun ref made ended => ?_)
        fun halt later ended => ?_)
      · obtain ⟨rfl, rfl⟩ := ended
        have wrote : putField machine.thread.nextRef c.firstHiddenSlot (.text (some text))
            (machine.updateThread fun thread => thread.addObject c) = .ok () _ :=
          congrArg (EStateM.Result.ok ()) (updateHeap_own _ _)
        exact ends_bind_run wrote (ends_bind_modify (ends_pure (.inr ⟨rfl, rfl, c, found, rfl⟩)))
      · obtain ⟨rfl, full, rfl⟩ := ended
        exact ⟨rfl, rfl, c, found, full, rfl⟩

theorem ends_loadedValue (has : machine.HasBuiltins) (constant : Pool.Loadable) :
    (loadedValue constant).Ends machine
      (fun v later => machine.Steady later ∧ v.type = constant.type)
      fun halt later => later = machine ∧ machine.LacksRoom halt := by
  cases constant with
  | value v => exact ends_pure ⟨Steady.refl machine, rfl⟩
  | string text =>
      have interns := keeps_intern text machine (Steady.refl machine)
      exact ((ends_intern has text).and interns).before
        (fun _ _ ended => ends_pure ⟨ended.2, rfl⟩) fun _ _ ended => ⟨ended.1.1, ended.1.2.2⟩

end Exec

namespace Statics

variable {before machine : Machine} {c : LinkedClass}

/-- The constant of a field stands for a value of the type of the field. -/
theorem loadable_first (sourced : c.Sourced) {field : Field} (listed : field ∈ c.fields)
    (constant : field.constantIndex ≠ 0) :
    ∃ loaded, c.pool.loadable field.constantIndex (field.stackType.size == 2) = .ok loaded ∧
      loaded.type = field.stackType := by
  obtain ⟨plain, declared, moved⟩ := sourced.field listed
  rw [moved] at constant
  obtain ⟨-, within, fits⟩ := declared.constant.resolve_left constant
  rw [moved]
  exact sourced.pool.loadable within (Descriptor.isHeld_of_isValidField declared.descriptor) fits

/-- A first value has the type of its field. Only a string can fail to be made. -/
theorem ends_firstValue (has : machine.HasBuiltins) (sourced : c.Sourced) {field : Field}
    (listed : field ∈ c.fields) :
    (firstValue c field).Ends machine
      (fun v later => machine.Steady later ∧ v.type = field.stackType)
      fun halt later => later = machine ∧ machine.LacksRoom halt := by
  have held := sourced.isHeld listed
  have same : field.stackType.stackType = field.stackType := BasicType.stackType_stackType _
  unfold firstValue
  dsimp only
  split
  · refine ends_pure ⟨Steady.refl machine, ?_⟩
    rw [Value.type_zero (by rwa [same]), same]
  · rename_i constant
    obtain ⟨loaded, loads, type⟩ := loadable_first sourced listed constant
    refine ends_bind_ofFault (fun found again => ?_) fun _ failed => by
      rw [loads] at failed
      cases failed
    obtain rfl := Except.ok.inj (loads.symm.trans again)
    refine (ends_loadedValue has loaded).bind fun v later ended => ?_
    have agrees : v.type = field.stackType := ended.2.trans type
    exact ends_guard (fun wrong => absurd (by rw [agrees, same]) wrong)
      fun _ => ends_pure ⟨ended.1, agrees⟩

/-! ## Filling -/

/-- In the record that is being filled, the fields that are done hold values of their types, and the
others may be unset. -/
def Filling (c : LinkedClass) (done : List Field) (machine : Machine) : Prop :=
  machine.RecordsHold fun record => machine.Typed record ∨
    record.classId = c.id ∧ record.state = .prepared ∧
      ∀ field ∈ c.fields, field.isStatic = true →
        field.IsSet record.statics ∨ field ∉ done ∧ field.IsUnset record.statics

variable {done : List Field}

theorem Filling.still {later : Machine} (filling : Filling c done machine)
    (still : machine.Still later) : Filling c done later :=
  RecordsHold.step filling still.toGrows fun record listed =>
    (filling.mine record (still.records ▸ listed)).imp_left fun typed => typed.grows still.toGrows

/-- The next field is filled. -/
theorem Filling.write (filling : Filling c done machine) (known : c ∈ machine.classes)
    {written : Field} (listed : written ∈ c.fields) (static : written.isStatic = true) {v : Value}
    (tag : v.type = written.stackType) :
    Filling c (done ++ [written])
      (machine.updateThread fun thread => thread.putStatic c.id written.slot v) := by
  have grows : machine.Grows
      (machine.updateThread fun thread => thread.putStatic c.id written.slot v) :=
    (Grows.refl machine).step rfl rfl rfl rfl rfl rfl
  have sourced := filling.sourced c known
  refine RecordsHold.step filling grows fun record listed' => ?_
  rcases mem_updateRecord listed' with ⟨member, other⟩ | ⟨old, member, id, rfl⟩
  · exact (filling.mine record member).elim (fun typed => .inl (typed.grows grows))
      fun same => absurd same.1 other
  · rcases filling.mine old member with typed | ⟨-, prepared, fields⟩
    · have typed' := typed.write filling.identified filling.sourced known id listed static tag
      exact .inl (Typed.grows typed' grows)
    · refine .inr ⟨id, prepared, fun field member' static' => ?_⟩
      rcases fields field member' static' with set | ⟨waits, unset⟩
      · exact .inl (set.write sourced member' static' listed static tag)
      · by_cases same : written.slot = field.slot
        · obtain rfl := sourced.eq_of_slot listed static member' static' same
          have within := (Array.getElem?_eq_some_iff.mp unset).1
          exact .inl ⟨v, Array.getElem?_setIfInBounds_self_of_lt within, tag⟩
        · refine .inr ⟨fun chosen => ?_, (Array.getElem?_setIfInBounds_ne same).trans unset⟩
          rcases List.mem_append.mp chosen with earlier | last
          · exact waits earlier
          · exact same (congrArg Field.slot (List.mem_singleton.mp last)).symm

theorem Filling.skip (filling : Filling c done machine) {skipped : Field}
    (dynamic : ¬ skipped.isStatic = true) : Filling c (done ++ [skipped]) machine := by
  refine RecordsHold.step filling (Grows.refl machine) fun record listed => ?_
  refine (filling.mine record listed).imp_right fun ⟨id, prepared, fields⟩ =>
    ⟨id, prepared, fun field member static => ?_⟩
  refine (fields field member static).imp_right fun ⟨waits, unset⟩ => ⟨fun chosen => ?_, unset⟩
  rcases List.mem_append.mp chosen with earlier | last
  · exact waits earlier
  · rw [List.mem_singleton.mp last] at static
    exact dynamic static

/-- Wherever filling is, the record is typed but for unset fields. -/
theorem Filling.cutSince (filling : Filling c done machine) (known : c ∈ machine.classes)
    (absent : before.thread.record? c.id = none) : CutSince before machine :=
  RecordsHold.step filling (Grows.refl machine) fun record listed =>
    (filling.mine record listed).imp_right fun ⟨id, prepared, fields⟩ =>
      ⟨⟨prepared, c, known, id.symm, fun field member static =>
        (fields field member static).imp_right And.right⟩, id ▸ absent⟩

/-- When all fields are done, the record is typed. -/
theorem Filling.filled (filling : Filling c c.fields machine) (known : c ∈ machine.classes) :
    machine.Filled :=
  RecordsHold.step filling (Grows.refl machine) fun record listed =>
    (filling.mine record listed).elim (fun typed => typed) fun ⟨id, _, fields⟩ =>
      ⟨c, known, id.symm, fun field member static =>
        (fields field member static).resolve_right fun waiting => waiting.1 member⟩

theorem knows_putStatic (machine : Machine) (id : ClassId) (slot : Nat) (v : Value) :
    machine.Knows (machine.updateThread fun thread => thread.putStatic id slot v) :=
  fun other absent => Option.map_eq_none_iff.mp ((record?_updateRecord machine.thread id
    (fun record => { record with statics := record.statics.setIfInBounds slot v })
    (fun _ => rfl) other).symm.trans absent)

theorem ends_fill {rest : List Field} (filling : Filling c done machine)
    (known : c ∈ machine.classes) (fields : done ++ rest = c.fields)
    (absent : before.thread.record? c.id = none) :
    (fill c rest).Ends machine (fun _ later => later.Filled ∧ machine.Knows later)
      fun halt later => CutSince before later ∧ later.LacksRoom halt := by
  induction rest generalizing done machine with
  | nil =>
      rw [List.append_nil] at fields
      exact ends_pure ⟨Filling.filled (fields ▸ filling) known, Knows.refl machine⟩
  | cons field rest ih =>
      have fields' : (done ++ [field]) ++ rest = c.fields := by
        rw [← fields, List.append_assoc]
        rfl
      have listed : field ∈ c.fields := fields ▸ List.mem_append_right done List.mem_cons_self
      unfold fill
      dsimp only
      split
      · rename_i static
        refine (ends_firstValue filling.builtins (filling.sourced c known) listed).before
          (fun v later ended => ?_) fun _ _ ended => ?_
        · have known' := ended.1.mem known
          have written := (filling.still ended.1.still).write known' listed static ended.2
          have knows := ended.1.still.knows.trans (knows_putStatic later c.id field.slot v)
          refine ends_bind_modify ?_
          exact (ih written known' fields').mono
            (fun _ _ filled => ⟨filled.1, knows.trans filled.2⟩) fun _ _ cut => cut
        · rw [ended.1]
          exact ⟨filling.cutSince known absent, ended.2⟩
      · rename_i dynamic
        exact ih (filling.skip dynamic) known fields'

/-- Preparing a class leaves every record typed, or it halts because there is no room for a string,
and leaves a record that the class did not have before. -/
theorem ends_prepare (filled : machine.Filled) (known : c ∈ machine.classes) :
    (prepare c).Ends machine
      (fun _ later => later.Filled ∧ machine.Knows later ∧ later.thread.record? c.id ≠ none)
      fun halt later => CutSince machine later ∧ later.LacksRoom halt := by
  refine ends_bind_thread ?_
  split
  · rename_i record found
    exact ends_pure ⟨filled, Knows.refl machine, by rw [found]; simp⟩
  · rename_i absent
    refine ends_bind_modify ?_
    let entered : Machine := machine.updateThread fun thread =>
      { thread with records := ⟨c.id, .prepared, Array.replicate c.staticCount .unset⟩ :: thread.records }
    have grows : machine.Grows entered := (Grows.refl machine).step rfl rfl rfl rfl rfl rfl
    have knows : machine.Knows entered := fun id absent' => by
      unfold Thread.record? at absent' ⊢
      exact List.find?_eq_none.mpr fun record listed =>
        List.find?_eq_none.mp absent' record (List.mem_cons_of_mem _ listed)
    have recorded : entered.thread.record? c.id ≠ none := by
      unfold Thread.record?
      simp [entered, Machine.updateThread]
    have filling : Filling c [] entered := by
      refine RecordsHold.step filled grows fun record listed => ?_
      rcases List.mem_cons.mp listed with rfl | old
      · refine .inr ⟨rfl, rfl, fun field member static => .inr ⟨List.not_mem_nil, ?_⟩⟩
        have within := (filled.sourced c known).staticsWithin member static
        exact Array.getElem?_replicate.trans (if_pos within)
      · exact .inl ((filled.mine record old).grows grows)
    have fills : (fill c c.fields >>= fun _ => pure InitState.prepared : Exec InitState).Ends entered
        (fun _ later => later.Filled ∧ machine.Knows later ∧ later.thread.record? c.id ≠ none)
        fun halt later => CutSince machine later ∧ later.LacksRoom halt := by
      refine (ends_fill filling (grows.mem known) rfl absent).before (fun _ later ended => ends_pure ?_)
        fun _ _ cut => cut
      exact ⟨ended.1, knows.trans ended.2, fun absent => recorded (ended.2 c.id absent)⟩
    exact fills

end Statics

/-! ## Native methods -/

namespace Native

variable {machine : Machine}

/-- What the classes of every machine say about the field for the standard output. -/
theorem outField_of_builtin : ∀ c ∈ builtinClasses, c.name = Builtin.system.name →
    ∀ field ∈ c.field? Builtin.outField.name Builtin.outField.descriptor,
      field.isStatic = true ∧ field.stackType = .object := by
  decide +kernel

theorem ends_storeOutput (filled : machine.Filled) :
    storeOutput.Ends machine (fun _ later => later.Filled ∧ machine.Knows later)
      fun _ later => CutSince machine later := by
  have cut : CutSince machine machine := filled.cutSince
  refine (ends_builtin _).before (fun system _ ended => ?_) fun _ _ ended => by rw [ended.1]; exact cut
  obtain ⟨rfl, found⟩ := ended
  refine (ends_builtin _).before (fun stream _ ended => ?_) fun _ _ ended => by rw [ended.1]; exact cut
  obtain ⟨rfl, -⟩ := ended
  refine (keeps_allocate stream).before (Steady.refl _) (fun ref allocated steady => ?_)
    fun _ _ steady => (filled.still steady.still).cutSince
  have listed := List.mem_of_find?_eq_some found
  have name : system.name = Builtin.system.name := by simpa using List.find?_some found
  have knows := steady.still.knows
  refine (Statics.ends_prepare (filled.still steady.still) (steady.mem listed)).before
    (fun _ prepared ended => ?_) fun _ _ cut => cut.1.knows knows
  obtain ⟨filled', knows', -⟩ := ended
  have builtIn : system ∈ builtinClasses :=
    filled.builtins.mem (by decide +kernel) found
  split
  · rename_i field out
    obtain ⟨static, object⟩ := outField_of_builtin system builtIn name field out
    have declared := List.mem_of_find?_eq_some out
    have known : system ∈ prepared.classes :=
      List.mem_of_find?_eq_some (filled'.builtins system builtIn)
    exact ends_modify ⟨filled'.putStatic known declared static object.symm,
      (knows.trans knows').trans (Statics.knows_putStatic prepared system.id field.slot _)⟩
  · exact filled'.cutSince

/-- Whatever a native method leaves alone, the records are typed unless it halts. -/
theorem ends_run_filled (filled : machine.Filled) (native : Native) (arguments : List Value) :
    (native.run arguments).Ends machine (fun _ later => later.Filled ∧ machine.Knows later)
      fun _ later => CutSince machine later := by
  have here : machine.Filled ∧ machine.Knows machine := ⟨filled, Knows.refl machine⟩
  have steadily {α : Type} {action : Exec α} (answer : Option Value)
      (keeps : Keeps machine.Steady action) :
      (action >>= fun _ => pure answer).Ends machine
        (fun _ later => later.Filled ∧ machine.Knows later) fun _ later => CutSince machine later :=
    keeps.before (Steady.refl machine)
      (fun _ _ steady => ends_pure ⟨filled.still steady.still, steady.still.knows⟩)
      fun _ _ steady => (filled.still steady.still).cutSince
  cases native with
  | newline => exact steadily none (keeps_print _)
  | print kind endsLine =>
      refine (keeps_printedText kind (argument arguments 1)).before (Steady.refl machine)
        (fun text later steady => ?_) fun _ _ steady => (filled.still steady.still).cutSince
      refine (keeps_print _).before steady
        (fun _ _ steady => ends_pure ⟨filled.still steady.still, steady.still.knows⟩)
        fun _ _ steady => (filled.still steady.still).cutSince
  | openOutput =>
      exact (ends_storeOutput filled).before (fun _ _ ended => ends_pure ended) fun _ _ cut => cut
  | fail => exact ends_throw filled.cutSince
  | _ => exact ends_pure here

end Native

/-! ## Getting a class ready -/

namespace Initialization

variable {machine : Machine}

theorem ends_start_filled {c : LinkedClass} (filled : machine.Filled)
    (recorded : machine.thread.record? c.id ≠ none) :
    (start c).Ends machine (fun _ later => later.Filled ∧ machine.Knows later)
      fun _ later => CutSince machine later := by
  refine (keeps_trace _ _).before (Steady.refl machine) (fun _ traced steady => ?_)
    fun _ _ steady => (filled.still steady.still).cutSince
  have filled' := filled.still steady.still
  have knows := steady.still.knows
  split
  · exact ends_bind_modify (ends_pure ⟨filled'.setInitState c.id .ready,
      knows.trans (knows_setInitState traced c.id .ready)⟩)
  · rename_i method found
    refine ends_bind_modify ?_
    let running := traced.updateThread fun thread => thread.setInitState c.id .running
    have filledRunning : running.Filled := filled'.setInitState c.id .running
    have knowsRunning : machine.Knows running :=
      knows.trans (knows_setInitState traced c.id .running)
    have fails : ∀ later, CutSince running later →
        CutSince machine (later.updateThread fun thread => thread.setInitState c.id .failed) :=
      fun later cut => (cut.knows knowsRunning).setFailed recorded
    by_cases native : method.isNative = true
    · rw [if_pos native]
      have runs : (runNative c method.native).Ends running
          (fun _ later => later.Filled ∧ running.Knows later) fun _ later => CutSince running later := by
        unfold runNative
        split
        · exact ends_throw filledRunning.cutSince
        · exact (Native.ends_run_filled filledRunning _ []).before (fun _ _ ended => ends_pure ended)
            fun _ _ cut => cut
      refine (ends_onHalt (runs.mono (fun _ _ ended => ended) fun _ later cut => fails later cut)).bind
        fun _ later ended => ?_
      exact ends_bind_modify (ends_pure ⟨ended.1.setInitState c.id .ready,
        (knowsRunning.trans ended.2).trans (knows_setInitState later c.id .ready)⟩)
    · rw [if_neg native]
      refine (ends_onHalt (ends_pushFrame (fun _ => ?_) fun _ => ?_)).bind
        fun _ later ended => ends_pure ended
      · have still := still_pushFrame running { Frame.start method with initializing := some c.id }
        exact ⟨filledRunning.still still, knowsRunning.trans still.knows⟩
      · exact fails running filledRunning.cutSince

/-- The records stay typed while a chain of superclasses is prepared and started, unless a
preparation is cut short. -/
theorem ends_initializeChain_filled (chain : List ClassId) (filled : machine.Filled) :
    (initializeChain chain).Ends machine
      (fun _ later => later.Filled ∧ machine.Knows later ∧
        ∀ id ∈ chain.head?, later.thread.record? id ≠ none)
      fun _ later => CutSince machine later := by
  induction chain generalizing machine with
  | nil => exact ends_pure ⟨filled, Knows.refl machine, by simp⟩
  | cons id supers ih =>
      refine ends_bind_classOf (fun c found => ?_) fun _ => filled.cutSince
      obtain ⟨known, rfl⟩ := mem_of_classOf? found
      refine (Statics.ends_prepare filled known).before (fun state prepared ended => ?_)
        fun _ _ cut => cut.1
      obtain ⟨filled', knows, recorded⟩ := ended
      cases state with
      | ready => exact ends_pure ⟨filled', knows, by simpa using recorded⟩
      | running => exact ends_pure ⟨filled', knows, by simpa using recorded⟩
      | failed => exact ends_throw filled'.cutSince
      | prepared =>
          refine (ends_onHalt ((ih filled').mono (fun _ _ ended => ended)
            fun _ later cut => (cut.setFailed recorded).knows knows)).bind fun ready later ended => ?_
          obtain ⟨filledLater, knowsLater, -⟩ := ended
          have recorded' : later.thread.record? c.id ≠ none := fun absent =>
            recorded (knowsLater c.id absent)
          cases ready with
          | false => exact ends_pure ⟨filledLater, knows.trans knowsLater, by simpa using recorded'⟩
          | true =>
              refine (ends_start_filled filledLater recorded').mono (fun _ last started => ?_)
                fun _ _ cut => cut.knows (knows.trans knowsLater)
              refine ⟨started.1, (knows.trans knowsLater).trans started.2, ?_⟩
              simpa using fun absent => recorded' (started.2 c.id absent)

end Initialization

end Jvm
