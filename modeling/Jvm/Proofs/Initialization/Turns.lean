/-
# Jvm.Proofs.Initialization.Turns — what a thread does to the initialization of its classes

The ledger of a thread is read off its records and its call stack (`Thread.ledger`). Whatever
a machine does on its thread, the ledger takes turns (`before.Settles after`): preparing a class
takes one at most (`before.Prepares after`), and so does a native method, which may prepare the
class of the output stream; returning from an initializer takes one. Dropping frames abandons their
initializers (`Thread.course_unwindTo`).
-/
import Jvm.Proofs.Initialization.Ledger
import Jvm.Proofs.Machine.StaticFields

namespace Jvm

set_option autoImplicit false

open Exec Machine

/-! ## The ledger of a thread -/

namespace Thread

/-- How far the initialization of a class has come; a class that has no record has no state. -/
def state? (thread : Thread) (id : ClassId) : Option InitState :=
  (thread.record? id).map (·.state)

def ledger (thread : Thread) : Ledger := ⟨thread.state?, thread.initializers⟩

/-- There is at most one record of a class. -/
def Single (thread : Thread) : Prop := (thread.records.map (·.classId)).Nodup

theorem Single.of_ids {thread later : Thread} (single : thread.Single)
    (ids : later.records.map (·.classId) = thread.records.map (·.classId)) : later.Single := by
  unfold Single
  rwa [ids]

variable {thread : Thread} {id : ClassId}

theorem state?_updateRecord (thread : Thread) (id : ClassId) (change : ClassRecord → ClassRecord)
    (kept : ∀ record, (change record).classId = record.classId) (other : ClassId) :
    (thread.updateRecord id change).state? other =
      if other = id then (thread.record? id).map fun record => (change record).state
      else thread.state? other := by
  unfold state?
  rw [record?_updateRecord thread id change kept other, Option.map_map]
  cases found : thread.record? other with
  | none =>
      by_cases same : other = id
      · rw [if_pos same, ← same, found]
        rfl
      · rw [if_neg same]
        rfl
  | some record =>
      have own : record.classId = other := by simpa using List.find?_some found
      by_cases same : other = id
      · subst same
        simp [own, found]
      · simp [own, same]

theorem ids_updateRecord (thread : Thread) (id : ClassId) (change : ClassRecord → ClassRecord)
    (kept : ∀ record, (change record).classId = record.classId) :
    (thread.updateRecord id change).records.map (·.classId) =
      thread.records.map (·.classId) := by
  unfold updateRecord
  rw [List.map_map]
  refine List.map_congr_left fun record _ => ?_
  show (if _ then _ else _ : ClassRecord).classId = record.classId
  split
  · exact kept record
  · rfl

theorem ledger_setInitState (known : thread.state? id ≠ none) (state : InitState) :
    (thread.setInitState id state).ledger = thread.ledger.mark id state := by
  obtain ⟨record, found⟩ : ∃ record, thread.record? id = some record := by
    refine Option.ne_none_iff_exists'.mp fun absent => known ?_
    unfold state?
    rw [absent]
    rfl
  have states : (thread.setInitState id state).state? = (thread.ledger.mark id state).state := by
    funext other
    rw [Ledger.mark_state]
    unfold setInitState
    rw [state?_updateRecord thread id (fun record => { record with state := state })
      (fun _ => rfl) other, found]
    rfl
  unfold ledger
  rw [states]
  rfl

theorem state?_setInitState (known : thread.state? id ≠ none) (state : InitState)
    (other : ClassId) : (thread.setInitState id state).state? other =
      if other = id then some state else thread.state? other := by
  have marked := congrArg Ledger.state (ledger_setInitState known state)
  exact (congrFun marked other).trans (Ledger.mark_state _ id other state)

theorem inUse_of_state? {state : InitState} (recorded : thread.state? id = some state)
    (used : InitState.isInUse (some state) = true) : thread.ledger.InUse id := by
  show InitState.isInUse (thread.state? id) = true
  rwa [recorded]

theorem pending_of_state? (recorded : thread.state? id = some .prepared) :
    thread.ledger.Pending id := by
  show InitState.isPending (thread.state? id) = true
  rw [recorded]
  rfl

theorem state?_putStatic (thread : Thread) (id : ClassId) (slot : Nat) (v : Value) :
    (thread.putStatic id slot v).state? = thread.state? := by
  funext other
  unfold putStatic
  rw [state?_updateRecord thread id (fun record => { record with
    statics := record.statics.setIfInBounds slot v }) (fun _ => rfl) other]
  by_cases same : other = id
  · rw [if_pos same, same]
    rfl
  · rw [if_neg same]

end Thread

namespace Machine

variable {before machine after later : Machine}

/-! ## Turns of the current thread -/

/-- What every action leaves as it was; and what becomes of the classes of the thread is a sequence
of turns. -/
structure Settles (before after : Machine) : Prop extends before.Grows after where
  turns : Ledger.Turns after.classes before.thread.ledger after.thread.ledger
  single : before.thread.Single → after.thread.Single

theorem Settles.trans (one : before.Settles machine) (two : machine.Settles after) :
    before.Settles after :=
  ⟨one.toGrows.trans two.toGrows, (one.turns.mono fun _ => two.mem).trans two.turns,
    fun single => two.single (one.single single)⟩

/-- The call stack, and how far the classes have come, are as they were. -/
structure Silent (before after : Machine) : Prop extends before.Aside after where
  states : after.thread.state? = before.thread.state?
  ids : after.thread.records.map (·.classId) = before.thread.records.map (·.classId)

theorem Silent.refl (machine : Machine) : machine.Silent machine := ⟨Aside.refl machine, rfl, rfl⟩

theorem Silent.trans (one : before.Silent machine) (two : machine.Silent after) :
    before.Silent after :=
  ⟨one.toAside.trans two.toAside, two.states.trans one.states, two.ids.trans one.ids⟩

theorem Silent.ledger (silent : before.Silent after) :
    after.thread.ledger = before.thread.ledger := by
  unfold Thread.ledger
  rw [silent.states, silent.toAside.initializers]

theorem Still.states (still : before.Still after) :
    after.thread.state? = before.thread.state? := by
  funext id
  unfold Thread.state? Thread.record?
  rw [still.records]

theorem Steady.silent (steady : before.Steady after) : before.Silent after :=
  ⟨steady.toAside, steady.still.states, congrArg (List.map _) steady.records⟩

theorem Calm.ledger (calm : before.Calm after) : after.thread.ledger = before.thread.ledger := by
  unfold Thread.ledger
  rw [calm.states, calm.initializers]

theorem Calm.settles (calm : before.Calm after) : before.Settles after := by
  refine ⟨calm.toGrows, ?_, fun single => single.of_ids (congrArg (List.map _) calm.records)⟩
  rw [calm.ledger]

/-- At most a class that had no record has one now. -/
structure Prepares (before after : Machine) : Prop extends before.Aside after where
  ledger : after.thread.ledger = before.thread.ledger ∨
    ∃ id, before.thread.state? id = none ∧ after.thread.ledger = before.thread.ledger.mark id .prepared
  single : before.thread.Single → after.thread.Single

theorem Silent.prepares (silent : before.Silent after) : before.Prepares after :=
  ⟨silent.toAside, .inl silent.ledger, fun single => single.of_ids silent.ids⟩

theorem Prepares.after_silent (silent : before.Silent machine) (prepares : machine.Prepares after) :
    before.Prepares after := by
  refine ⟨silent.toAside.trans prepares.toAside, ?_, fun single => ?_⟩
  · rw [← silent.ledger, ← silent.states]
    exact prepares.ledger
  · exact prepares.single (silent.prepares.single single)

theorem Prepares.silent (prepares : before.Prepares machine) (silent : machine.Silent after) :
    before.Prepares after := by
  refine ⟨prepares.toAside.trans silent.toAside, ?_, fun single => ?_⟩
  · rw [silent.ledger]
    exact prepares.ledger
  · exact silent.prepares.single (prepares.single single)

/-- The thread has taken turns, and only classes of the chain have changed; others may have got
their records. -/
structure Within (chain : List ClassId) (before after : Machine) : Prop
    extends before.Settles after where
  elsewhere : ∀ id ∉ chain, before.thread.state? id ≠ none →
    after.thread.state? id = before.thread.state? id

variable {chain : List ClassId}

theorem Within.trans (one : Within chain before machine) (two : Within chain machine after) :
    Within chain before after := by
  refine ⟨one.toSettles.trans two.toSettles, fun id outside known => ?_⟩
  have same := one.elsewhere id outside known
  rw [two.elsewhere id outside (same ▸ known), same]

theorem Within.mono {chain' : List ClassId} (within : Within chain before after)
    (more : ∀ id ∈ chain, id ∈ chain') : Within chain' before after :=
  ⟨within.toSettles, fun id outside => within.elsewhere id fun member => outside (more id member)⟩

theorem Prepares.settles (prepares : before.Prepares after) : before.Settles after := by
  refine ⟨prepares.toGrows, ?_, prepares.single⟩
  rcases prepares.ledger with same | ⟨id, absent, marked⟩
  · rw [same]
  · rw [marked]
    exact .single (.prepares absent)

theorem Prepares.elsewhere (prepares : before.Prepares after) {id : ClassId}
    (known : before.thread.state? id ≠ none) :
    after.thread.state? id = before.thread.state? id := by
  show after.thread.ledger.state id = before.thread.ledger.state id
  rcases prepares.ledger with same | ⟨other, absent, marked⟩
  · rw [same]
  · rw [marked, Ledger.mark_state, if_neg]
    rintro rfl
    exact known absent

theorem Prepares.within (prepares : before.Prepares after) : Within chain before after :=
  ⟨prepares.settles, fun _ _ known => prepares.elsewhere known⟩

theorem Steady.within (steady : before.Steady after) : Within chain before after :=
  steady.silent.prepares.within

/-- The ledger has come to be that of one class having changed. -/
theorem Within.of_mark {id : ClassId} {state : InitState} (grows : before.Grows after)
    (turns : Ledger.Turns after.classes before.thread.ledger after.thread.ledger)
    (ids : after.thread.records.map (·.classId) = before.thread.records.map (·.classId))
    (states : after.thread.state? = (before.thread.ledger.mark id state).state) (member : id ∈ chain) :
    Within chain before after := by
  refine ⟨⟨grows, turns, fun single => single.of_ids ids⟩, fun other outside _ => ?_⟩
  rw [states, Ledger.mark_state, if_neg]
  · rfl
  · rintro rfl
    exact outside member

/-- One class is marked, as one turn has it. -/
theorem within_setInitState {id : ClassId} {state : InitState}
    (known : machine.thread.state? id ≠ none)
    (turn : Ledger.Turn machine.classes machine.thread.ledger (machine.thread.ledger.mark id state))
    (member : id ∈ chain) :
    Within chain machine (machine.updateThread fun thread => thread.setInitState id state) := by
  have marked : (machine.thread.setInitState id state).ledger = machine.thread.ledger.mark id state :=
    Thread.ledger_setInitState known state
  refine .of_mark (grows_setInitState machine id state) ?_
    (Thread.ids_updateRecord machine.thread id _ fun _ => rfl) (congrArg Ledger.state marked) member
  show Ledger.Turns machine.classes _ (machine.thread.setInitState id state).ledger
  rw [marked]
  exact .single turn

end Machine

/-! ## Preparing classes, and native methods -/

namespace Exec

variable {before : Machine}

theorem keeps_silent {α : Type} {action : Exec α}
    (keeps : ∀ machine : Machine, Keeps machine.Steady action) : Keeps before.Silent action :=
  fun machine silent => (keeps machine machine (Steady.refl machine)).mono
    (fun _ _ steady => silent.trans steady.silent) fun _ _ steady => silent.trans steady.silent

theorem silent_putStatic (machine : Machine) (id : ClassId) (slot : Nat) (v : Value) :
    machine.Silent (machine.updateThread fun thread => thread.putStatic id slot v) :=
  ⟨keeps_write id slot v machine (Aside.refl machine), Thread.state?_putStatic _ id slot v,
    Thread.ids_updateRecord machine.thread id _ fun _ => rfl⟩

theorem keeps_write_silent (id : ClassId) (slot : Nat) (v : Value) :
    Keeps before.Silent (Statics.write id slot v) :=
  keeps_modify fun machine silent => silent.trans (silent_putStatic machine id slot v)

theorem keeps_fill_silent (c : LinkedClass) (fields : List Field) :
    Keeps before.Silent (Statics.fill c fields) := by
  induction fields with
  | nil => exact keeps_pure _
  | cons field rest ih =>
      unfold Statics.fill
      dsimp only
      split
      · refine keeps_bind (keeps_silent fun _ => keeps_firstValue c field) fun v => ?_
        exact keeps_bind (keeps_write_silent c.id field.slot v) fun _ => ih
      · exact ih

/-- Preparing a class answers its state. -/
theorem ends_prepare_state (c : LinkedClass) (machine : Machine) :
    (Statics.prepare c).Ends machine
      (fun state later => machine.Prepares later ∧ later.thread.state? c.id = some state)
      fun _ later => machine.Prepares later := by
  refine ends_bind_thread ?_
  cases found : machine.thread.record? c.id with
  | some record =>
      exact ends_pure ⟨(Silent.refl machine).prepares, by rw [Thread.state?, found]; rfl⟩
  | none =>
      refine ends_bind_modify ?_
      let entered : Machine := machine.updateThread fun thread => { thread with
        records := ⟨c.id, .prepared, Array.replicate c.staticCount .unset⟩ :: thread.records }
      have absent : machine.thread.state? c.id = none := by
        rw [Thread.state?, found]
        rfl
      have states : entered.thread.state? = (machine.thread.ledger.mark c.id .prepared).state := by
        funext id
        rw [Ledger.mark_state]
        unfold Thread.state? Thread.record?
        by_cases same : id = c.id
        · simp [entered, Machine.updateThread, same]
        · have other : ¬ c.id = id := fun equal => same equal.symm
          simp [entered, Machine.updateThread, same, other]
          rfl
      have fresh : ∀ record ∈ machine.thread.records, record.classId ≠ c.id := fun record listed => by
        simpa using List.find?_eq_none.mp found record listed
      have prepares : machine.Prepares entered := by
        refine ⟨⟨(Grows.refl machine).step rfl rfl rfl rfl rfl rfl, rfl⟩, .inr ⟨c.id, absent, ?_⟩,
          fun single => List.nodup_cons.mpr ⟨?_, single⟩⟩
        · unfold Thread.ledger
          rw [states]
          rfl
        · rintro listed
          obtain ⟨record, member, same⟩ := List.mem_map.mp listed
          exact fresh record member same
      refine (keeps_fill_silent c c.fields).before (Silent.refl entered) (fun _ later silent => ?_)
        fun _ _ silent => prepares.silent silent
      refine ends_pure ⟨prepares.silent silent, ?_⟩
      rw [silent.states, states, Ledger.mark_state, if_pos rfl]

theorem ends_storeOutput_prepares (machine : Machine) :
    Native.storeOutput.Ends machine (fun _ later => machine.Prepares later)
      fun _ later => machine.Prepares later := by
  have start := Silent.refl machine
  refine (keeps_silent fun _ => keeps_builtin _).before start (fun system _ silent => ?_)
    fun _ _ silent => silent.prepares
  refine (keeps_silent fun _ => keeps_builtin _).before silent (fun stream _ silent => ?_)
    fun _ _ silent => silent.prepares
  refine (keeps_silent fun _ => keeps_allocate stream).before silent (fun ref ready silent => ?_)
    fun _ _ silent => silent.prepares
  refine (ends_prepare_state system ready).before (fun _ prepared ended => ?_)
    fun _ _ prepares => .after_silent silent prepares
  have prepares := Prepares.after_silent silent ended.1
  split
  · exact ends_modify (prepares.silent (silent_putStatic prepared _ _ _))
  · exact ends_throw prepares

/-- A native method prepares one class at most. -/
theorem ends_native_prepares (native : Native) (arguments : List Value) (machine : Machine) :
    (native.run arguments).Ends machine (fun _ later => machine.Prepares later)
      fun _ later => machine.Prepares later := by
  have steady {α : Type} {action : Exec α}
      (keeps : ∀ machine : Machine, Keeps machine.Steady action) :
      action.Ends machine (fun _ later => machine.Prepares later)
        fun _ later => machine.Prepares later :=
    (keeps machine machine (Steady.refl machine)).mono (fun _ _ kept => kept.silent.prepares)
      fun _ _ kept => kept.silent.prepares
  cases native with
  | openOutput => exact (ends_storeOutput_prepares machine).bind fun _ _ prepares => ends_pure prepares
  | newline => exact steady fun _ => keeps_bind (keeps_print _) fun _ => keeps_pure _
  | print kind endsLine =>
      exact steady fun _ => keeps_bind (keeps_printedText _ _) fun text =>
        keeps_bind (keeps_print _) fun _ => keeps_pure _
  | fail => exact steady fun _ => keeps_fail _
  | _ => exact steady fun _ => keeps_pure _

theorem ends_bind_trace {α : Type} {machine : Machine} {wanted : Options → Bool} {line : String}
    {next : Unit → Exec α} {Done : α → Machine → Prop} {Stopped : Halt → Machine → Prop}
    (rest : ∀ traced, machine.Steady traced → (next ()).Ends traced Done Stopped) :
    (trace wanted line >>= next).Ends machine Done Stopped :=
  ends_bind_modify (rest _ (keeps_trace wanted line machine (Steady.refl machine)))

end Exec

/-! ## Leaving an initializer -/

namespace Exec

/-- The frame on top returns; if it runs an initializer, the class is ready. -/
theorem ends_leave_settles {machine : Machine} {top frame : Frame} {below : List Frame}
    (inStep : machine.thread.ledger.InStep) (frames : machine.thread.frames = top :: below)
    (same : top.initializing = frame.initializing) :
    (leave frame).Ends machine (fun _ later => machine.Settles later)
      fun _ later => machine.Settles later := by
  have initializers : machine.thread.initializers =
      (top :: below).filterMap Frame.initializing := congrArg _ frames
  unfold leave
  cases initializing : frame.initializing with
  | none =>
      rw [initializing] at same
      refine ends_modify (Calm.settles ⟨still_popFrame machine, ?_⟩)
      rw [initializers, List.filterMap_cons_none same]
      show machine.thread.frames.tail.filterMap _ = _
      rw [frames, List.tail_cons]
  | some id =>
      rw [initializing] at same
      have active : machine.thread.ledger.active = id :: below.filterMap Frame.initializing :=
        initializers.trans (List.filterMap_cons_some same)
      have running : machine.thread.ledger.state id = some .running :=
        (inStep.running id).mpr (active ▸ List.mem_cons_self)
      have known : machine.thread.state? id ≠ none := fun absent => by
        cases absent.symm.trans running
      have states : (machine.thread.setInitState id .ready).state? =
          (machine.thread.ledger.mark id .ready).state :=
        congrArg Ledger.state (Thread.ledger_setInitState known .ready)
      refine ends_bind_modify (ends_modify ⟨(grows_setInitState machine id .ready).trans
        (still_popFrame _).toGrows, .single ?_, fun single =>
          single.of_ids (Thread.ids_updateRecord machine.thread id _ fun _ => rfl)⟩)
      have left : (machine.thread.setInitState id .ready).popFrame.ledger =
          { machine.thread.ledger.mark id .ready with
            active := below.filterMap Frame.initializing } := by
        show Ledger.mk (machine.thread.setInitState id .ready).state?
          (machine.thread.frames.tail.filterMap Frame.initializing) = _
        rw [states, frames, List.tail_cons]
      show Ledger.Turn _ _ (machine.thread.setInitState id .ready).popFrame.ledger
      rw [left]
      exact .finishes running active

end Exec

/-! ## Dropping frames -/

namespace Thread

variable {thread : Thread}

theorem ledger_popFrame {frame : Frame} {rest : List Frame}
    (frames : thread.frames = frame :: rest) :
    thread.popFrame.ledger =
      { thread.ledger with active := rest.filterMap Frame.initializing } := by
  show Ledger.mk thread.state? (thread.frames.tail.filterMap Frame.initializing) = _
  rw [frames, List.tail_cons]
  rfl

theorem state?_abandon {id : ClassId} (running : thread.state? id = some .running) :
    (thread.abandon (some id)).state? = (thread.ledger.mark id .failed).state := by
  obtain ⟨record, found, state⟩ := Option.map_eq_some_iff.mp running
  have change (record : ClassRecord) : (if record.state = .running then
      { record with state := .failed } else record : ClassRecord).classId = record.classId := by
    split <;> rfl
  funext other
  rw [Ledger.mark_state]
  unfold abandon
  dsimp only
  rw [state?_updateRecord thread id _ change other, found, Option.map_some, if_pos state]
  rfl

/-- The initializer of the frame on top is abandoned. -/
theorem course_dropFrame (classes : List LinkedClass) (inStep : thread.ledger.InStep) :
    Ledger.Course classes thread.ledger thread.dropFrame.ledger ∧
      thread.dropFrame.records.map (·.classId) = thread.records.map (·.classId) := by
  unfold dropFrame
  cases frames : thread.frames with
  | nil => exact ⟨.refl, rfl⟩
  | cons frame rest =>
      dsimp only
      have initializers : thread.initializers = (frame :: rest).filterMap Frame.initializing :=
        congrArg _ frames
      cases initializing : frame.initializing with
      | none =>
          refine ⟨?_, rfl⟩
          have same : thread.popFrame.ledger = thread.ledger := by
            rw [ledger_popFrame frames, ← List.filterMap_cons_none initializing, ← initializers]
            rfl
          show Ledger.Course classes thread.ledger thread.popFrame.ledger
          rw [same]
      | some id =>
          have active : thread.ledger.active = id :: rest.filterMap Frame.initializing :=
            initializers.trans (List.filterMap_cons_some initializing)
          have running : thread.ledger.state id = some .running :=
            (inStep.running id).mpr (active ▸ List.mem_cons_self)
          refine ⟨.single (.inr ?_), ids_updateRecord thread id _ fun record => by split <;> rfl⟩
          have dropped : (thread.abandon (some id)).popFrame.ledger =
              { thread.ledger.mark id .failed with
                active := rest.filterMap Frame.initializing } := by
            show Ledger.mk (thread.abandon (some id)).state?
              (thread.frames.tail.filterMap Frame.initializing) = _
            rw [state?_abandon running, frames, List.tail_cons]
          show Ledger.Drop _ (thread.abandon (some id)).popFrame.ledger
          rw [dropped]
          exact .abandons running active

/-- Dropping frames abandons their initializers, one after the other. -/
theorem course_dropFrames (classes : List LinkedClass) (count : Nat) (inStep : thread.ledger.InStep) :
    Ledger.Course classes thread.ledger (thread.dropFrames count).ledger ∧
      (thread.dropFrames count).records.map (·.classId) = thread.records.map (·.classId) := by
  induction count generalizing thread with
  | zero => exact ⟨.refl, rfl⟩
  | succ count ih =>
      obtain ⟨course, ids⟩ := course_dropFrame classes inStep
      obtain ⟨courses, ids'⟩ := ih (course.inStep inStep)
      exact ⟨course.trans courses, ids'.trans ids⟩

theorem course_unwindTo (classes : List LinkedClass) (depth : Nat) (inStep : thread.ledger.InStep) :
    Ledger.Course classes thread.ledger (thread.unwindTo depth).ledger ∧
      (thread.unwindTo depth).records.map (·.classId) = thread.records.map (·.classId) :=
  course_dropFrames classes _ inStep

end Thread

end Jvm
