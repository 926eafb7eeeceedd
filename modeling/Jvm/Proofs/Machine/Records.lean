/-
# Jvm.Proofs.Machine.Records — what changes the records of classes

A record of a class is changed by few parts of a step: by asking for the class to be ready, by a
native method, by writing a static field, and by the return from an initializer. All else leaves
the records as they are, and the initializers on the call stack with them (`before.Calm after`).
So a property that these four keep is kept by every step (`Recorded.step`). One that they keep
only as long as they do not halt is kept by every step that does not halt, and then what is left
is what is left by the part that halted.
-/
import Jvm.Proofs.Machine.Outcome

namespace Jvm

set_option autoImplicit false

/-- The classes whose initializers are on the call stack, the one on top first. -/
def Thread.initializers (thread : Thread) : List ClassId :=
  thread.frames.filterMap Frame.initializing

namespace Machine

/-- What every action leaves as it was, and the records of classes. -/
structure Still (before after : Machine) : Prop extends before.Grows after where
  records : after.thread.records = before.thread.records

/-- The same, and the initializers on the call stack. -/
structure Calm (before after : Machine) : Prop extends before.Still after where
  initializers : after.thread.initializers = before.thread.initializers

theorem Still.refl (machine : Machine) : machine.Still machine := ⟨Grows.refl machine, rfl⟩

theorem Calm.refl (machine : Machine) : machine.Calm machine := ⟨Still.refl machine, rfl⟩

theorem Still.trans {first second third : Machine} (one : first.Still second)
    (two : second.Still third) : first.Still third :=
  ⟨one.toGrows.trans two.toGrows, two.records.trans one.records⟩

theorem Calm.trans {first second third : Machine} (one : first.Calm second)
    (two : second.Calm third) : first.Calm third :=
  ⟨one.toStill.trans two.toStill, two.initializers.trans one.initializers⟩

theorem Steady.still {before after : Machine} (steady : before.Steady after) : before.Still after :=
  ⟨steady.toGrows, steady.records⟩

theorem Aside.initializers {before after : Machine} (aside : before.Aside after) :
    after.thread.initializers = before.thread.initializers :=
  congrArg (List.filterMap Frame.initializing) aside.frames

theorem Steady.calm {before after : Machine} (steady : before.Steady after) : before.Calm after :=
  ⟨steady.still, steady.toAside.initializers⟩

theorem still_pushFrame (machine : Machine) (frame : Frame) :
    machine.Still (machine.pushFrame frame) :=
  ⟨(Grows.refl machine).step rfl rfl rfl rfl rfl rfl, rfl⟩

theorem still_popFrame (machine : Machine) : machine.Still machine.popFrame :=
  ⟨(Grows.refl machine).step rfl rfl rfl rfl rfl rfl, rfl⟩

/-- A frame that runs no initializer. -/
theorem calm_pushFrame (machine : Machine) {frame : Frame} (plain : frame.initializing = none) :
    machine.Calm (machine.pushFrame frame) :=
  ⟨still_pushFrame machine frame, List.filterMap_cons_none plain⟩

theorem calm_withTop {machine : Machine} {top frame : Frame} {below : List Frame}
    (frames : machine.thread.frames = top :: below) (continues : top.Continues frame) :
    machine.Calm (machine.withTop frame) := by
  refine ⟨⟨grows_withTop machine frame, rfl⟩, ?_⟩
  unfold Thread.initializers
  rw [frames_withTop frames frame, frames, List.filterMap_cons, List.filterMap_cons,
    continues.initializing]

end Machine

namespace Exec

open Machine

variable {α : Type} {before machine : Machine}

theorem keeps_still {action : Exec α} (keeps : ∀ machine : Machine, Keeps machine.Steady action) :
    Keeps before.Still action :=
  fun machine still => (keeps machine machine (Steady.refl machine)).mono
    (fun _ _ steady => still.trans steady.still) fun _ _ steady => still.trans steady.still

theorem keeps_calm {action : Exec α} (keeps : ∀ machine : Machine, Keeps machine.Steady action) :
    Keeps before.Calm action :=
  fun machine calm => (keeps machine machine (Steady.refl machine)).mono
    (fun _ _ steady => calm.trans steady.calm) fun _ _ steady => calm.trans steady.calm

theorem ends_onTop_calm {action : FrameM α} (continues : FrameM.Continues action) :
    (onTop action).Ends machine
      (fun v later => machine.Calm later ∧ ∃ frame frame', action frame = .ok v frame')
      fun _ later => machine.Calm later := by
  cases frames : machine.thread.frames with
  | nil => exact ends_onTop_nil frames (Calm.refl machine)
  | cons top below =>
      exact ends_onTop frames
        (fun _ frame run => ⟨calm_withTop frames (continues.of_ok run), top, frame, run⟩)
        fun _ frame run => calm_withTop frames (continues.of_error run)

theorem keeps_onTop_calm {action : FrameM α} (continues : FrameM.Continues action) :
    Keeps before.Calm (onTop action) :=
  fun _ calm => (ends_onTop_calm continues).mono (fun _ _ ended => calm.trans ended.1)
    fun _ _ ended => calm.trans ended

theorem local_calm : Local before.Calm where
  onTop continues := keeps_onTop_calm continues
  steady keeps := keeps_calm keeps

theorem keeps_pushFrame_still (frame : Frame) : Keeps before.Still (Exec.pushFrame frame) :=
  fun machine still => ends_pushFrame (fun _ => still.trans (still_pushFrame machine frame))
    fun _ => still

theorem keeps_pushFrame_calm {frame : Frame} (plain : frame.initializing = none) :
    Keeps before.Calm (Exec.pushFrame frame) :=
  fun machine calm => ends_pushFrame (fun _ => calm.trans (calm_pushFrame machine plain))
    fun _ => calm

/-- A result is pushed on the frame below the top one, and the top one is not touched. -/
theorem ends_pushOnCaller {top : Frame} {below : List Frame} (v : Value)
    (frames : machine.thread.frames = top :: below) :
    (pushOnCaller v).Ends machine
      (fun _ later => machine.Calm later ∧ ∃ below', later.thread.frames = top :: below')
      fun _ later => machine.Calm later := by
  unfold pushOnCaller
  refine ends_bind_thread ?_
  rw [frames]
  cases below with
  | nil => exact Calm.refl machine
  | cons caller rest =>
      dsimp only
      split
      · rename_i pushed _
        refine ends_modify ?_
        have changed (stack : OperandStack) :
            (top :: caller :: rest).modify 1 (fun frame => { frame with stack := stack }) =
              top :: { caller with stack := stack } :: rest := rfl
        refine ⟨⟨⟨(Grows.refl machine).step rfl rfl rfl rfl rfl rfl, rfl⟩, ?_⟩,
          { caller with stack := pushed } :: rest, ?_⟩
        · show ((machine.thread.frames.modify 1 _).filterMap _) = machine.thread.frames.filterMap _
          rw [frames, changed]
          rfl
        · show machine.thread.frames.modify 1 _ = _
          rw [frames, changed]
      · exact Calm.refl machine

theorem keeps_popReceiver_calm (method : Method) : Keeps before.Calm (popReceiver method) := by
  refine keeps_bind (keeps_onTop_calm FrameM.continues_popRef) fun object => ?_
  split
  · exact keeps_pure _
  · exact keeps_fail _

theorem keeps_callee {P : Machine → Prop} (kind : InvokeKind) (method : Method) (receiver : Ref) :
    Keeps P (callee kind method receiver) := by
  have selected : Keeps P (do
      let c ← classOf (← object receiver).classId
      Linking.selectVirtual c method) := by
    refine keeps_bind (keeps_object receiver) fun object => keeps_bind (keeps_classOf _) fun c => ?_
    unfold Linking.selectVirtual
    dsimp only
    split
    · exact keeps_pure _
    · refine keeps_bind keeps_get fun machine => ?_
      split
      · exact keeps_fail _
      · exact keeps_guard (keeps_pure _)
  cases kind <;> first | exact selected | exact keeps_pure _

end Exec

/-! ## Steps -/

/-- What is kept by all that leaves the records alone, and by native methods: `P` if they answer, `Q`
if they halt. -/
structure Enters (P Q : Machine → Prop) : Prop where
  weaken : ∀ machine : Machine, P machine → Q machine
  calm : ∀ before after : Machine, before.Calm after → P before → P after
  native : ∀ (native : Native) (arguments : List Value), Exec.Upholds P Q (native.run arguments)

/-- What the other parts of a step that change records keep as well. -/
structure Recorded (P Q : Machine → Prop) : Prop extends Enters P Q where
  ready : ∀ (c : LinkedClass) (machine : Machine), c ∈ machine.classes → P machine →
    (Initialization.ensureReady c).Ends machine (fun _ => P) fun _ => Q
  write : ∀ (machine : Machine) (field : LinkedField) (v : Value) (frame later : Frame), P machine →
    Linking.Declared machine field → field.isStatic = true →
    FrameM.pop field.type frame = .ok v later →
    P (machine.updateThread fun thread =>
      thread.putStatic field.owner.id field.slot (Exec.narrowedTo field.type v))
  leave : ∀ (machine : Machine) (top frame : Frame) (below : List Frame), P machine →
    machine.thread.frames = top :: below → top.initializing = frame.initializing →
    (Exec.leave frame).Ends machine (fun _ => P) fun _ => Q

namespace Enters

open Exec Machine

variable {P Q : Machine → Prop} {α : Type}

theorem quiet (enters : Enters P Q) {action : Exec α}
    (keeps : ∀ machine : Machine, Keeps machine.Calm action) : Upholds P Q action :=
  fun machine holds => (keeps machine machine (Calm.refl machine)).mono
    (fun _ later calm => enters.calm machine later calm holds)
    fun _ later calm => enters.weaken later (enters.calm machine later calm holds)

theorem onTop (enters : Enters P Q) {action : FrameM α} (continues : FrameM.Continues action) :
    Upholds P Q (onTop action) :=
  enters.quiet fun _ => keeps_onTop_calm continues

theorem callNative (enters : Enters P Q) (method : Method) (arguments : List Value) :
    Upholds P Q (callNative method arguments) := by
  unfold Exec.callNative
  split
  · exact (keeps_fail _).upholds enters.weaken
  · refine upholds_bind (enters.native _ arguments) fun answer => enters.quiet fun _ => ?_
    dsimp only
    split
    · exact keeps_guard (keeps_onTop_calm (FrameM.continues_push _))
    · exact keeps_pure _

theorem enter (enters : Enters P Q) (method : Method) (arguments : List Value) :
    Upholds P Q (enter method arguments) := by
  unfold Exec.enter
  split
  · exact enters.callNative method arguments
  · split
    · exact (keeps_fail _).upholds enters.weaken
    · intro machine holds
      refine ends_bind_ofHalt (fun callee made => ?_) fun _ _ => enters.weaken machine holds
      obtain ⟨locals, rfl⟩ := Frame.withArguments_eq_ok made
      exact enters.quiet (fun _ => keeps_pushFrame_calm rfl) machine holds

theorem callWith (enters : Enters P Q) (kind : InvokeKind) (method : Method) (length : Nat) :
    Upholds P Q (callWith kind method length) := by
  intro machine holds
  unfold Exec.callWith
  dsimp only
  refine ends_guard (fun _ => enters.weaken machine holds) fun _ => ?_
  refine upholds_bind (enters.onTop (FrameM.continues_popArguments _)) (fun arguments => ?_)
    machine holds
  have receives : Upholds P Q (do
      let receiver ← popReceiver method
      let selected ← callee kind method receiver
      Exec.onTop (FrameM.advance length)
      Exec.enter selected (.ref (some receiver) :: arguments)) := by
    refine upholds_bind (enters.quiet fun _ => keeps_popReceiver_calm method) fun receiver => ?_
    refine upholds_bind (enters.quiet fun _ => keeps_callee kind method receiver) fun selected => ?_
    exact upholds_bind (enters.onTop (FrameM.continues_advance length)) fun _ => enters.enter _ _
  cases kind with
  | static =>
      exact upholds_bind (enters.onTop (FrameM.continues_advance length)) fun _ =>
        enters.enter _ _
  | _ => exact receives

end Enters

namespace Recorded

open Exec Machine

variable {P Q : Machine → Prop} {α : Type}

/-- What is done with a class once it is ready. -/
theorem whenReady (recorded : Recorded P Q) {machine : Machine} {c : LinkedClass}
    (known : c ∈ machine.classes) (holds : P machine) {action : Exec Unit}
    (rest : Upholds P Q action) :
    (do if ← Initialization.ensureReady c then action).Ends machine (fun _ => P) fun _ => Q := by
  refine (recorded.ready c machine known holds).bind fun ready later holds' => ?_
  split
  · exact rest later holds'
  · exact ends_pure holds'

theorem getStatic (recorded : Recorded P Q) {machine : Machine} (field : LinkedField)
    (known : field.owner ∈ machine.classes) (holds : P machine) (length : Nat) :
    (getStatic field length).Ends machine (fun _ => P) fun _ => Q := by
  refine recorded.whenReady known holds (recorded.quiet fun _ => ?_)
  refine keeps_bind (keeps_calm fun _ => keeps_read _ _) fun v => ?_
  exact keeps_onTop_calm (continues_push_advance v length)

theorem declared_grows {before after : Machine} (grows : before.Grows after) {field : LinkedField}
    (declared : Linking.Declared before field) : Linking.Declared after field :=
  ⟨grows.mem declared.1, declared.2⟩

theorem putStatic (recorded : Recorded P Q) {machine : Machine} (holds : P machine)
    {field : LinkedField} (declared : Linking.Declared machine field) (static : field.isStatic = true)
    (length : Nat) :
    (putStatic field length).Ends machine (fun _ => P) fun _ => Q := by
  have asks := (recorded.ready field.owner machine declared.1 holds).and
    (Initialization.ends_ensureReady field.owner (Aside.refl machine))
  refine asks.before (fun ready later ended => ?_) fun _ _ ended => ended.1
  obtain ⟨holds', grown⟩ := ended
  cases ready with
  | false => exact ends_pure holds'
  | true =>
      refine (ends_onTop_calm (FrameM.continues_pop _)).before (fun v popped ended => ?_)
        fun _ popped calm => recorded.weaken popped (recorded.calm later popped calm holds')
      obtain ⟨calm, frame, frame', run⟩ := ended
      have declared' := declared_grows (grown.toGrows.trans calm.toGrows) declared
      refine ends_bind_modify ?_
      exact recorded.onTop (FrameM.continues_advance length) _
        (recorded.write popped field v frame frame' (recorded.calm later popped calm holds')
          declared' static run)

theorem accessField (recorded : Recorded P Q) (access : FieldAccess) (index length : Nat) :
    Upholds P Q (accessField access index length) := by
  intro machine holds
  refine keeps_currentPool.before holds (fun pool machine holds => ?_) fun _ _ => recorded.weaken _
  refine (Linking.ends_resolveField pool index access (Steady.refl machine)).before
    (fun field linked found => ?_) fun _ linked steady =>
      recorded.weaken linked (recorded.calm machine linked steady.calm holds)
  obtain ⟨steady, declared, static⟩ := found
  have holds' := recorded.calm machine linked steady.calm holds
  cases access with
  | getStatic => exact recorded.getStatic field declared.1 holds' length
  | putStatic => exact recorded.putStatic holds' declared static length
  | getField => exact recorded.quiet (fun _ => local_calm.getField field length) linked holds'
  | putField => exact recorded.quiet (fun _ => local_calm.setField field length) linked holds'

theorem create (recorded : Recorded P Q) (index length : Nat) :
    Upholds P Q (create index length) := by
  refine upholds_bind (keeps_currentPool.upholds recorded.weaken) fun pool machine holds => ?_
  refine (Linking.ends_resolveNew pool index (Steady.refl machine)).before
    (fun c linked found => ?_) fun _ linked steady =>
      recorded.weaken linked (recorded.calm machine linked steady.calm holds)
  refine recorded.whenReady found.2 (recorded.calm machine linked found.1.calm holds)
    (recorded.quiet fun _ => ?_)
  exact keeps_bind (keeps_calm fun _ => keeps_allocate c) fun ref =>
    keeps_onTop_calm (continues_push_advance _ length)

theorem invoke (recorded : Recorded P Q) (kind : InvokeKind) (index length : Nat) :
    Upholds P Q (invoke kind index length) := by
  refine upholds_bind (keeps_topFrame.upholds recorded.weaken) fun top => ?_
  refine upholds_bind ((keeps_holder top).upholds recorded.weaken) fun caller => ?_
  refine upholds_bind (recorded.quiet fun _ => keeps_calm fun before machine steady =>
    (Linking.ends_resolveInvoke caller.pool index kind (some caller) steady).mono
      (fun _ _ found => found.1) fun _ _ steady => steady) fun method => ?_
  have ready : Upholds P Q (readyToCall kind method) := by
    intro machine holds
    unfold readyToCall
    split
    · exact ends_bind_classOf
        (fun c found => recorded.ready c machine (mem_of_classOf? found).1 holds)
        fun _ => recorded.weaken machine holds
    · exact (keeps_violate _).upholds recorded.weaken machine holds
    · exact ends_pure holds
  refine upholds_bind ready fun ready => ?_
  split
  · exact recorded.callWith kind method length
  · exact (keeps_pure _).upholds recorded.weaken

/-- The frame on top returns. -/
theorem returnValue (recorded : Recorded P Q) (type : BasicType) :
    Upholds P Q (returnValue type) := by
  intro machine holds
  cases frames : machine.thread.frames with
  | nil =>
      have stops : topFrame.Ends machine (fun _ _ => False) fun _ => Q := by
        refine ends_bind_get ?_
        rw [frames]
        exact recorded.weaken machine holds
      exact stops.before (fun _ _ impossible => impossible.elim) fun _ _ left => left
  | cons top below =>
      refine ends_bind_topFrame frames ?_
      dsimp only
      refine ends_guard (fun _ => recorded.weaken machine holds) fun _ => ?_
      -- the frame on top may have changed, but it runs the same initializer
      have leaves : ∀ (v : Value) (later : Machine) (frame : Frame) (rest : List Frame), P later →
          later.thread.frames = frame :: rest → frame.initializing = top.initializing →
          (do
            Exec.leave top
            return if top.isEntry then some v else none : Exec (Option Value)).Ends later
              (fun _ => P) fun _ => Q :=
        fun v later frame rest kept frames' same =>
          (recorded.leave later frame top rest kept frames' same).bind fun _ _ left =>
            ends_pure left
      have hands : ∀ (v : Value) (later : Machine) (frame : Frame) (rest : List Frame), P later →
          later.thread.frames = frame :: rest → frame.initializing = top.initializing →
          (do
            if ¬ top.isEntry ∧ type ≠ .void then pushOnCaller v
            Exec.leave top
            return if top.isEntry then some v else none : Exec (Option Value)).Ends later
              (fun _ => P) fun _ => Q := by
        intro v later frame rest kept frames' same
        dsimp only
        split
        · refine (ends_pushOnCaller v frames').before (fun _ pushed ended => ?_)
            fun _ pushed calm => recorded.weaken pushed (recorded.calm later pushed calm kept)
          obtain ⟨calm, rest', frames''⟩ := ended
          exact leaves v pushed frame rest' (recorded.calm later pushed calm kept) frames'' same
        · exact leaves v later frame rest kept frames' same
      split
      · exact hands .void machine top below holds frames rfl
      · have pops : FrameM.Continues (FrameM.pop type) := FrameM.continues_pop type
        refine ends_bind_onTop frames (fun v frame run => ?_) fun _ frame run => ?_
        · exact hands v _ frame below
            (recorded.calm machine _ (calm_withTop frames (pops.of_ok run)) holds)
            (frames_withTop frames frame) (pops.of_ok run).initializing
        · exact recorded.weaken _
            (recorded.calm machine _ (calm_withTop frames (pops.of_error run)) holds)

theorem execute (recorded : Recorded P Q) (instr : Instr) (length : Nat) :
    Upholds P Q (execute instr length) := by
  have none : Upholds P Q (pure none : Exec (Option Value)) :=
    (keeps_pure _).upholds recorded.weaken
  cases instr with
  | inFrame instr =>
      exact upholds_bind (recorded.onTop (instr.continues_run length)) fun _ => none
  | constant index wide =>
      exact upholds_bind (recorded.quiet fun _ => local_calm.loadConstant index wide length)
        fun _ => none
  | ret type => exact recorded.returnValue type
  | field access index => exact upholds_bind (recorded.accessField access index length) fun _ => none
  | invoke kind index => exact upholds_bind (recorded.invoke kind index length) fun _ => none
  | allocate index => exact upholds_bind (recorded.create index length) fun _ => none

/-- What the parts of a step keep that change records is kept by the step. -/
theorem step (recorded : Recorded P Q) : Upholds P Q step := by
  intro machine holds
  cases frames : machine.thread.frames with
  | nil =>
      have stops : topFrame.Ends machine (fun _ _ => False) fun _ => Q := by
        refine ends_bind_get ?_
        rw [frames]
        exact recorded.weaken machine holds
      exact stops.before (fun _ _ impossible => impossible.elim) fun _ _ left => left
  | cons top below =>
      refine ends_step frames (fun later steady =>
        recorded.weaken later (recorded.calm machine later steady.calm holds))
        fun instr length traced _ steady => ?_
      exact recorded.execute instr length traced (recorded.calm machine traced steady.calm holds)

end Recorded

end Jvm
