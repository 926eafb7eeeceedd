/-
# Jvm.Proofs.Machine.Basics — what everything else is made of

What is done between two instructions is made of a few kinds of action: the current thread is
changed, but for its number, its heap and its strings, a line is traced, a class is loaded, a string
is interned, a stream is made. A property that these keep (`Exec.Basics`) is kept when a class is prepared or made ready
and when a native method runs, by every part of an instruction if it is kept by assignments to
fields as well (`Basics.handles`), and by calls if it is kept by steps (`Basics.kept`).
-/
import Jvm.Proofs.Machine.Parts
import Jvm.Proofs.Machine.Preparation
import Jvm.Proofs.Machine.Threads
import Jvm.Proofs.Call.Passage

namespace Jvm

set_option autoImplicit false

open Exec Machine

/-- A property that the simplest actions keep. -/
structure Exec.Basics (P : Machine → Prop) : Prop where
  threads : ∀ {machine : Machine}, P machine → ∀ change : Thread → Thread,
    (change machine.thread).number = machine.thread.number →
    (change machine.thread).heap = machine.thread.heap →
    (change machine.thread).strings = machine.thread.strings → P (machine.updateThread change)
  traces : ∀ (wanted : Options → Bool) (line : String), Keeps P (trace wanted line)
  resolve : ∀ name : String, Keeps P (Loading.resolve name)
  interns : ∀ text : String, Keeps P (intern text)
  streams : ∀ {machine : Machine} {c : LinkedClass}, P machine →
    machine.findClass? Builtin.printStream.name = some c →
      (allocate c).Ends machine (fun _ => P) fun _ => P

namespace Exec.Basics

variable {P : Machine → Prop}

/-! ### The current thread -/

theorem keeps_updateThread (basics : Basics P) {change : Thread → Thread}
    (number : ∀ thread, (change thread).number = thread.number)
    (heap : ∀ thread, (change thread).heap = thread.heap)
    (strings : ∀ thread, (change thread).strings = thread.strings) : Keeps P (updateThread change) :=
  keeps_modify fun _ holds => basics.threads holds change (number _) (heap _) (strings _)

theorem keeps_onTop (basics : Basics P) {α : Type} (action : FrameM α) :
    Keeps P (onTop action) := by
  intro machine holds
  have withTop : ∀ frame, P (machine.withTop frame) := fun frame =>
    basics.threads holds (fun thread => thread.popFrame.pushFrame frame) rfl rfl rfl
  cases frames : machine.thread.frames with
  | nil => exact ends_onTop_nil frames holds
  | cons top below =>
      exact ends_onTop frames (fun _ frame _ => withTop frame) fun _ frame _ => withTop frame

theorem keeps_pushFrame (basics : Basics P) (frame : Frame) : Keeps P (pushFrame frame) :=
  fun _ holds => ends_pushFrame (fun _ => basics.threads holds _ rfl rfl rfl) fun _ => holds

theorem keeps_pushOnCaller (basics : Basics P) (v : Value) : Keeps P (pushOnCaller v) := by
  refine keeps_bind keeps_thread fun thread => ?_
  split
  · split
    · exact basics.keeps_updateThread (fun _ => rfl) (fun _ => rfl) fun _ => rfl
    · exact keeps_throw _
  · exact keeps_violate _

theorem keeps_setState (basics : Basics P) (id : ClassId) (state : InitState) :
    Keeps P (Initialization.setState id state) :=
  basics.keeps_updateThread (fun _ => rfl) (fun _ => rfl) fun _ => rfl

theorem keeps_write (basics : Basics P) (id : ClassId) (slot : Nat) (v : Value) :
    Keeps P (Statics.write id slot v) :=
  basics.keeps_updateThread (fun _ => rfl) (fun _ => rfl) fun _ => rfl

theorem keeps_leave (basics : Basics P) (frame : Frame) : Keeps P (leave frame) := by
  have pops : Keeps P popFrame := basics.keeps_updateThread (fun _ => rfl) (fun _ => rfl) fun _ => rfl
  unfold leave
  split
  · exact keeps_bind (basics.keeps_setState _ _) fun _ => pops
  · exact pops

/-! ### Strings and streams -/

theorem keeps_loadedValue (basics : Basics P) (constant : Pool.Loadable) :
    Keeps P (loadedValue constant) := by
  cases constant with
  | value v => exact keeps_pure _
  | string text => exact keeps_bind (basics.interns text) fun _ => keeps_pure _

theorem keeps_firstValue (basics : Basics P) (c : LinkedClass) (field : Field) :
    Keeps P (Statics.firstValue c field) := by
  unfold Statics.firstValue
  dsimp only
  split
  · exact keeps_pure _
  · refine keeps_bind (keeps_ofFault _) fun constant => ?_
    exact keeps_bind (basics.keeps_loadedValue constant) fun v => keeps_guard (keeps_pure _)

theorem keeps_prepare (basics : Basics P) (c : LinkedClass) :
    Keeps P (Statics.prepare c) := by
  have fill : ∀ fields : List Field, Keeps P (Statics.fill c fields) := by
    intro fields
    induction fields with
    | nil => exact keeps_pure _
    | cons field rest ih =>
        unfold Statics.fill
        dsimp only
        split
        · refine keeps_bind (basics.keeps_firstValue c field) fun v => ?_
          exact keeps_bind (basics.keeps_updateThread (fun _ => rfl) (fun _ => rfl) fun _ => rfl) fun _ => ih
        · exact ih
  refine keeps_bind keeps_thread fun thread => ?_
  split
  · exact keeps_pure _
  · refine keeps_bind (basics.keeps_updateThread (fun _ => rfl) (fun _ => rfl) fun _ => rfl) fun _ => ?_
    exact keeps_bind (fill c.fields) fun _ => keeps_pure _

theorem keeps_storeOutput (basics : Basics P) : Keeps P Native.storeOutput := by
  refine keeps_bind (keeps_builtin _) fun system machine holds => ?_
  refine (ends_builtin _).before (fun stream _ ended => ?_) fun _ _ ended => ended.1 ▸ holds
  obtain ⟨rfl, found⟩ := ended
  refine (basics.streams holds found).bind fun ref later made => ?_
  refine keeps_bind (basics.keeps_prepare system) (fun _ => ?_) later made
  split
  · exact basics.keeps_write _ _ _
  · exact keeps_violate _

theorem keeps_native (basics : Basics P) (native : Native) (arguments : List Value) :
    Keeps P (native.run arguments) := by
  have prints : ∀ text, Keeps P (print text) :=
    fun _ => basics.keeps_updateThread (fun _ => rfl) (fun _ => rfl) fun _ => rfl
  cases native with
  | newline => exact keeps_bind (prints _) fun _ => keeps_pure _
  | print kind endsLine =>
      refine keeps_bind (keeps_printedText _ _) fun text => ?_
      exact keeps_bind (prints _) fun _ => keeps_pure _
  | openOutput => exact keeps_bind basics.keeps_storeOutput fun _ => keeps_pure _
  | fail => exact keeps_fail _
  | _ => exact keeps_pure _

/-! ### Getting a class ready -/

theorem keeps_failing (basics : Basics P) {α : Type} (id : ClassId) {action : Exec α}
    (keeps : Keeps P action) : Keeps P (Initialization.failing id action) :=
  keeps_onHalt keeps fun _ holds => basics.threads holds _ rfl rfl rfl

theorem keeps_start (basics : Basics P) (c : LinkedClass) :
    Keeps P (Initialization.start c) := by
  refine keeps_bind (basics.traces _ _) fun _ => ?_
  split
  · exact keeps_bind (basics.keeps_setState _ _) fun _ => keeps_pure _
  · refine keeps_bind (basics.keeps_setState _ _) fun _ => ?_
    split
    · have runs : Keeps P (Initialization.runNative c ‹Method›.native) := by
        unfold Initialization.runNative
        split
        · exact keeps_fail _
        · exact keeps_bind (basics.keeps_native _ _) fun _ => keeps_pure _
      refine keeps_bind (basics.keeps_failing c.id runs) fun _ => ?_
      exact keeps_bind (basics.keeps_setState _ _) fun _ => keeps_pure _
    · refine keeps_bind (basics.keeps_failing c.id (basics.keeps_pushFrame _)) fun _ => ?_
      exact keeps_pure _

theorem keeps_ensureReady (basics : Basics P) (c : LinkedClass) :
    Keeps P (Initialization.ensureReady c) := by
  have chain : ∀ ids : List ClassId, Keeps P (Initialization.initializeChain ids) := by
    intro ids
    induction ids with
    | nil => exact keeps_pure _
    | cons id supers ih =>
        refine keeps_bind (keeps_classOf id) fun c => ?_
        refine keeps_bind (basics.keeps_prepare c) fun state => ?_
        cases state with
        | prepared =>
            refine keeps_bind (basics.keeps_failing id ih) fun ready => ?_
            split
            · exact basics.keeps_start c
            · exact keeps_pure _
        | failed => exact keeps_fail _
        | _ => exact keeps_pure _
  exact chain c.chain

/-! ### Instructions -/

/-- The parts of an instruction keep the property, if assignments to fields do. -/
theorem handles (basics : Basics P) {length : Nat}
    (assigns : ∀ (field : LinkedField) (machine : Machine), Linking.Declared machine field →
      field.isStatic = false → P machine →
        (setField field length).Ends machine (fun _ => P) fun _ => P) : Handles length P P where
  weaken _ holds := holds
  takes _ := basics.keeps_onTop _
  moves _ := basics.keeps_onTop _
  gives _ := basics.keeps_onTop _
  resolve := basics.resolve
  ready c machine _ holds :=
    (basics.keeps_ensureReady c machine holds).mono
      (fun ready later kept => by cases ready <;> exact kept) fun _ _ kept => kept
  loadedValue := basics.keeps_loadedValue
  write := basics.keeps_write
  setField := assigns
  native := basics.keeps_native
  enter frame _ _ := basics.keeps_pushFrame frame
  hand := basics.keeps_pushOnCaller
  leave := basics.keeps_leave

/-! ### Calls -/

/-- A property that the simplest actions and, where a call is on its way, steps keep is kept by the
call. -/
theorem preserves (basics : Basics P) {OnWay : Machine → Prop}
    (step : ∀ machine : Machine, OnWay machine → P machine →
      step.Ends machine (fun _ => P) fun _ => P) (method : Method) (arguments : List Value) :
    Call.Preserves method arguments OnWay P P where
  weaken _ holds := holds
  state _ _ holds := basics.threads holds _ rfl rfl rfl
  ready c machine _ holds := basics.keeps_ensureReady c machine holds
  step := step
  native native _ := basics.keeps_native native arguments
  enter _ _ machine _ := basics.keeps_pushFrame _ machine
  unwind machine depth _ holds :=
    have same := machine.thread.same_unwindTo depth
    basics.threads holds _ same.1 same.2.1 same.2.2

/-- A property that the simplest actions and steps keep is kept by all calls. -/
theorem kept (basics : Basics P) (step : Keeps P step) : Call.Kept P P where
  weaken _ holds := holds
  state _ _ holds := basics.threads holds _ rfl rfl rfl
  ready c machine _ holds := basics.keeps_ensureReady c machine holds
  step := step
  native := basics.keeps_native
  enter frame _ _ machine _ := basics.keeps_pushFrame frame machine
  unwind machine depth _ holds :=
    have same := machine.thread.same_unwindTo depth
    basics.threads holds _ same.1 same.2.1 same.2.2

end Exec.Basics

end Jvm
