/-
# Jvm.Proofs.Machine.Parts — the parts that an instruction is made of

An instruction works on the top frame, loads and links classes, asks for a class to be ready, uses
objects and static fields, and calls or returns. `Exec.Parts` says of each of these parts what it
keeps: one property until the frame moves past the instruction, and a weaker one from then on and
wherever the instruction halts. What the parts keep is kept by the instruction
(`Exec.Handles.ends_execute`), and by a step of the machine that executes it (`Exec.keeps_step_of_parts`).
-/
import Jvm.Proofs.Frame.Position
import Jvm.Proofs.Machine.Records
import Jvm.Proofs.Machine.Runs

namespace Jvm

set_option autoImplicit false

open Machine

namespace Linking

open Exec

variable {P : Machine → Prop}

theorem keeps_resolveNew (resolve : ∀ name, Keeps P (Loading.resolve name)) (pool : Pool)
    (index : Int) : Keeps P (resolveNew pool index) :=
  keeps_bind (keeps_ofFault _) fun name => keeps_bind (resolve name) fun _ =>
    keeps_guard (keeps_pure _)

theorem keeps_resolveField (resolve : ∀ name, Keeps P (Loading.resolve name)) (pool : Pool)
    (index : Int) (access : FieldAccess) : Keeps P (resolveField pool index access) := by
  refine keeps_bind (keeps_ofFault _) fun ref => keeps_bind (resolve _) fun c => ?_
  refine keeps_bind keeps_get fun machine => ?_
  split
  · exact keeps_throw _
  · exact keeps_guard (keeps_pure _)

theorem keeps_resolveInvoke (resolve : ∀ name, Keeps P (Loading.resolve name)) (pool : Pool)
    (index : Int) (kind : InvokeKind) (caller : Option LinkedClass) :
    Keeps P (resolveInvoke pool index kind caller) := by
  refine keeps_bind (keeps_ofFault _) fun ref => keeps_bind (resolve _) fun c => ?_
  refine keeps_bind keeps_get fun machine => ?_
  split
  · exact keeps_throw _
  · refine keeps_guard ?_
    dsimp only
    split
    · split <;> exact keeps_pure _
    · exact keeps_pure _

end Linking

namespace Exec

/-! ## From one property to another -/

/-- An action leaves `P` where it found `R`, whether it answers or halts. -/
def Carries {α : Type} (R P : Machine → Prop) (action : Exec α) : Prop :=
  ∀ machine, R machine → action.Ends machine (fun _ => P) fun _ => P

section Carries

variable {α β : Type} {R P : Machine → Prop}

theorem Keeps.carries {action : Exec α} (keeps : Keeps R action)
    (weaken : ∀ machine, R machine → P machine) : Carries R P action :=
  fun machine holds => (keeps machine holds).mono (fun _ later kept => weaken later kept)
    fun _ later kept => weaken later kept

/-- The property is left later than here. -/
theorem carries_bind {first : Exec α} {next : α → Exec β} (keeps : Keeps R first)
    (weaken : ∀ machine, R machine → P machine) (rest : ∀ v, Carries R P (next v)) :
    Carries R P (first >>= next) :=
  fun machine holds => (keeps machine holds).before (fun v later kept => rest v later kept)
    fun _ later kept => weaken later kept

/-- The property is left here, and only the weaker one is needed later. -/
theorem Carries.bind {first : Exec α} {next : α → Exec β} (carries : Carries R P first)
    (rest : ∀ v, Keeps P (next v)) : Carries R P (first >>= next) :=
  fun machine holds => (carries machine holds).bind fun v later kept => rest v later kept

end Carries

/-- What the parts of an instruction of the given length keep, but for the allocation of an object:
`R` until the frame moves on, and `P` from then on and if a part halts. -/
structure Handles (length : Nat) (R P : Machine → Prop) : Prop where
  weaken : ∀ machine : Machine, R machine → P machine
  takes : ∀ {α : Type} {action : FrameM α}, FrameM.Leads Frame.Rests action →
    Keeps R (onTop action)
  moves : ∀ instr : LocalInstr, Carries R P (onTop (instr.run length))
  gives : ∀ v : Value, Keeps P (onTop (FrameM.push v))
  resolve : ∀ name : String, Keeps R (Loading.resolve name)
  ready : ∀ (c : LinkedClass) (machine : Machine), c ∈ machine.classes → R machine →
    (Initialization.ensureReady c).Ends machine
      (fun ready later => if ready = true then R later else P later) fun _ => P
  loadedValue : ∀ constant : Pool.Loadable, Keeps R (loadedValue constant)
  write : ∀ (id : ClassId) (slot : Nat) (v : Value), Keeps R (Statics.write id slot v)
  setField : ∀ (field : LinkedField) (machine : Machine), Linking.Declared machine field →
    field.isStatic = false → R machine →
      (setField field length).Ends machine (fun _ => P) fun _ => P
  native : ∀ (native : Native) (arguments : List Value), Keeps P (native.run arguments)
  enter : ∀ frame : Frame, frame.bci = 0 → frame.initializing = none → Keeps P (pushFrame frame)
  hand : ∀ v : Value, Keeps P (pushOnCaller v)
  leave : ∀ frame : Frame, Keeps P (leave frame)

/-- What all parts of an instruction keep. -/
structure Parts (length : Nat) (R P : Machine → Prop) : Prop extends Handles length R P where
  allocate : ∀ (c : LinkedClass) (machine : Machine), c ∈ machine.classes → R machine →
    (allocate c).Ends machine (fun _ => R) fun _ => R

namespace Handles

variable {length : Nat} {R P : Machine → Prop}

theorem rests_pop (parts : Handles length R P) (type : BasicType) :
    Keeps R (onTop (FrameM.pop type)) :=
  parts.takes (FrameM.admits_rests.pop type)

theorem rests_popRef (parts : Handles length R P) : Keeps R (onTop FrameM.popRef) :=
  parts.takes FrameM.admits_rests.popRef

theorem advance (parts : Handles length R P) : Carries R P (onTop (FrameM.advance length)) :=
  parts.moves .nop

/-- A value is pushed before the frame moves on. -/
theorem push_advance (parts : Handles length R P) (v : Value) :
    Carries R P (onTop do
      FrameM.push v
      FrameM.advance length) :=
  parts.moves (.push v)

theorem loadConstant (parts : Handles length R P) (index : Nat) (wide : Bool) :
    Carries R P (loadConstant index wide length) := by
  refine carries_bind keeps_currentPool parts.weaken fun pool => ?_
  refine carries_bind (keeps_ofFault _) parts.weaken fun constant => ?_
  refine carries_bind (parts.loadedValue constant) parts.weaken fun v => ?_
  exact parts.push_advance v

/-- What is done with a class once it is ready. -/
theorem whenReady (parts : Handles length R P) {machine : Machine} {c : LinkedClass}
    (known : c ∈ machine.classes) (holds : R machine) {action : Exec Unit}
    (rest : ∀ later : Machine, machine.Grows later → R later →
      action.Ends later (fun _ => P) fun _ => P) :
    (do if ← Initialization.ensureReady c then action).Ends machine (fun _ => P) fun _ => P := by
  refine ((parts.ready c machine known holds).and (ends_ensureReady_grows c machine)).before
    (fun ready later ended => ?_) fun _ _ ended => ended.1
  obtain ⟨kept, grows⟩ := ended
  cases ready with
  | true => exact rest later grows kept
  | false => exact ends_pure kept

/-- An object is created of a class of which one may be allocated. -/
theorem ends_create (parts : Handles length R P) {machine : Machine} (holds : R machine)
    {index : Nat} (allocates : ∀ (pool : Pool) (c : LinkedClass) (linked ready : Machine),
      currentPool machine = .ok pool machine →
      Linking.resolveNew pool index machine = .ok c linked → c ∈ ready.classes → R ready →
      (allocate c).Ends ready (fun _ => R) fun _ => R) :
    (create index length).Ends machine (fun _ => P) fun _ => P := by
  have reads := (keeps_currentPool (P := (· = machine)) machine rfl).and ends_self
  refine reads.before (fun pool later read => ?_) fun _ later read => ?_
  · obtain ⟨rfl, found⟩ := read
    have finds := ((Linking.keeps_resolveNew parts.resolve pool index later holds).and
      (Linking.ends_resolveNew pool index (Steady.refl later))).and ends_self
    refine finds.before (fun c linked found' => ?_) fun _ linked found' =>
      parts.weaken linked found'.1.1
    obtain ⟨⟨holds', -, known⟩, run⟩ := found'
    refine parts.whenReady known holds' fun ready grows holds'' => ?_
    refine (allocates pool c linked ready found run (grows.mem known) holds'').before
      (fun ref later kept => ?_) fun _ later kept => parts.weaken later kept
    exact parts.push_advance _ later kept
  · rw [read.1]
    exact parts.weaken machine holds

theorem getStatic (parts : Handles length R P) {machine : Machine} {field : LinkedField}
    (known : field.owner ∈ machine.classes) (holds : R machine) :
    (getStatic field length).Ends machine (fun _ => P) fun _ => P := by
  refine parts.whenReady known holds fun ready _ holds' => ?_
  have reads : Keeps R (Statics.read field.owner.id field.slot) :=
    keeps_bind keeps_thread fun _ => by
      split
      · exact keeps_pure _
      · exact keeps_violate _
  exact carries_bind reads parts.weaken (fun v => parts.push_advance v) ready holds'

theorem putStatic (parts : Handles length R P) {machine : Machine} {field : LinkedField}
    (known : field.owner ∈ machine.classes) (holds : R machine) :
    (putStatic field length).Ends machine (fun _ => P) fun _ => P := by
  refine parts.whenReady known holds fun ready _ holds' => ?_
  refine carries_bind (parts.rests_pop _) parts.weaken (fun v => ?_) ready holds'
  exact carries_bind (parts.write _ _ _) parts.weaken fun _ => parts.advance

theorem getField (parts : Handles length R P) (field : LinkedField) :
    Carries R P (getField field length) := by
  refine carries_bind parts.rests_popRef parts.weaken fun object => ?_
  cases object with
  | none => exact (keeps_fail _).carries parts.weaken
  | some ref =>
      refine carries_bind (keeps_checkField ref field) parts.weaken fun _ => ?_
      have reads : Keeps R (Exec.field ref field.slot) :=
        keeps_bind (keeps_object ref) fun _ => keeps_pure _
      exact carries_bind reads parts.weaken fun v => parts.push_advance v

theorem accessField (parts : Handles length R P) (access : FieldAccess) (index : Nat) :
    Carries R P (accessField access index length) := by
  refine carries_bind keeps_currentPool parts.weaken fun pool machine holds => ?_
  have finds := (Linking.keeps_resolveField parts.resolve pool index access machine holds).and
    (Linking.ends_resolveField pool index access (Steady.refl machine))
  refine finds.before (fun field linked found => ?_)
    fun _ linked found => parts.weaken linked found.1
  obtain ⟨holds', -, declared, static⟩ := found
  cases access with
  | getStatic => exact parts.getStatic declared.1 holds'
  | putStatic => exact parts.putStatic declared.1 holds'
  | getField => exact parts.getField field linked holds'
  | putField => exact parts.setField field linked declared static holds'

/-! ## Calls -/

theorem callNative (parts : Handles length R P) (method : Method) (arguments : List Value) :
    Keeps P (callNative method arguments) := by
  unfold Exec.callNative
  split
  · exact keeps_fail _
  · refine keeps_bind (parts.native _ arguments) fun answer => ?_
    dsimp only
    split
    · exact keeps_guard (parts.gives _)
    · exact keeps_pure _

theorem enterMethod (parts : Handles length R P) (method : Method) (arguments : List Value) :
    Keeps P (Exec.enter method arguments) := by
  unfold Exec.enter
  split
  · exact parts.callNative method arguments
  · split
    · exact keeps_fail _
    · intro machine holds
      refine ends_bind_ofHalt (fun callee made => ?_) fun _ _ => holds
      obtain ⟨locals, rfl⟩ := Frame.withArguments_eq_ok made
      exact parts.enter _ rfl rfl machine holds

theorem popReceiver (parts : Handles length R P) (method : Method) :
    Keeps R (popReceiver method) := by
  refine keeps_bind parts.rests_popRef fun object => ?_
  split
  · exact keeps_pure _
  · exact keeps_fail _

theorem rests_popArguments (types : List BasicType) :
    FrameM.Leads Frame.Rests (popArguments types) := by
  have pops : ∀ types : List BasicType, FrameM.Leads Frame.Rests (types.mapM FrameM.pop) := by
    intro types
    induction types with
    | nil => exact FrameM.admits_rests.pure _
    | cons type rest ih =>
        rw [List.mapM_cons]
        exact FrameM.admits_rests.bind (FrameM.admits_rests.pop type) fun v =>
          FrameM.admits_rests.bind ih fun _ => FrameM.admits_rests.pure _
  exact FrameM.admits_rests.bind (pops _) fun _ => FrameM.admits_rests.pure _

theorem callWith (parts : Handles length R P) (kind : InvokeKind) (method : Method) :
    Carries R P (callWith kind method length) := by
  intro machine holds
  unfold Exec.callWith
  dsimp only
  refine ends_guard (fun _ => parts.weaken machine holds) fun _ => ?_
  have pops : Keeps R (onTop (popArguments (Descriptor.paramTypes method.descriptor))) :=
    parts.takes (rests_popArguments _)
  refine carries_bind pops parts.weaken (fun arguments => ?_) machine holds
  have enters : ∀ (callee : Method) (arguments : List Value), Carries R P (do
      onTop (FrameM.advance length)
      Exec.enter callee arguments) := fun callee arguments =>
    parts.advance.bind fun _ => parts.enterMethod callee arguments
  have receives : Carries R P (do
      let receiver ← Exec.popReceiver method
      let selected ← callee kind method receiver
      onTop (FrameM.advance length)
      Exec.enter selected (.ref (some receiver) :: arguments)) := by
    refine carries_bind (parts.popReceiver method) parts.weaken fun receiver => ?_
    refine carries_bind (keeps_callee kind method receiver) parts.weaken fun selected => ?_
    exact enters selected _
  cases kind with
  | static => exact enters method arguments
  | _ => exact receives

theorem invoke (parts : Handles length R P) (kind : InvokeKind) (index : Nat) :
    Carries R P (invoke kind index length) := by
  refine carries_bind keeps_topFrame parts.weaken fun top => ?_
  refine carries_bind (keeps_holder top) parts.weaken fun caller => ?_
  refine carries_bind (Linking.keeps_resolveInvoke parts.resolve _ _ _ _) parts.weaken fun method => ?_
  intro machine holds
  have asks : (readyToCall kind method).Ends machine
      (fun ready later => if ready = true then R later else P later) fun _ => P := by
    unfold readyToCall
    split
    · exact ends_bind_classOf
        (fun c found => parts.ready c machine (mem_of_classOf? found).1 holds)
        fun _ => parts.weaken machine holds
    · exact ends_throw (parts.weaken machine holds)
    · exact ends_pure holds
  refine asks.bind fun ready later kept => ?_
  cases ready with
  | true => exact parts.callWith kind method later kept
  | false => exact kept

theorem returnValue (parts : Handles length R P) (type : BasicType) :
    Carries R P (returnValue type) := by
  refine carries_bind keeps_topFrame parts.weaken fun top machine holds => ?_
  dsimp only
  refine ends_guard (fun _ => parts.weaken machine holds) fun _ => ?_
  have leaves : ∀ v : Value, Keeps P (do
      Exec.leave top
      return if top.isEntry then some v else none : Exec (Option Value)) := fun v =>
    keeps_bind (parts.leave top) fun _ => keeps_pure _
  have hands : ∀ v : Value, Keeps P (do
      if ¬ top.isEntry ∧ type ≠ .void then pushOnCaller v
      Exec.leave top
      return if top.isEntry then some v else none : Exec (Option Value)) := by
    intro v
    dsimp only
    split
    · exact keeps_bind (parts.hand v) fun _ => leaves v
    · exact leaves v
  split
  · exact hands .void machine (parts.weaken machine holds)
  · exact carries_bind (parts.rests_pop type) parts.weaken
      (fun v later kept => hands v later (parts.weaken later kept)) machine holds

/-! ## One instruction -/

/-- What the parts of an instruction keep is kept by the instruction, if it is kept where an object
is created. -/
theorem ends_execute (parts : Handles length R P) {machine : Machine} (holds : R machine)
    (instr : Instr) (creates : ∀ index, instr = .allocate index →
      (create index length).Ends machine (fun _ => P) fun _ => P) :
    (execute instr length).Ends machine (fun _ => P) fun _ => P := by
  have none : Keeps P (pure none : Exec (Option Value)) := keeps_pure _
  cases instr with
  | inFrame instr => exact (parts.moves instr).bind (fun _ => none) machine holds
  | constant index wide => exact (parts.loadConstant index wide).bind (fun _ => none) machine holds
  | ret type => exact parts.returnValue type machine holds
  | field access index => exact (parts.accessField access index).bind (fun _ => none) machine holds
  | invoke kind index => exact (parts.invoke kind index).bind (fun _ => none) machine holds
  | allocate index => exact (creates index rfl).bind fun _ later kept => none later kept

end Handles

/-- What all parts of an instruction keep is kept by the instruction. -/
theorem Parts.execute {length : Nat} {R P : Machine → Prop} (parts : Parts length R P)
    (instr : Instr) : Carries R P (execute instr length) := fun _ holds =>
  parts.toHandles.ends_execute holds instr fun _ _ =>
    parts.toHandles.ends_create holds fun _ c _ ready _ _ => parts.allocate c ready

/-- What the parts of every instruction keep is kept by a step, if the frame on top is known to
hold the instruction that it executes. -/
theorem keeps_step_of_parts {P : Machine → Prop} {R : Nat → Machine → Prop}
    (parts : ∀ length, Parts length (R length) P)
    (trace : ∀ (wanted : Options → Bool) (line : String), Keeps P (trace wanted line))
    (fits : ∀ (machine : Machine) (top : Frame) (below : List Frame) (instr : Instr)
      (length : Nat), P machine → machine.thread.frames = top :: below →
        top.next? = some (instr, length) → R length machine) : Keeps P step := by
  intro machine holds
  cases frames : machine.thread.frames with
  | nil =>
      have stops : topFrame.Ends machine (fun _ _ => False) fun _ => P := by
        refine ends_bind_get ?_
        rw [frames]
        exact holds
      exact stops.before (fun _ _ impossible => impossible.elim) fun _ _ left => left
  | cons top below =>
      refine ends_step_of (fun later => P later ∧ machine.Steady later) frames
        ⟨holds, Steady.refl machine⟩ (fun opcode later known => ?_) (fun _ known => known.1)
        fun instr length traced next known => ?_
      · have traced : Keeps P (traceInstruction opcode) := by
          refine keeps_bind keeps_get fun machine => ?_
          split
          · exact keeps_bind keeps_topFrame fun frame => trace _ _
          · exact keeps_pure _
        exact (traced later known.1).and (keeps_traceInstruction opcode later known.2)
      · have frames' := known.2.frames.trans frames
        exact (parts length).execute instr traced (fits traced top below instr length known.1 frames' next)

end Exec

end Jvm
