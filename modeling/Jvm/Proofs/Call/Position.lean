/-
# Jvm.Proofs.Call.Position — a run stays in the code

Every frame of a machine stands in the code of its method or right behind it
(`Machine.Placed`). An instruction is executed only if all of it is in the code, and its operands
are in it as well, so executing it depends on no byte behind it (`Exec.executeAt_congr`). A step
leaves every frame placed, whether it answers or halts, and so does everything else in a session.
-/
import Jvm.Proofs.Call.Balance
import Jvm.Proofs.Frame.Operands
import Jvm.Proofs.Machine.Isolation
import Jvm.Proofs.Machine.Parts

namespace Jvm

set_option autoImplicit false

open Machine Exec

namespace Exec

/-- An instruction that has no template or does not fit in the code is not executed. -/
theorem executeAt_eq_fail {code : Code} {bci opcode : Nat}
    (stuck : Opcode.isExecutable opcode = false ∨ code.instructionLength? code.size bci = none) :
    ∃ cause, executeAt code bci opcode = fail cause := by
  unfold executeAt
  cases executable : Opcode.isExecutable opcode with
  | false => exact ⟨_, rfl⟩
  | true =>
      have unmeasured := stuck.resolve_left (by rw [executable]; decide)
      rw [unmeasured]
      exact ⟨_, rfl⟩

/-- Executing an instruction depends on the bytes of the instruction alone. -/
theorem executeAt_congr {code other : Code} {bci length : Nat}
    (executable : Opcode.isExecutable (code.byteAt bci).toNat = true)
    (measured : code.instructionLength? code.size bci = some length)
    (agree : Code.Agree bci (bci + length) code other) :
    Instr.decode other bci = Instr.decode code bci ∧
      executeAt other bci (code.byteAt bci).toNat = executeAt code bci (code.byteAt bci).toNat := by
  obtain ⟨-, declared, fits⟩ := Code.instructionLength?_eq_some.mp measured
  have extent := Code.measured_of_declared executable declared
  have some : bci < bci + length := Nat.lt_add_of_pos_right extent.pos
  have reaches := agree.le_size some fits
  have same : other.instructionLength? other.size bci = Option.some length :=
    Code.instructionLength?_eq_some.mpr
      ⟨Nat.lt_of_lt_of_le some reaches, agree.declaredLength? reaches extent, reaches⟩
  have decodes := Instr.decode_congr agree executable extent
  refine ⟨decodes, ?_⟩
  unfold executeAt
  rw [measured, same]
  dsimp only
  rw [decodes]

end Exec

namespace Machine

/-- Every frame, of whatever thread, stands in the code of its method or right behind it. -/
structure Placed (machine : Machine) : Prop where
  mine : ∀ frame ∈ machine.thread.frames, frame.Placed
  parked : ∀ thread ∈ machine.parked, ∀ frame ∈ thread.frames, frame.Placed

/-- The frame on top has room for an instruction of the given length. -/
structure HasRoom (length : Nat) (machine : Machine) : Prop extends machine.Placed where
  top : ∀ top below, machine.thread.frames = top :: below → top.Holds length

variable {machine later : Machine} {length : Nat}

/-- Growth leaves the frames of the other threads alone. -/
theorem Placed.grows (placed : machine.Placed) (grows : machine.Grows later)
    (mine : ∀ frame ∈ later.thread.frames, frame.Placed) : later.Placed := by
  refine ⟨mine, fun thread waits frame held => ?_⟩
  obtain ⟨old, waited, frames⟩ := grows.frames_parked waits
  exact placed.parked old waited frame (frames ▸ held)

theorem Placed.aside (placed : machine.Placed) (aside : machine.Aside later) : later.Placed :=
  placed.grows aside.toGrows (aside.frames ▸ placed.mine)

theorem Placed.starts (placed : machine.Placed) (starts : machine.Starts later) :
    later.Placed := by
  obtain ⟨grown, c, method, aside, -, -, -, rfl⟩ := starts
  have placed' := placed.aside aside
  refine ⟨fun frame held => ?_, placed'.parked⟩
  rcases List.mem_cons.mp held with rfl | below
  · exact Nat.zero_le _
  · exact placed'.mine frame below

theorem Placed.withTop (placed : machine.Placed) {top frame : Frame} {below : List Frame}
    (frames : machine.thread.frames = top :: below) (here : frame.Placed) :
    (machine.withTop frame).Placed := by
  refine placed.grows (grows_withTop machine frame) fun other held => ?_
  rw [frames_withTop frames] at held
  rcases List.mem_cons.mp held with rfl | member
  · exact here
  · exact placed.mine other (frames ▸ List.mem_cons_of_mem top member)

theorem HasRoom.aside (room : machine.HasRoom length) (aside : machine.Aside later) :
    later.HasRoom length :=
  ⟨room.toPlaced.aside aside, fun top below frames => room.top top below (aside.frames ▸ frames)⟩

end Machine

/-! ## Steps -/

namespace Exec

variable {length : Nat}

theorem Keeps.hasRoom {α : Type} {action : Exec α}
    (keeps : ∀ machine : Machine, Keeps machine.Aside action) : Keeps (HasRoom length) action :=
  fun machine room => (keeps machine machine (Aside.refl machine)).mono
    (fun _ _ aside => room.aside aside) fun _ _ aside => room.aside aside

theorem Keeps.placed {α : Type} {action : Exec α}
    (keeps : ∀ machine : Machine, Keeps machine.Aside action) : Keeps Placed action :=
  fun machine placed => (keeps machine machine (Aside.refl machine)).mono
    (fun _ _ aside => placed.aside aside) fun _ _ aside => placed.aside aside

theorem keeps_onTop_hasRoom {α : Type} {action : FrameM α}
    (leads : FrameM.Leads Frame.Rests action) : Keeps (HasRoom length) (onTop action) := by
  intro machine room
  cases frames : machine.thread.frames with
  | nil => exact ends_onTop_nil frames room
  | cons top below =>
      have rests : ∀ frame : Frame, top.Rests frame → (machine.withTop frame).HasRoom length := by
        intro frame rests
        have holds := rests.holds (room.top top below frames)
        refine ⟨room.withTop frames holds.placed, fun top' below' frames' => ?_⟩
        rw [frames_withTop frames] at frames'
        cases frames'
        exact holds
      exact ends_onTop frames (fun _ frame run => rests frame (leads.of_ok run))
        fun _ frame run => rests frame (leads.of_error run)

theorem carries_onTop_moves (instr : LocalInstr) :
    Carries (HasRoom length) Placed (onTop (instr.run length)) := by
  intro machine room
  cases frames : machine.thread.frames with
  | nil => exact ends_onTop_nil frames room.toPlaced
  | cons top below =>
      have holds := room.top top below frames
      have moves := instr.moves_run length
      exact ends_onTop frames
        (fun _ frame run => room.withTop frames ((moves.of_ok run).placed holds))
        fun _ frame run => room.withTop frames ((moves.of_error run).placed holds)

theorem keeps_onTop_placed {α : Type} {action : FrameM α}
    (leads : FrameM.Leads Frame.Rests action) : Keeps Placed (onTop action) := by
  intro machine placed
  cases frames : machine.thread.frames with
  | nil => exact ends_onTop_nil frames placed
  | cons top below =>
      have here := placed.mine top (frames ▸ List.mem_cons_self)
      exact ends_onTop frames
        (fun _ frame run => placed.withTop frames ((leads.of_ok run).placed here))
        fun _ frame run => placed.withTop frames ((leads.of_error run).placed here)

theorem keeps_pushOnCaller_placed (v : Value) : Keeps Placed (pushOnCaller v) := by
  intro machine placed
  refine ends_bind_thread ?_
  split
  · rename_i top caller rest frames
    split
    · rename_i pushed _
      refine placed.grows ((Grows.refl machine).step rfl rfl rfl rfl rfl rfl) fun frame held => ?_
      have changed : machine.thread.frames.modify 1
          (fun frame => { frame with stack := pushed }) =
            top :: { caller with stack := pushed } :: rest := by
        rw [frames]
        rfl
      have held : frame ∈ machine.thread.frames.modify 1
          (fun frame => { frame with stack := pushed }) := held
      rw [changed] at held
      rcases List.mem_cons.mp held with rfl | below
      · exact placed.mine _ (frames ▸ List.mem_cons_self)
      · rcases List.mem_cons.mp below with rfl | deeper
        · exact placed.mine caller (frames ▸ List.mem_cons_of_mem _ List.mem_cons_self)
        · exact placed.mine frame
            (frames ▸ List.mem_cons_of_mem _ (List.mem_cons_of_mem _ deeper))
    · exact placed
  · exact placed

theorem keeps_leave_placed (frame : Frame) : Keeps Placed (leave frame) := by
  have pops : Keeps Placed popFrame := by
    refine keeps_modify fun machine placed => ?_
    exact placed.grows ((Grows.refl machine).step rfl rfl rfl rfl rfl rfl) fun frame held =>
      placed.mine frame (List.mem_of_mem_tail held)
  unfold leave
  split
  · exact keeps_bind (.placed fun _ => keeps_setState _ _) fun _ => pops
  · exact pops

theorem keeps_pushFrame_placed {frame : Frame} (start : frame.bci = 0) :
    Keeps Placed (pushFrame frame) := by
  intro machine placed
  refine ends_pushFrame (fun _ => ?_) fun _ => placed
  refine ⟨fun other held => ?_, placed.parked⟩
  rcases List.mem_cons.mp held with rfl | below
  · unfold Frame.Placed
    omega
  · exact placed.mine other below

/-- An instruction that its frame has room for leaves every frame placed. -/
theorem parts_placed (length : Nat) : Parts length (HasRoom length) Placed where
  weaken _ room := room.toPlaced
  takes leads := keeps_onTop_hasRoom leads
  moves := carries_onTop_moves
  gives v := keeps_onTop_placed (FrameM.admits_rests.push v)
  resolve name := .hasRoom fun _ => .aside fun _ => Loading.keeps_resolve name
  ready c machine _ room :=
    (Initialization.ends_ensureReady c (Aside.refl machine)).mono
      (fun ready later ended => by
        cases ready with
        | true => exact room.aside ended
        | false => exact room.toPlaced.starts ended)
      fun _ _ aside => room.toPlaced.aside aside
  loadedValue constant := .hasRoom fun _ => .aside fun _ => keeps_loadedValue constant
  allocate c machine _ room := Keeps.hasRoom (fun _ => .aside fun _ => keeps_allocate c) machine room
  write id slot v := .hasRoom fun _ => keeps_write id slot v
  setField field machine _ _ room := by
    have weaken : ∀ machine : Machine, machine.HasRoom length → machine.Placed :=
      fun _ room => room.toPlaced
    refine carries_bind (keeps_onTop_hasRoom (FrameM.admits_rests.pop _)) weaken (fun v => ?_)
      machine room
    refine carries_bind (keeps_onTop_hasRoom FrameM.admits_rests.popRef) weaken fun object => ?_
    cases object with
    | none => exact (keeps_fail _).carries weaken
    | some ref =>
        refine carries_bind (keeps_checkField ref field) weaken fun _ => ?_
        refine carries_bind (.hasRoom fun _ => .aside fun _ => keeps_putField _ _ _) weaken
          fun _ => ?_
        exact carries_onTop_moves .nop
  native native arguments := .placed fun _ => keeps_native native arguments
  enter frame start _ := keeps_pushFrame_placed start
  hand := keeps_pushOnCaller_placed
  leave := keeps_leave_placed

theorem keeps_step_placed : Keeps Placed step := by
  refine keeps_step_of_parts parts_placed (fun wanted line => .placed fun _ => .aside fun _ =>
    keeps_trace wanted line) fun machine top below instr length placed frames next => ?_
  refine ⟨placed, fun top' below' frames' => ?_⟩
  rw [frames] at frames'
  cases frames'
  unfold Frame.next? at next
  dsimp only at next
  split at next
  · cases next
  · split at next
    · obtain ⟨_, measured, same⟩ := Option.map_eq_some_iff.mp next
      obtain ⟨-, rfl⟩ := Prod.mk.inj same
      exact Code.length_add_le measured
    · cases next

end Exec

/-! ## Sessions -/

theorem kept_placed : Call.Kept Placed Placed where
  weaken _ placed := placed
  state _ _ placed := ⟨placed.mine, placed.parked⟩
  ready c machine _ placed :=
    (Initialization.ends_ensureReady c (Aside.refl machine)).mono
      (fun ready later ended => by
        cases ready with
        | true => exact placed.aside ended
        | false => exact placed.starts ended)
      fun _ _ aside => placed.aside aside
  step := keeps_step_placed
  native native arguments := Keeps.placed fun _ => keeps_native native arguments
  enter frame start _ machine _ := keeps_pushFrame_placed start machine
  unwind machine depth state placed := by
    refine ⟨fun frame held => placed.mine frame ?_, placed.parked⟩
    have held : frame ∈ (machine.thread.unwindTo depth).frames := held
    rw [Thread.unwindTo, Call.frames_dropFrames] at held
    exact List.mem_of_mem_drop held

namespace Machine

theorem lasting_placed : Lasting Placed where
  start started := by
    obtain ⟨heap, rfl⟩ := exists_start started
    exact Placed.aside ⟨fun _ held => (List.not_mem_nil held).elim, fun _ parked =>
      (List.not_mem_nil parked).elim⟩ (steady_withBuiltins _).toAside
  kept := kept_placed
  resolve name := .placed fun _ => .aside fun _ => Loading.keeps_resolve name
  define read := .placed fun _ => .aside fun _ => Loading.keeps_define (.inl ⟨_, _, read⟩)
  create machine _ _ placed _ := by
    refine ⟨fun _ held => (List.not_mem_nil held).elim, fun thread member => ?_⟩
    rcases List.mem_cons.mp member with rfl | parked
    · exact placed.mine
    · exact placed.parked thread parked
  switch machine thread placed waited := by
    refine ⟨placed.parked thread waited, fun other member => ?_⟩
    rcases List.mem_cons.mp member with rfl | kept
    · exact placed.mine
    · exact placed.parked other (List.mem_filter.mp kept).1

/-- An instruction that is executed has a template and ends in the code, and no byte around it
decides what it is or does: in any other code that has its bytes, it is the same. In whatever code,
every frame of a machine stands in the code or right behind it, a step leaves it so, and every
machine of a session has its frames so. -/
theorem operands_within_instruction :
    (∀ (code : Code) (bci : Nat) (byte : UInt8), code[bci]? = some byte →
      (∀ length, Opcode.isExecutable byte.toNat = true →
        code.instructionLength? code.size bci = some length →
        0 < length ∧ bci + length ≤ code.size ∧
        ∀ other, Code.Agree bci (bci + length) code other →
          Instr.decode other bci = Instr.decode code bci ∧
          executeAt other bci byte.toNat = executeAt code bci byte.toNat) ∧
      (Opcode.isExecutable byte.toNat = false ∨ code.instructionLength? code.size bci = none →
        ∃ cause, executeAt code bci byte.toNat = fail cause)) ∧
    (∀ (machine : Machine), machine.Placed →
      (∀ answer later, step machine = .ok answer later → later.Placed) ∧
      ∀ halt later, step machine = .error halt later → later.Placed) ∧
    ∀ machine, Reached (fun _ => True) machine → machine.Placed := by
  refine ⟨fun code bci byte present => ⟨fun length executable measured => ?_, executeAt_eq_fail⟩,
    fun machine placed => ?_, fun machine reached => lasting_placed.reached reached⟩
  · obtain rfl : code.byteAt bci = byte := Code.byteAt_of_getElem? present
    obtain ⟨-, declared, fits⟩ := Code.instructionLength?_eq_some.mp measured
    have extent := Code.measured_of_declared executable declared
    exact ⟨extent.pos, fits, fun other agree => executeAt_congr executable measured agree⟩
  · have kept := keeps_step_placed machine placed
    exact ⟨fun _ _ ran => kept.of_ok ran, fun _ _ ran => kept.of_error ran⟩

/-! ## A switch that is not aligned -/

/-- A `tableswitch` with one target at the second byte of a code, so that two bytes are skipped
before its operands. -/
def switching : Code :=
  #[26, 170, 0, 0, 0, 0, 0, 19, 0, 0, 0, 7, 0, 0, 0, 7, 0, 0, 0, 20, 4, 172]

/-- The same with another instruction before it and none behind it. -/
def switchingAlone : Code := #[27] ++ switching.extract 1 20

theorem operands_within_instruction_switching :
    switching.instructionLength? switching.size 1 = some 19 ∧
    Code.Agree 1 20 switching switchingAlone ∧
    Instr.decode switchingAlone 1 = Instr.decode switching 1 ∧
    executeAt switchingAlone 1 170 = executeAt switching 1 170 ∧
    (∃ cause, executeAt (switching.extract 0 19) 1 170 = fail cause) ∧
    (∃ later, step callingAdd = .ok none later ∧ later.Placed) ∧
    (adding.calling "addFive" 16 [.int 37]).Placed := by
  have measured : switching.instructionLength? switching.size 1 = some 19 := by decide +kernel
  have agree : Code.Agree 1 20 switching switchingAlone := by
    have same : ∀ index < 20, 1 ≤ index → switchingAlone[index]? = switching[index]? := by decide
    exact fun index above below => same index below above
  have placed : callingAdd.Placed := by
    refine ⟨?_, ?_⟩
    · show ∀ frame ∈ callingAdd.thread.frames, frame.bci ≤ frame.method.codeSize
      decide +kernel
    · show ∀ thread ∈ callingAdd.parked, ∀ frame ∈ thread.frames, frame.bci ≤ frame.method.codeSize
      decide +kernel
  have ran := step_of_stepsOn (show callingAdd.stepsOn = true by decide +kernel)
  obtain ⟨-, -, same⟩ :=
    (operands_within_instruction.1 switching 1 170 (by decide)).1 19 (by decide) measured
  exact ⟨measured, agree, (same switchingAlone agree).1, (same switchingAlone agree).2,
    (operands_within_instruction.1 (switching.extract 0 19) 1 170 (by decide)).2
      (.inr (by decide +kernel)),
    ⟨_, ran, (operands_within_instruction.2.1 callingAdd placed).1 _ _ ran⟩,
    operands_within_instruction.2.2 _ (.between (session_adding.calling trivial _ _ _))⟩

end Machine

end Jvm
