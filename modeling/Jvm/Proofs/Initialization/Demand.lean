/-
# Jvm.Proofs.Initialization.Demand — the instructions that need a class

Reading and assigning a static field, creating an object and calling a static method need a class
to be ready. All four do the same: they look the class up and ask for it, and only if it is ready
they go on (`execute_of_demand`, `step_of_request`). What they look up first leaves the call stack
and the records alone (`keeps_request`), and it does not change when classes are added
(`Repeats`): so an instruction that is executed again asks for the same class.
-/
import Jvm.Proofs.Machine.Bootstrap
import Jvm.Proofs.Machine.Records

namespace Jvm

set_option autoImplicit false

open Exec Machine

/-- What an instruction needs a class for: the class, and what is done once it is ready. -/
structure Demand where
  target : LinkedClass
  use : Exec Unit

namespace Exec

/-- What an instruction that needs a class looks up before it asks for the class. -/
def demand? : Instr → Nat → Option (Exec Demand)
  | .field .getStatic index, length => some do
      let field ← Linking.resolveField (← currentPool) index .getStatic
      return ⟨field.owner, do
        let v ← Statics.read field.owner.id field.slot
        onTop do
          FrameM.push v
          FrameM.advance length⟩
  | .field .putStatic index, length => some do
      let field ← Linking.resolveField (← currentPool) index .putStatic
      return ⟨field.owner, do
        let v ← onTop (FrameM.pop field.type)
        Statics.write field.owner.id field.slot (narrowedTo field.type v)
        onTop (FrameM.advance length)⟩
  | .allocate index, length => some do
      let c ← Linking.resolveNew (← currentPool) index
      return ⟨c, do
        let ref ← allocate c
        onTop do
          FrameM.push (.ref (some ref))
          FrameM.advance length⟩
  | .invoke .static index, length => some do
      let caller ← holder (← topFrame)
      let method ← Linking.resolveInvoke caller.pool index .static (some caller)
      match method.owner with
      | some id => return ⟨← classOf id, callWith .static method length⟩
      | none => violate .unknownClass
  | _, _ => none

/-- Ask for the class, and use it if it is ready. -/
def serve (demand : Demand) : Exec Unit := do
  if ← Initialization.ensureReady demand.target then demand.use

theorem execute_of_demand {instr : Instr} {length : Nat} {request : Exec Demand}
    (demands : demand? instr length = some request) :
    execute instr length = (do
      serve (← request)
      return none) := by
  unfold demand? at demands
  split at demands
  · cases demands
    simp only [execute, accessField, getStatic, serve, bind_assoc, pure_bind]
  · cases demands
    simp only [execute, accessField, putStatic, serve, bind_assoc, pure_bind]
  · cases demands
    simp only [execute, create, serve, bind_assoc, pure_bind]
  · cases demands
    simp only [execute, invoke, serve, bind_assoc]
    congr 1; funext frame; congr 1; funext caller; congr 1; funext method
    unfold readyToCall
    cases method.owner with
    | none => rfl
    | some id => simp only [bind_assoc, pure_bind]
  · cases demands

end Exec

/-- What a frame looks up for its next instruction, if that needs a class. The instruction is
traced first. -/
def Frame.request? (frame : Frame) : Option (Exec Demand) :=
  match frame.method.code[frame.bci]?, frame.next? with
  | some byte, some (instr, length) => (demand? instr length).map fun request => do
      traceInstruction byte.toNat
      request
  | _, _ => none

namespace Exec

variable {machine before : Machine} {top : Frame} {below : List Frame} {request : Exec Demand}

theorem request?_eq_some (asks : top.request? = some request) :
    ∃ byte instr length looks, top.method.code[top.bci]? = some byte ∧
      top.next? = some (instr, length) ∧ demand? instr length = some looks ∧
      request = (do
        traceInstruction byte.toNat
        looks) := by
  unfold Frame.request? at asks
  split at asks
  · rename_i byte instr length present next
    obtain ⟨looks, demands, rfl⟩ := Option.map_eq_some_iff.mp asks
    exact ⟨byte, instr, length, looks, present, next, demands, rfl⟩
  · cases asks

/-- The class that the next instruction needs, and the machine that has looked it up. -/
def requested? (machine : Machine) : Option (LinkedClass × Machine) := do
  let top ← machine.thread.frames.head?
  let request ← top.request?
  match request machine with
  | .ok demand asked => some (demand.target, asked)
  | .error _ _ => none

theorem requested?_eq_some {target : LinkedClass} {asked : Machine}
    (needs : requested? machine = some (target, asked)) :
    ∃ top below request demand, machine.thread.frames = top :: below ∧
      top.request? = some request ∧ request machine = .ok demand asked ∧ demand.target = target := by
  obtain ⟨top, frames, needs⟩ := Option.bind_eq_some_iff.mp needs
  obtain ⟨request, asks, needs⟩ := Option.bind_eq_some_iff.mp needs
  obtain ⟨below, frames⟩ := List.head?_eq_some_iff.mp frames
  split at needs
  · cases needs
    exact ⟨top, below, request, _, frames, asks, ‹_›, rfl⟩
  · cases needs

/-- A step of an instruction that needs a class. A fault only gets its place. -/
theorem step_of_request (frames : machine.thread.frames = top :: below)
    (asks : top.request? = some request) :
    ∃ place : Fault → Fault, step machine = mapFault place (do
      serve (← request)
      return none) machine := by
  obtain ⟨byte, instr, length, looks, present, next, demands, rfl⟩ := request?_eq_some asks
  have here := topFrame_eq_ok frames
  refine ⟨fun fault => fault.atSite (siteOf top.method top.bci (some byte.toNat)), ?_⟩
  have executes : executeAt top.method.code top.bci byte.toNat = (do
      traceInstruction byte.toNat
      execute instr length) := by
    unfold Frame.next? at next
    dsimp only at next
    rw [present] at next
    dsimp only at next
    split at next
    · rename_i executable
      obtain ⟨measured, found, same⟩ := Option.map_eq_some_iff.mp next
      cases same
      unfold executeAt
      rw [if_neg (by simpa using executable), found]
    · cases next
  refine (bind_of_ok here).trans ?_
  dsimp only
  rw [present]
  dsimp only
  rw [executes, execute_of_demand demands]
  simp only [bind_assoc]
  rfl

/-- What is looked up leaves the call stack and the records alone, and the class is one of the
dictionary. -/
theorem ends_demand {instr : Instr} {length : Nat} {looks : Exec Demand}
    (demands : demand? instr length = some looks) (steady : before.Steady machine) :
    looks.Ends machine (fun demand later => before.Steady later ∧ demand.target ∈ later.classes)
      fun _ later => before.Steady later := by
  have field (index : Nat) (access : FieldAccess) (use : LinkedField → Exec Unit) :
      (do
        let field ← Linking.resolveField (← currentPool) index access
        return (⟨field.owner, use field⟩ : Demand)).Ends machine
        (fun demand later => before.Steady later ∧ demand.target ∈ later.classes)
        fun _ later => before.Steady later := by
    refine keeps_currentPool.before steady (fun pool found steady => ?_) fun _ _ steady => steady
    exact (Linking.ends_resolveField pool index access steady).bind fun _ _ found =>
      ends_pure ⟨found.1, found.2.1.1⟩
  unfold demand? at demands
  split at demands
  · cases demands
    exact field _ .getStatic _
  · cases demands
    exact field _ .putStatic _
  · cases demands
    refine keeps_currentPool.before steady (fun pool found steady => ?_) fun _ _ steady => steady
    exact (Linking.ends_resolveNew pool _ steady).bind fun _ _ found => ends_pure found
  · cases demands
    refine keeps_topFrame.before steady (fun frame found steady => ?_) fun _ _ steady => steady
    refine (keeps_holder frame).before steady (fun caller found steady => ?_)
      fun _ _ steady => steady
    refine (Linking.ends_resolveInvoke caller.pool _ .static (some caller) steady).bind
      fun method linked found => ?_
    cases method.owner with
    | none => exact ends_throw found.1
    | some id =>
        exact ends_bind_classOf (fun c named => ends_pure ⟨found.1, (mem_of_classOf? named).1⟩)
          fun _ => found.1
  · cases demands

theorem ends_request (asks : top.request? = some request) (machine : Machine) :
    request.Ends machine
      (fun demand later => machine.Steady later ∧ demand.target ∈ later.classes)
      fun _ later => machine.Steady later := by
  obtain ⟨byte, instr, length, looks, -, -, demands, rfl⟩ := request?_eq_some asks
  exact (keeps_traceInstruction _).before (Steady.refl machine)
    (fun _ _ steady => ends_demand demands steady) fun _ _ steady => steady

/-! ## Looking up again -/

/-- What the action answers, it answers again when the dictionary has grown, as long as the call
stack is the same. -/
structure Repeats {α : Type} (action : Exec α) : Prop where
  steady : ∀ machine : Machine, Keeps machine.Steady action
  again : ∀ (machine asked later : Machine) (v : α), machine.Identified →
    action machine = .ok v asked → asked.Grows later →
    later.thread.frames = asked.thread.frames → ∃ last, action later = .ok v last

section Repeats

variable {α β : Type}

theorem repeats_bind {first : Exec α} {next : α → Exec β} (one : Repeats first)
    (rest : ∀ v, Repeats (next v)) : Repeats (first >>= next) := by
  refine ⟨fun machine => keeps_bind (one.steady machine) fun v => (rest v).steady machine,
    fun machine asked later w identified run grows frames => ?_⟩
  obtain ⟨v, middle, ran, rest'⟩ := bind_eq_ok.mp run
  have before := (one.steady machine machine (Steady.refl machine)).of_ok ran
  have after := ((rest v).steady middle middle (Steady.refl middle)).of_ok rest'
  have framesMiddle : later.thread.frames = middle.thread.frames :=
    frames.trans after.toAside.frames
  obtain ⟨again, ran'⟩ := one.again machine middle later v identified ran
    (after.toGrows.trans grows) framesMiddle
  have steady := (one.steady later later (Steady.refl later)).of_ok ran'
  obtain ⟨last, rest''⟩ := (rest v).again middle asked again w (before.identified identified) rest'
    (grows.trans steady.toGrows) (steady.toAside.frames.trans frames)
  exact ⟨last, bind_eq_ok.mpr ⟨v, again, ran', rest''⟩⟩

theorem repeats_pure (v : α) : Repeats (pure v : Exec α) :=
  ⟨fun _ => keeps_pure v, fun _ _ later w _ run _ _ => ⟨later, by cases run; rfl⟩⟩

/-- An action that never answers. -/
theorem repeats_throw (halt : Halt) : Repeats (throw halt : Exec α) :=
  ⟨fun _ => keeps_throw halt, fun _ _ _ _ _ run _ _ => by cases run⟩

theorem repeats_ofFault (answer : Except Fault α) : Repeats (ofFault answer) := by
  cases answer with
  | ok v => exact repeats_pure v
  | error fault => exact repeats_throw _

theorem repeats_guard {wrong : Prop} {_ : Decidable wrong} {halt : Halt} {next : Unit → Exec α}
    (rest : Repeats (next ())) : Repeats (if wrong then throw halt >>= next else next ()) := by
  by_cases check : wrong
  · rw [if_pos check]
    exact repeats_bind (repeats_throw halt) fun _ => rest
  · rwa [if_neg check]

theorem repeats_topFrame : Repeats topFrame := by
  refine ⟨fun _ => keeps_topFrame, fun machine asked later frame _ run grows frames => ?_⟩
  obtain ⟨_, _, ⟨⟩, run⟩ := bind_eq_ok.mp run
  cases here : machine.thread.frames with
  | nil =>
      rw [here] at run
      cases run
  | cons top below =>
      rw [here] at run
      cases run
      exact ⟨later, topFrame_eq_ok (frames.trans here)⟩

theorem repeats_classOf (id : ClassId) : Repeats (classOf id) := by
  refine ⟨fun _ => keeps_classOf id, fun machine asked later c identified run grows _ => ?_⟩
  obtain ⟨found, rfl⟩ := classOf_eq_ok.mp run
  exact ⟨later, classOf_eq_ok.mpr ⟨grows.classOf? identified found, rfl⟩⟩

theorem repeats_holder (frame : Frame) : Repeats (holder frame) := by
  unfold holder
  split
  · exact repeats_classOf _
  · exact repeats_throw _

theorem repeats_currentPool : Repeats currentPool :=
  repeats_bind repeats_topFrame fun frame => repeats_bind (repeats_holder frame) fun _ =>
    repeats_pure _

/-- Once a class has been found, it is found at once. -/
theorem repeats_resolve (name : String) : Repeats (Loading.resolve name) := by
  refine ⟨fun _ => Loading.keeps_resolve name, fun machine asked later c _ run grows _ => ⟨later, ?_⟩⟩
  have found := ((Loading.ends_resolve name (Steady.refl machine)).of_ok run).2
  refine bind_eq_ok.mpr ⟨later, later, rfl, ?_⟩
  unfold Loading.resolveWithin
  refine bind_eq_ok.mpr ⟨later, later, rfl, ?_⟩
  rw [grows.found found]
  rfl

theorem findInChain?_grows {α : Type} {later : Machine} {view : LinkedClass → Option α}
    {chain : List ClassId} {answer : LinkedClass × α} (identified : machine.Identified)
    (grows : machine.Grows later) (found : machine.findInChain? view chain = some answer) :
    later.findInChain? view chain = some answer := by
  induction chain with
  | nil => cases found
  | cons id supers ih =>
      unfold findInChain? at found ⊢
      cases known : machine.classOf? id with
      | none =>
          rw [known] at found
          cases found
      | some c =>
          rw [known] at found
          rw [grows.classOf? identified known]
          dsimp only at found ⊢
          split at found
          · exact found
          · exact ih found

/-- What is done next depends on the machine only as far as it stays the same when classes are
added, or else it is to halt. -/
theorem repeats_get {next : Machine → Exec α}
    (cases : ∀ machine, (∃ halt, next machine = throw halt) ∨ Repeats (next machine) ∧
      ∀ later, machine.Identified → machine.Grows later → next later = next machine) :
    Repeats (get >>= next) := by
  refine ⟨fun _ => keeps_bind keeps_get fun machine => ?_,
    fun machine asked later v identified run grows frames => ?_⟩
  · rcases cases machine with ⟨halt, stops⟩ | ⟨repeats, -⟩
    · exact stops ▸ keeps_throw halt
    · exact repeats.steady _
  · obtain ⟨_, _, ⟨⟩, run⟩ := bind_eq_ok.mp run
    rcases cases machine with ⟨halt, stops⟩ | ⟨repeats, same⟩
    · rw [stops] at run
      cases run
    · have steady := (repeats.steady machine machine (Steady.refl machine)).of_ok run
      obtain ⟨last, run'⟩ := repeats.again machine asked later v identified run grows frames
      rw [← same later identified (steady.toGrows.trans grows)] at run'
      exact ⟨last, bind_eq_ok.mpr ⟨later, later, rfl, run'⟩⟩

theorem repeats_resolveField (pool : Pool) (index : Int) (access : FieldAccess) :
    Repeats (Linking.resolveField pool index access) := by
  refine repeats_bind (repeats_ofFault _) fun ref => repeats_bind (repeats_resolve _) fun c =>
    repeats_get fun machine => ?_
  dsimp only
  cases found : machine.findField? c.chain ref.name ref.descriptor with
  | none => exact .inl ⟨_, rfl⟩
  | some answer =>
      refine .inr ⟨repeats_guard (repeats_pure _), fun later identified grows => ?_⟩
      have found' : later.findField? c.chain ref.name ref.descriptor = some answer :=
        findInChain?_grows identified grows found
      rw [found']

theorem repeats_resolveStatic (pool : Pool) (index : Int) (caller : LinkedClass) :
    Repeats (Linking.resolveInvoke pool index .static (some caller)) := by
  refine repeats_bind (repeats_ofFault _) fun ref => repeats_bind (repeats_resolve _) fun c =>
    repeats_get fun machine => ?_
  dsimp only
  cases found : machine.findMethod? c.chain ref.name ref.descriptor with
  | none => exact .inl ⟨_, rfl⟩
  | some method =>
      refine .inr ⟨repeats_guard (repeats_pure _), fun later identified grows => ?_⟩
      obtain ⟨answer, inChain, same⟩ := Option.map_eq_some_iff.mp found
      have found' : later.findMethod? c.chain ref.name ref.descriptor = some method :=
        Option.map_eq_some_iff.mpr ⟨answer, findInChain?_grows identified grows inChain, same⟩
      rw [found']

theorem repeats_resolveNew (pool : Pool) (index : Int) :
    Repeats (Linking.resolveNew pool index) :=
  repeats_bind (repeats_ofFault _) fun name => repeats_bind (repeats_resolve name) fun c =>
    repeats_guard (repeats_pure c)

theorem repeats_traceInstruction (opcode : Nat) : Repeats (traceInstruction opcode) := by
  refine ⟨fun _ => keeps_traceInstruction opcode,
    fun machine asked later _ identified run grows frames => ?_⟩
  have steady := (keeps_traceInstruction opcode machine (Steady.refl machine)).of_ok run
  obtain ⟨_, _, ⟨⟩, run⟩ := bind_eq_ok.mp run
  have options : later.options = machine.options := grows.options.trans steady.options
  have answers : ∃ last, (if later.options.traceBytecodes = true then
      topFrame >>= fun frame =>
        trace (·.traceBytecodes) (traceLine later.thread.depth frame opcode)
      else pure ()) later = .ok () last := by
    rw [options]
    by_cases traces : machine.options.traceBytecodes = true
    · rw [if_pos traces] at run ⊢
      cases here : later.thread.frames with
      | nil =>
          have none : machine.thread.frames = [] :=
            steady.toAside.frames.symm.trans (frames.symm.trans here)
          obtain ⟨_, _, ran, -⟩ := bind_eq_ok.mp run
          obtain ⟨_, _, ⟨⟩, ran⟩ := bind_eq_ok.mp ran
          rw [none] at ran
          cases ran
      | cons top below =>
          exact ⟨_, bind_eq_ok.mpr ⟨top, later, topFrame_eq_ok here, rfl⟩⟩
    · rw [if_neg traces]
      exact ⟨later, rfl⟩
  obtain ⟨last, ran⟩ := answers
  exact ⟨last, bind_eq_ok.mpr ⟨later, later, rfl, ran⟩⟩

theorem repeats_demand {instr : Instr} {length : Nat} {looks : Exec Demand}
    (demands : demand? instr length = some looks) : Repeats looks := by
  unfold demand? at demands
  split at demands
  · cases demands
    exact repeats_bind repeats_currentPool fun pool =>
      repeats_bind (repeats_resolveField pool _ _) fun _ => repeats_pure _
  · cases demands
    exact repeats_bind repeats_currentPool fun pool =>
      repeats_bind (repeats_resolveField pool _ _) fun _ => repeats_pure _
  · cases demands
    exact repeats_bind repeats_currentPool fun pool =>
      repeats_bind (repeats_resolveNew pool _) fun _ => repeats_pure _
  · cases demands
    refine repeats_bind repeats_topFrame fun frame => repeats_bind (repeats_holder frame) fun c =>
      repeats_bind (repeats_resolveStatic c.pool _ c) fun method => ?_
    cases method.owner with
    | none => exact repeats_throw _
    | some id => exact repeats_bind (repeats_classOf id) fun _ => repeats_pure _
  · cases demands

/-- An instruction that is executed again asks for the same class. -/
theorem repeats_request (asks : top.request? = some request) : Repeats request := by
  obtain ⟨byte, instr, length, looks, -, -, demands, rfl⟩ := request?_eq_some asks
  exact repeats_bind (repeats_traceInstruction _) fun _ => repeats_demand demands

end Repeats

end Exec

end Jvm
