/-
# Jvm.Proofs.Call.Passage — the machines that a call passes through

A call is made of few kinds of action: it asks for a class to be ready, executes instructions, runs
a native method, enters a method, and drops frames when it halts. `Call.Passes` lists the
machines that a call passes through from one such action to the next, those between two
instructions among them. A property that every kind of action keeps (`Call.Preserves` of one call,
`Call.Kept` of any) holds of all of them, and of the machine that the call leaves; so does a weaker
one that is left when an action halts, and the property itself holds wherever the call goes on
(`Call.Steps`).
-/
import Jvm.Machine.Call
import Jvm.Proofs.Machine.Runs

namespace Jvm

set_option autoImplicit false

open Machine Exec

namespace Exec

/-- The machines that executing instructions above `base` passes through: those between two steps,
and the one that a step leaves that halts. -/
inductive Passes (base : Nat) (first : Machine) : Machine → Prop
  | between {passed : Machine} (runs : Runs base first passed) : Passes base first passed
  | halted {last passed : Machine} {halt : Halt} (runs : Runs base first last)
      (deep : base < last.thread.depth) (ran : step last = .error halt passed) :
      Passes base first passed

theorem Passes.after_step {base : Nat} {first second passed : Machine} {answer : Option Value}
    (deep : base < first.thread.depth) (ran : step first = .ok answer second)
    (passes : Passes base second passed) : Passes base first passed := by
  cases passes with
  | between run => exact .between (run.after_step deep ran)
  | halted run deep' ran' => exact .halted (run.after_step deep ran) deep' ran'

/-- What is left by executing instructions is one of the machines that are passed. -/
theorem ends_runAbove_passes (base : Nat) (result : Value) (fuel : Nat) (machine : Machine) :
    (runAbove base result fuel).Ends machine (fun _ later => Passes base machine later)
      fun _ later => Passes base machine later := by
  induction fuel generalizing machine result with
  | zero => exact .between .refl
  | succ fuel ih =>
      refine ends_bind_thread ?_
      split
      · rename_i deep
        refine ends_self.before (fun answer second ran => ?_) fun _ _ ran => .halted .refl deep ran
        exact (ih _ second).mono (fun _ _ passes => passes.after_step deep ran)
          fun _ _ passes => passes.after_step deep ran
      · exact ends_pure (.between .refl)

theorem upholds_runAbove {P Q : Machine → Prop} (weaken : ∀ machine, P machine → Q machine)
    (upholds : Upholds P Q step) (base : Nat) (result : Value) (fuel : Nat) :
    Upholds P Q (runAbove base result fuel) := by
  induction fuel generalizing result with
  | zero => exact weaken
  | succ fuel ih =>
      refine upholds_bind (keeps_thread.upholds weaken) fun thread => ?_
      split
      · exact upholds_bind upholds fun answer => ih _
      · exact (keeps_pure _).upholds weaken

end Exec

namespace Call

/-- The machine in which a call begins. -/
def begun (machine : Machine) : Machine :=
  machine.updateThread fun thread => { thread with state := .inProgram }

/-- The machines that a call passes through while it gets a class ready. -/
inductive PassesToReady (c : LinkedClass) : Machine → Machine → Prop
  | asks {first : Machine} : PassesToReady c first ((Initialization.ensureReady c).after first)
  | runs {first started passed : Machine}
      (asked : Initialization.ensureReady c first = .ok false started)
      (passes : Exec.Passes first.thread.depth started passed) : PassesToReady c first passed
  | again {first started again passed : Machine} {fuel : Nat} {v : Value}
      (asked : Initialization.ensureReady c first = .ok false started)
      (ran : runAbove first.thread.depth .void fuel started = .ok v again)
      (rest : PassesToReady c again passed) : PassesToReady c first passed

/-- The machines that a call passes through once the class is ready. -/
inductive PassesReady (method : Method) (arguments : List Value) (first : Machine) : Machine → Prop
  | native : PassesReady method arguments first ((runNative method arguments).after first)
  | enters {callee : Frame} {entered passed : Machine}
      (made : Frame.withArguments method arguments = .ok callee)
      (pushed : Exec.pushFrame { callee with isEntry := true } first = .ok () entered)
      (passes : Exec.Passes first.thread.depth entered passed) :
      PassesReady method arguments first passed

/-- The machines that a call passes through, from its beginning to its end. -/
inductive Passes (method : Method) (arguments : List Value) (first : Machine) : Machine → Prop
  | begins : Passes method arguments first (begun first)
  | initializes {id : ClassId} {c : LinkedClass} {passed : Machine}
      (owner : method.owner = some id) (found : (begun first).classOf? id = some c)
      (passes : PassesToReady c (begun first) passed) : Passes method arguments first passed
  | ready {id : ClassId} {c : LinkedClass} {fuel tries : Nat} {ready passed : Machine}
      (owner : method.owner = some id) (found : (begun first).classOf? id = some c)
      (initialized : initializeFully fuel c tries (begun first) = .ok () ready)
      (passes : PassesReady method arguments ready passed) : Passes method arguments first passed
  | ends {fuel : Nat} : Passes method arguments first ((run fuel method arguments).after first)

/-- The machines from which a call executes an instruction while it gets a class ready. -/
inductive StepsToReady (c : LinkedClass) : Machine → Machine → Prop
  | runs {first started machine : Machine}
      (asked : Initialization.ensureReady c first = .ok false started)
      (runs : Runs first.thread.depth started machine)
      (deep : first.thread.depth < machine.thread.depth) : StepsToReady c first machine
  | again {first started again machine : Machine} {fuel : Nat} {v : Value}
      (asked : Initialization.ensureReady c first = .ok false started)
      (ran : runAbove first.thread.depth .void fuel started = .ok v again)
      (rest : StepsToReady c again machine) : StepsToReady c first machine

/-- The machines from which a call executes an instruction. -/
inductive Steps (method : Method) (arguments : List Value) (first : Machine) : Machine → Prop
  | initializes {id : ClassId} {c : LinkedClass} {machine : Machine}
      (owner : method.owner = some id) (found : (begun first).classOf? id = some c)
      (steps : StepsToReady c (begun first) machine) : Steps method arguments first machine
  | ready {id : ClassId} {c : LinkedClass} {fuel tries : Nat} {callee : Frame}
      {ready entered machine : Machine} (owner : method.owner = some id)
      (found : (begun first).classOf? id = some c)
      (initialized : initializeFully fuel c tries (begun first) = .ok () ready)
      (made : Frame.withArguments method arguments = .ok callee)
      (pushed : Exec.pushFrame { callee with isEntry := true } ready = .ok () entered)
      (runs : Runs ready.thread.depth entered machine)
      (deep : ready.thread.depth < machine.thread.depth) : Steps method arguments first machine

/-- The class of the method is in the dictionary. -/
def Owns (machine : Machine) (method : Method) : Prop :=
  ∃ c ∈ machine.classes, method.owner = some c.id

/-- What everything keeps that the call of a method is made of: `P` if it answers, `Q` if it halts.
Of a step this is asked only where the call is on its way. -/
structure Preserves (method : Method) (arguments : List Value) (OnWay P Q : Machine → Prop) :
    Prop where
  weaken : ∀ machine : Machine, P machine → Q machine
  state : ∀ (machine : Machine) (state : ThreadState), P machine →
    P (machine.updateThread fun thread => { thread with state := state })
  ready : ∀ (c : LinkedClass) (machine : Machine), c ∈ machine.classes → P machine →
    (Initialization.ensureReady c).Ends machine (fun _ => P) fun _ => Q
  step : ∀ machine : Machine, OnWay machine → P machine →
    Exec.step.Ends machine (fun _ => P) fun _ => Q
  native : ∀ native : Native, method.native = some native → Upholds P Q (native.run arguments)
  enter : ∀ callee : Frame, Frame.withArguments method arguments = .ok callee →
    ∀ machine : Machine, Owns machine method → P machine →
      (Exec.pushFrame { callee with isEntry := true }).Ends machine (fun _ => P) fun _ => Q
  unwind : ∀ (machine : Machine) (depth : Nat) (state : ThreadState), Q machine →
    Q (machine.updateThread fun thread => { thread.unwindTo depth with state := state })

namespace Preserves

variable {method : Method} {arguments : List Value} {OnWay P Q : Machine → Prop}

theorem left (preserves : Preserves method arguments OnWay P Q) {α : Type} {action : Exec α}
    {machine : Machine} (ends : action.Ends machine (fun _ => P) fun _ => Q) :
    Q (action.after machine) :=
  (ends.mono (fun _ _ => preserves.weaken _) fun _ _ left => left).after

/-! ### Executing instructions -/

theorem runs (preserves : Preserves method arguments OnWay P Q) {base : Nat} {first last : Machine}
    (way : ∀ machine, Runs base first machine → base < machine.thread.depth → OnWay machine)
    (runs : Runs base first last) (holds : P first) : P last := by
  induction runs with
  | refl => exact holds
  | step runs deep ran ih => exact (preserves.step _ (way _ runs deep) ih).of_ok ran

theorem passesAbove (preserves : Preserves method arguments OnWay P Q) {base : Nat}
    {first passed : Machine}
    (way : ∀ machine, Runs base first machine → base < machine.thread.depth → OnWay machine)
    (passes : Exec.Passes base first passed) (holds : P first) : Q passed := by
  cases passes with
  | between runs => exact preserves.weaken _ (preserves.runs way runs holds)
  | halted runs deep ran =>
      exact (preserves.step _ (way _ runs deep) (preserves.runs way runs holds)).of_error ran

theorem runAbove (preserves : Preserves method arguments OnWay P Q) {base : Nat} {first : Machine}
    (way : ∀ machine, Runs base first machine → base < machine.thread.depth → OnWay machine)
    (result : Value) (fuel : Nat) (holds : P first) :
    (runAbove base result fuel).Ends first (fun _ => P) fun _ => Q := by
  induction fuel generalizing first result with
  | zero => exact preserves.weaken first holds
  | succ fuel ih =>
      refine ends_bind_thread ?_
      split
      · rename_i deep
        refine ((preserves.step first (way first .refl deep) holds).and ends_self).before
          (fun answer second ended => ?_) fun _ _ ended => ended.1
        exact ih (fun machine runs => way machine (runs.after_step deep ended.2)) _ ended.1
      · exact ends_pure holds

/-! ### Getting the class ready -/

/-- The property, of machines that know the class. -/
theorem knowing (preserves : Preserves method arguments OnWay P Q) (c : LinkedClass) :
    Preserves method arguments OnWay (fun machine => c ∈ machine.classes ∧ P machine) Q where
  weaken machine known := preserves.weaken machine known.2
  state machine state known := ⟨known.1, preserves.state machine state known.2⟩
  ready d machine known holds :=
    ((preserves.ready d machine known holds.2).and (ends_ensureReady_grows d machine)).mono
      (fun _ _ ended => ⟨ended.2.mem holds.1, ended.1⟩) fun _ _ ended => ended.1
  step machine way holds :=
    ((preserves.step machine way holds.2).and (keeps_step_grows machine (Grows.refl machine))).mono
      (fun _ _ ended => ⟨ended.2.mem holds.1, ended.1⟩) fun _ _ ended => ended.1
  native native bound machine holds :=
    ((preserves.native native bound machine holds.2).and
      (keeps_native native arguments machine (Aside.refl machine))).mono
        (fun _ _ ended => ⟨ended.2.mem holds.1, ended.1⟩) fun _ _ ended => ended.1
  enter callee made machine owned holds := by
    have grows : (Exec.pushFrame { callee with isEntry := true }).Ends machine
        (fun _ later => machine.Grows later) fun _ later => machine.Grows later :=
      ends_pushFrame (fun _ => grows_pushFrame machine _) fun _ => Grows.refl machine
    exact ((preserves.enter callee made machine owned holds.2).and grows).mono
      (fun _ _ ended => ⟨ended.2.mem holds.1, ended.1⟩) fun _ _ ended => ended.1
  unwind := preserves.unwind

theorem initializeFully (preserves : Preserves method arguments OnWay P Q) (fuel : Nat)
    {c : LinkedClass} (tries : Nat) {first : Machine}
    (way : ∀ machine, StepsToReady c first machine → OnWay machine) (known : c ∈ first.classes)
    (holds : P first) :
    (initializeFully fuel c tries).Ends first
      (fun _ later => c ∈ later.classes ∧ P later) fun _ => Q := by
  have preserves' := preserves.knowing c
  induction tries generalizing first with
  | zero => exact preserves.weaken first holds
  | succ tries ih =>
      refine ends_bind_thread ?_
      refine ((preserves'.ready c first known ⟨known, holds⟩).and ends_self).before
        (fun ready started ended => ?_) fun _ _ ended => ended.1
      cases ready with
      | true => exact ends_pure ended.1
      | false =>
          have way' : ∀ machine, Runs first.thread.depth started machine →
              first.thread.depth < machine.thread.depth → OnWay machine :=
            fun machine runs deep => way machine (.runs ended.2 runs deep)
          refine ((preserves'.runAbove way' .void fuel ended.1).and ends_self).before
            (fun _ again ran => ?_) fun _ _ ran => ran.1
          exact ih (fun machine steps => way machine (.again ended.2 ran.2 steps)) ran.1.1 ran.1.2

/-- One round of getting the class ready: an initializer has been started, and has returned. -/
theorem round (preserves : Preserves method arguments OnWay P Q) {c : LinkedClass}
    {first started again : Machine} {fuel : Nat} {v : Value}
    (way : ∀ machine, StepsToReady c first machine → OnWay machine)
    (asked : Initialization.ensureReady c first = .ok false started)
    (ran : Exec.runAbove first.thread.depth .void fuel started = .ok v again)
    (known : c ∈ first.classes) (holds : P first) : c ∈ again.classes ∧ P again := by
  have preserves' := preserves.knowing c
  have started := (preserves'.ready c _ known ⟨known, holds⟩).of_ok asked
  exact (preserves'.runAbove
    (fun machine runs deep => way machine (.runs asked runs deep)) .void _ started).of_ok ran

theorem passesToReady (preserves : Preserves method arguments OnWay P Q) {c : LinkedClass}
    {first passed : Machine} (way : ∀ machine, StepsToReady c first machine → OnWay machine)
    (passes : PassesToReady c first passed) (known : c ∈ first.classes) (holds : P first) :
    Q passed := by
  induction passes with
  | asks => exact preserves.left (preserves.ready c _ known holds)
  | runs asked passes =>
      exact preserves.passesAbove (fun machine runs deep => way machine (.runs asked runs deep))
        passes ((preserves.ready c _ known holds).of_ok asked)
  | again asked ran rest ih =>
      obtain ⟨known', holds'⟩ := preserves.round way asked ran known holds
      exact ih (fun machine steps => way machine (.again asked ran steps)) known' holds'

theorem stepsToReady (preserves : Preserves method arguments OnWay P Q) {c : LinkedClass}
    {first machine : Machine} (way : ∀ machine, StepsToReady c first machine → OnWay machine)
    (steps : StepsToReady c first machine) (known : c ∈ first.classes) (holds : P first) :
    P machine := by
  induction steps with
  | runs asked runs deep =>
      exact preserves.runs (fun machine runs deep => way machine (.runs asked runs deep)) runs
        ((preserves.ready c _ known holds).of_ok asked)
  | again asked ran rest ih =>
      obtain ⟨known', holds'⟩ := preserves.round way asked ran known holds
      exact ih (fun machine steps => way machine (.again asked ran steps)) known' holds'

/-! ### The whole call -/

theorem runNative (preserves : Preserves method arguments OnWay P Q) :
    Upholds P Q (runNative method arguments) := by
  unfold Call.runNative
  split
  · exact (keeps_fail _).upholds preserves.weaken
  · rename_i native bound
    exact upholds_bind (preserves.native native bound) fun _ =>
      (keeps_pure _).upholds preserves.weaken

theorem runReady (preserves : Preserves method arguments OnWay P Q) (fuel : Nat) {first : Machine}
    (way : ∀ callee entered machine, Frame.withArguments method arguments = .ok callee →
      Exec.pushFrame { callee with isEntry := true } first = .ok () entered →
      Runs first.thread.depth entered machine → first.thread.depth < machine.thread.depth →
        OnWay machine)
    (owned : Owns first method) (holds : P first) :
    (runReady fuel method arguments).Ends first (fun _ => P) fun _ => Q := by
  unfold Call.runReady
  split
  · exact preserves.runNative first holds
  · split
    · exact (keeps_fail _).upholds preserves.weaken first holds
    · refine ends_bind_thread ?_
      refine ends_bind_ofHalt (fun callee made => ?_) fun _ _ => preserves.weaken first holds
      refine ((preserves.enter callee made first owned holds).and ends_self).before
        (fun _ entered ended => ?_) fun _ _ ended => ended.1
      exact preserves.runAbove
        (fun machine runs deep => way callee entered machine made ended.2 runs deep) _ _ ended.1

theorem runChecked (preserves : Preserves method arguments OnWay P Q) (fuel : Nat) {first : Machine}
    (way : ∀ machine, Steps method arguments first machine → OnWay machine)
    (holds : P (begun first)) :
    (runChecked fuel method arguments).Ends (begun first) (fun _ => P) fun _ => Q := by
  refine ends_bind_ofCause (fun _ _ => ?_) fun _ _ => preserves.weaken _ holds
  split
  · exact (keeps_violate _).upholds preserves.weaken _ holds
  · rename_i id owner
    refine ends_bind_classOf (fun c found => ?_) fun _ => preserves.weaken _ holds
    obtain ⟨known, rfl⟩ := mem_of_classOf? found
    refine ((preserves.initializeFully fuel fuel
      (fun machine steps => way machine (.initializes owner found steps)) known holds).and
        ends_self).before (fun _ ready ended => ?_) fun _ _ ended => ended.1
    exact preserves.runReady fuel (fun callee entered machine made pushed runs deep =>
      way machine (.ready owner found ended.2 made pushed runs deep)) ⟨c, ended.1.1, owner⟩ ended.1.2

theorem run (preserves : Preserves method arguments OnWay P Q) (fuel : Nat) {first : Machine}
    (way : ∀ machine, Steps method arguments first machine → OnWay machine) (holds : P first) :
    (run fuel method arguments).Ends first (fun _ => P) fun _ => Q := by
  refine ends_bind_thread (ends_bind_modify ?_)
  have checked := preserves.runChecked fuel way (preserves.state first .inProgram holds)
  refine (ends_onHalt (checked.mono (fun _ _ kept => kept) fun _ later left =>
    preserves.unwind later _ _ left)).bind fun result later kept => ?_
  exact ends_bind_modify (ends_pure (preserves.state later first.thread.state kept))

/-- The property when the class of the method is ready, which is in the dictionary then. -/
theorem whenReady (preserves : Preserves method arguments OnWay P Q) {id : ClassId}
    {c : LinkedClass} {fuel tries : Nat} {first ready : Machine}
    (way : ∀ machine, Steps method arguments first machine → OnWay machine)
    (owner : method.owner = some id) (found : (begun first).classOf? id = some c)
    (initialized : Call.initializeFully fuel c tries (begun first) = .ok () ready)
    (holds : P first) : Owns ready method ∧ P ready := by
  have begins : P (begun first) := preserves.state first .inProgram holds
  obtain ⟨known, rfl⟩ := mem_of_classOf? found
  obtain ⟨known', ready⟩ := (preserves.initializeFully _ _
    (fun machine steps => way machine (.initializes owner found steps)) known begins).of_ok
      initialized
  exact ⟨⟨c, known', owner⟩, ready⟩

/-- What everything keeps that a call is made of holds wherever the call passes, in its weaker form
at least. -/
theorem passes (preserves : Preserves method arguments OnWay P Q) {first passed : Machine}
    (way : ∀ machine, Steps method arguments first machine → OnWay machine)
    (passes : Passes method arguments first passed) (holds : P first) : Q passed := by
  have begins : P (begun first) := preserves.state first .inProgram holds
  cases passes with
  | begins => exact preserves.weaken _ begins
  | initializes owner found passes =>
      exact preserves.passesToReady (fun machine steps => way machine (.initializes owner found steps))
        passes (mem_of_classOf? found).1 begins
  | ready owner found initialized passes =>
      obtain ⟨owned, ready⟩ := preserves.whenReady way owner found initialized holds
      cases passes with
      | native => exact preserves.left (preserves.runNative _ ready)
      | enters made pushed passes =>
          exact preserves.passesAbove (fun machine runs deep =>
            way machine (.ready owner found initialized made pushed runs deep)) passes
              ((preserves.enter _ made _ owned ready).of_ok pushed)
  | ends => exact preserves.left (preserves.run _ way holds)

/-- Wherever a call executes an instruction, nothing has halted before. -/
theorem steps (preserves : Preserves method arguments OnWay P Q) {first machine : Machine}
    (way : ∀ machine, Steps method arguments first machine → OnWay machine)
    (steps : Steps method arguments first machine) (holds : P first) : P machine := by
  have begins : P (begun first) := preserves.state first .inProgram holds
  cases steps with
  | initializes owner found steps =>
      exact preserves.stepsToReady (fun machine steps => way machine (.initializes owner found steps))
        steps (mem_of_classOf? found).1 begins
  | ready owner found initialized made pushed runs deep =>
      obtain ⟨owned, ready⟩ := preserves.whenReady way owner found initialized holds
      exact preserves.runs (fun machine runs deep =>
        way machine (.ready owner found initialized made pushed runs deep)) runs
          ((preserves.enter _ made _ owned ready).of_ok pushed)

end Preserves

/-- What everything keeps that any call is made of: `P` if it answers, `Q` if it halts. -/
structure Kept (P Q : Machine → Prop) : Prop where
  weaken : ∀ machine : Machine, P machine → Q machine
  state : ∀ (machine : Machine) (state : ThreadState), P machine →
    P (machine.updateThread fun thread => { thread with state := state })
  ready : ∀ (c : LinkedClass) (machine : Machine), c ∈ machine.classes → P machine →
    (Initialization.ensureReady c).Ends machine (fun _ => P) fun _ => Q
  step : Upholds P Q step
  native : ∀ (native : Native) (arguments : List Value), Upholds P Q (native.run arguments)
  enter : ∀ frame : Frame, frame.bci = 0 → frame.initializing = none → ∀ machine : Machine,
    Owns machine frame.method → P machine →
      (Exec.pushFrame frame).Ends machine (fun _ => P) fun _ => Q
  unwind : ∀ (machine : Machine) (depth : Nat) (state : ThreadState), Q machine →
    Q (machine.updateThread fun thread => { thread.unwindTo depth with state := state })

namespace Kept

variable {P Q : Machine → Prop}

theorem preserves (kept : Kept P Q) (method : Method) (arguments : List Value) :
    Preserves method arguments (fun _ => True) P Q where
  weaken := kept.weaken
  state := kept.state
  ready := kept.ready
  step machine _ := kept.step machine
  native native _ := kept.native native arguments
  enter callee made machine owned holds := by
    obtain ⟨locals, rfl⟩ := Frame.withArguments_eq_ok made
    exact kept.enter _ rfl rfl machine owned holds
  unwind := kept.unwind

theorem run (kept : Kept P Q) (fuel : Nat) (method : Method) (arguments : List Value) :
    Upholds P Q (run fuel method arguments) := fun _ holds =>
  (kept.preserves method arguments).run fuel (fun _ _ => trivial) holds

theorem left (kept : Kept P Q) {α : Type} {action : Exec α} (upholds : Upholds P Q action)
    {machine : Machine} (holds : P machine) : Q (action.after machine) :=
  ((upholds machine holds).mono (fun _ _ => kept.weaken _) fun _ _ left => left).after

theorem passes (kept : Kept P Q) {method : Method} {arguments : List Value} {first passed : Machine}
    (passes : Passes method arguments first passed) (holds : P first) : Q passed :=
  (kept.preserves method arguments).passes (fun _ _ => trivial) passes holds

theorem steps (kept : Kept P Q) {method : Method} {arguments : List Value} {first machine : Machine}
    (steps : Steps method arguments first machine) (holds : P first) : P machine :=
  (kept.preserves method arguments).steps (fun _ _ => trivial) steps holds

end Kept

end Call

end Jvm
