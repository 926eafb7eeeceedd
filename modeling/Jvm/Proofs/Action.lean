/-
# Jvm.Proofs.Action — what an action leaves behind

An action on a machine answers or halts, and what it did before halting stays done. So a
statement about an action speaks of two ends: `action.Ends machine Done Stopped` says what
holds of the answer and of the machine it leaves, or of the halt and of that machine.
`Keeps P action` is the case where both ends say the same thing about the machine alone; with
`P` the statement "this machine came from that one by …", it carries a relation through
the parts of an action (`keeps_bind`).
-/
import Jvm.Machine
import Jvm.Proofs.Sequence

namespace Jvm.Exec

set_option autoImplicit false

variable {α β : Type}

/-- The machine that an action leaves, whether it answers or halts. -/
def after (action : Exec α) (machine : Machine) : Machine :=
  match action machine with
  | .ok _ later => later
  | .error _ later => later

/-- What an action answers, unless it halts. -/
def answer? (action : Exec α) (machine : Machine) : Option α :=
  match action machine with
  | .ok v _ => some v
  | .error _ _ => none

/-- What holds once an action has ended: `Done` of its answer, or `Stopped` of its halt. -/
def Ends (action : Exec α) (machine : Machine) (Done : α → Machine → Prop)
    (Stopped : Halt → Machine → Prop) : Prop :=
  match action machine with
  | .ok v later => Done v later
  | .error halt later => Stopped halt later

/-- A property of machines that an action keeps, whether it answers or halts. -/
def Keeps (P : Machine → Prop) (action : Exec α) : Prop :=
  ∀ machine, P machine → action.Ends machine (fun _ => P) fun _ => P

/-! ## One action -/

section Ends

variable {action : Exec α} {machine later : Machine} {Done Done' : α → Machine → Prop}
  {Stopped Stopped' : Halt → Machine → Prop} {v : α} {halt : Halt}

theorem Ends.of_ok (ends : action.Ends machine Done Stopped)
    (run : action machine = .ok v later) : Done v later := by
  unfold Ends at ends
  rwa [run] at ends

theorem Ends.of_error (ends : action.Ends machine Done Stopped)
    (run : action machine = .error halt later) : Stopped halt later := by
  unfold Ends at ends
  rwa [run] at ends

/-- The two ends of an action, one at a time. -/
theorem ends_iff :
    action.Ends machine Done Stopped ↔
      (∀ v later, action machine = .ok v later → Done v later) ∧
        ∀ halt later, action machine = .error halt later → Stopped halt later := by
  refine ⟨fun ends => ⟨fun _ _ run => ends.of_ok run, fun _ _ run => ends.of_error run⟩, ?_⟩
  rintro ⟨done, stopped⟩
  unfold Ends
  cases run : action machine with
  | ok v later => exact done v later run
  | error halt later => exact stopped halt later run

theorem Ends.mono (ends : action.Ends machine Done Stopped)
    (done : ∀ v later, Done v later → Done' v later)
    (stopped : ∀ halt later, Stopped halt later → Stopped' halt later) :
    action.Ends machine Done' Stopped' := by
  rw [ends_iff] at ends ⊢
  exact ⟨fun v later run => done v later (ends.1 v later run),
    fun halt later run => stopped halt later (ends.2 halt later run)⟩

theorem Ends.and (first : action.Ends machine Done Stopped)
    (second : action.Ends machine Done' Stopped') :
    action.Ends machine (fun v later => Done v later ∧ Done' v later)
      fun halt later => Stopped halt later ∧ Stopped' halt later := by
  rw [ends_iff] at first second ⊢
  exact ⟨fun v later run => ⟨first.1 v later run, second.1 v later run⟩,
    fun halt later run => ⟨first.2 halt later run, second.2 halt later run⟩⟩

/-- What is known of any end: that the action has come to it. -/
theorem ends_self : action.Ends machine (fun v later => action machine = .ok v later)
    fun halt later => action machine = .error halt later :=
  ends_iff.mpr ⟨fun _ _ run => run, fun _ _ run => run⟩

/-- An action that answers comes to the machine that it leaves. -/
theorem run_of_answer? (answers : action.answer? machine = some v) :
    action machine = .ok v (action.after machine) := by
  unfold answer? at answers
  unfold Exec.after
  cases run : action machine with
  | ok w later =>
      rw [run] at answers
      obtain rfl := Option.some.inj answers
      rfl
  | error halt later =>
      rw [run] at answers
      cases answers

theorem Ends.after {P : Machine → Prop} (ends : action.Ends machine (fun _ => P) fun _ => P) :
    P (action.after machine) := by
  unfold Ends at ends
  unfold Exec.after
  cases run : action machine with
  | ok v later => simpa only [run] using ends
  | error halt later => simpa only [run] using ends

end Ends

/-! ## Actions in sequence -/

section Sequence

variable {machine : Machine} {Stopped : Halt → Machine → Prop}

theorem Ends.bind {first : Exec α} {next : α → Exec β} {Between : α → Machine → Prop}
    {Done : β → Machine → Prop} (ends : first.Ends machine Between Stopped)
    (rest : ∀ v later, Between v later → (next v).Ends later Done Stopped) :
    (first >>= next).Ends machine Done Stopped := by
  cases run : first machine with
  | ok v later =>
      have done := rest v later (ends.of_ok run)
      unfold Ends at done ⊢
      rwa [bind_of_ok run]
  | error halt later =>
      unfold Ends
      rw [bind_of_error run]
      exact ends.of_error run

/-- An action in front of another, where a halt of the first one says something of its own. -/
theorem Ends.before {first : Exec α} {next : α → Exec β} {Between : α → Machine → Prop}
    {Halted : Halt → Machine → Prop} {Done : β → Machine → Prop}
    (ends : first.Ends machine Between Halted)
    (rest : ∀ v later, Between v later → (next v).Ends later Done Stopped)
    (stopped : ∀ halt later, Halted halt later → Stopped halt later) :
    (first >>= next).Ends machine Done Stopped :=
  (ends.mono (fun _ _ done => done) stopped).bind rest

/-- An action in front of another, where it is known to what it comes. -/
theorem ends_bind_run {first : Exec α} {next : α → Exec β} {v : α} {later : Machine}
    {Done : β → Machine → Prop} (run : first machine = .ok v later)
    (rest : (next v).Ends later Done Stopped) : (first >>= next).Ends machine Done Stopped := by
  unfold Ends at rest ⊢
  rwa [bind_of_ok run]

/-- An action in front of another, whatever it comes to. -/
theorem ends_bind_any {first : Exec α} {next : α → Exec β} {Done : β → Machine → Prop}
    (rest : ∀ v later, (next v).Ends later Done fun _ _ => True) :
    (first >>= next).Ends machine Done fun _ _ => True :=
  Ends.before ends_self (fun v later _ => rest v later) fun _ _ _ => trivial

theorem ends_pure {v : α} {Done : α → Machine → Prop} (done : Done v machine) :
    (pure v : Exec α).Ends machine Done Stopped := done

theorem ends_throw {halt : Halt} {Done : α → Machine → Prop} (stopped : Stopped halt machine) :
    (throw halt : Exec α).Ends machine Done Stopped := stopped

theorem ends_bind_get {next : Machine → Exec α} {Done : α → Machine → Prop}
    (rest : (next machine).Ends machine Done Stopped) :
    ((get : Exec Machine) >>= next).Ends machine Done Stopped := rest

theorem ends_bind_thread {next : Thread → Exec α} {Done : α → Machine → Prop}
    (rest : (next machine.thread).Ends machine Done Stopped) :
    (Exec.thread >>= next).Ends machine Done Stopped := rest

theorem ends_bind_modify {change : Machine → Machine} {next : Unit → Exec α}
    {Done : α → Machine → Prop} (rest : (next ()).Ends (change machine) Done Stopped) :
    ((modify change : Exec Unit) >>= next).Ends machine Done Stopped := rest

/-- A check in front of an action. -/
theorem ends_guard {wrong : Prop} {_ : Decidable wrong} {halt : Halt} {next : Unit → Exec α}
    {Done : α → Machine → Prop} (failed : wrong → Stopped halt machine)
    (rest : ¬ wrong → (next ()).Ends machine Done Stopped) :
    (if wrong then throw halt >>= next else next ()).Ends machine Done Stopped := by
  by_cases check : wrong
  · rw [if_pos check]
    exact failed check
  · rw [if_neg check]
    exact rest check

theorem ends_modify {change : Machine → Machine} {Done : Unit → Machine → Prop}
    (done : Done () (change machine)) : (modify change : Exec Unit).Ends machine Done Stopped :=
  done

theorem ends_bind_ofFault {answer : Except Fault α} {next : α → Exec β}
    {Done : β → Machine → Prop}
    (done : ∀ v, answer = .ok v → (next v).Ends machine Done Stopped)
    (stopped : ∀ fault, answer = .error fault → Stopped (.fault fault) machine) :
    (ofFault answer >>= next).Ends machine Done Stopped := by
  cases answer with
  | ok v => exact done v rfl
  | error fault => exact stopped fault rfl

theorem ends_bind_ofCause {answer : Except Cause α} {next : α → Exec β}
    {Done : β → Machine → Prop}
    (done : ∀ v, answer = .ok v → (next v).Ends machine Done Stopped)
    (stopped : ∀ cause, answer = .error cause → Stopped cause.halt machine) :
    (ofCause answer >>= next).Ends machine Done Stopped := by
  cases answer with
  | ok v => exact done v rfl
  | error cause => exact stopped cause rfl

theorem ends_bind_ofHalt {answer : Except Halt α} {next : α → Exec β}
    {Done : β → Machine → Prop}
    (done : ∀ v, answer = .ok v → (next v).Ends machine Done Stopped)
    (stopped : ∀ halt, answer = .error halt → Stopped halt machine) :
    (ofHalt answer >>= next).Ends machine Done Stopped := by
  cases answer with
  | ok v => exact done v rfl
  | error halt => exact stopped halt rfl

theorem ends_mapFault {action : Exec α} {change : Fault → Fault} {Done : α → Machine → Prop}
    (ends : action.Ends machine Done fun halt => Stopped (halt.mapFault change)) :
    (mapFault change action).Ends machine Done Stopped := by
  unfold Ends at ends
  unfold Ends mapFault
  cases run : action machine with
  | ok v later => simpa only [run] using ends
  | error halt later => simpa only [run] using ends

theorem mapFault_of_eq {action other : Exec α} {change : Fault → Fault} {later : Machine}
    (same : action machine = other later) :
    mapFault change action machine = mapFault change other later := by
  unfold mapFault
  rw [same]

/-- Only what an action halts with gets another fault. -/
theorem mapFault_eq_ok {action : Exec α} {change : Fault → Fault} {v : α} {later : Machine} :
    mapFault change action machine = .ok v later ↔ action machine = .ok v later := by
  unfold mapFault
  cases action machine <;> simp

theorem ends_onHalt {action : Exec α} {cleanup : Machine → Machine} {Done : α → Machine → Prop}
    (ends : action.Ends machine Done fun halt later => Stopped halt (cleanup later)) :
    (onHalt action cleanup).Ends machine Done Stopped := by
  unfold Ends at ends
  unfold Ends onHalt
  cases run : action machine with
  | ok v later => simpa only [run] using ends
  | error halt later => simpa only [run] using ends

theorem onHalt_eq_ok {action : Exec α} {cleanup : Machine → Machine} {v : α} {later : Machine} :
    onHalt action cleanup machine = .ok v later ↔ action machine = .ok v later := by
  unfold onHalt
  cases action machine <;> simp

theorem ends_bind_classOf {id : ClassId} {next : LinkedClass → Exec α}
    {Done : α → Machine → Prop}
    (done : ∀ c, machine.classOf? id = some c → (next c).Ends machine Done Stopped)
    (stopped : machine.classOf? id = none → Stopped (.violation .unknownClass) machine) :
    (classOf id >>= next).Ends machine Done Stopped := by
  unfold classOf
  rw [bind_assoc]
  refine ends_bind_get ?_
  split
  · exact done _ ‹_›
  · exact stopped ‹_›

theorem ends_bind_object {ref : Ref} {next : Object → Exec α} {Done : α → Machine → Prop}
    (done : ∀ object, machine.object? ref = some object → (next object).Ends machine Done Stopped)
    (stopped : machine.object? ref = none → Stopped (.violation .unknownObject) machine) :
    (object ref >>= next).Ends machine Done Stopped := by
  unfold object
  rw [bind_assoc]
  refine ends_bind_get ?_
  split
  · exact done _ ‹_›
  · exact stopped ‹_›

theorem classOf_eq_ok {id : ClassId} {c : LinkedClass} {later : Machine} :
    classOf id machine = .ok c later ↔ machine.classOf? id = some c ∧ later = machine := by
  unfold classOf
  rw [bind_get]
  cases machine.classOf? id with
  | none => exact iff_of_false (fun run => by cases run) fun found => by cases found.1
  | some d =>
      refine ⟨fun run => ?_, ?_⟩
      · cases run
        exact ⟨rfl, rfl⟩
      · rintro ⟨⟨⟩, rfl⟩
        rfl

end Sequence

/-! ## Properties of the machine alone -/

section Keeps

variable {P : Machine → Prop}

theorem Keeps.after {action : Exec α} (keeps : Keeps P action) {machine : Machine}
    (holds : P machine) : P (action.after machine) :=
  (keeps machine holds).after

/-- An action that keeps a property, in front of another. -/
theorem Keeps.before {first : Exec α} (keeps : Keeps P first) {machine : Machine}
    (holds : P machine) {next : α → Exec β} {Done : β → Machine → Prop}
    {Stopped : Halt → Machine → Prop}
    (rest : ∀ v later, P later → (next v).Ends later Done Stopped)
    (stopped : ∀ halt later, P later → Stopped halt later) :
    (first >>= next).Ends machine Done Stopped :=
  Ends.before (keeps machine holds) rest stopped

theorem keeps_bind {first : Exec α} {next : α → Exec β} (one : Keeps P first)
    (rest : ∀ v, Keeps P (next v)) : Keeps P (first >>= next) :=
  fun machine holds => (one machine holds).bind fun v later kept => rest v later kept

theorem keeps_true (action : Exec α) : Keeps (fun _ => True) action :=
  fun _ _ => ends_iff.mpr ⟨fun _ _ _ => trivial, fun _ _ _ => trivial⟩

theorem keeps_pure (v : α) : Keeps P (pure v : Exec α) := fun _ holds => holds

theorem keeps_throw (halt : Halt) : Keeps P (throw halt : Exec α) := fun _ holds => holds

theorem keeps_get : Keeps P (get : Exec Machine) := fun _ holds => holds

theorem keeps_modify {change : Machine → Machine} (kept : ∀ machine, P machine → P (change machine)) :
    Keeps P (modify change : Exec Unit) := fun machine holds => kept machine holds

theorem keeps_fail (cause : Cause) : Keeps P (fail cause : Exec α) := keeps_throw _

theorem keeps_violate (violation : Violation) : Keeps P (violate violation : Exec α) :=
  keeps_throw _

theorem keeps_guard {wrong : Prop} {_ : Decidable wrong} {halt : Halt} {next : Unit → Exec α}
    (rest : Keeps P (next ())) : Keeps P (if wrong then throw halt >>= next else next ()) :=
  fun machine holds => ends_guard (fun _ => holds) fun _ => rest machine holds

theorem keeps_ofFault (answer : Except Fault α) : Keeps P (ofFault answer) := by
  cases answer <;> exact fun _ holds => holds

theorem keeps_ofCause (answer : Except Cause α) : Keeps P (ofCause answer) := by
  cases answer <;> exact fun _ holds => holds

theorem keeps_ofHalt (answer : Except Halt α) : Keeps P (ofHalt answer) := by
  cases answer <;> exact fun _ holds => holds

theorem keeps_onHalt {action : Exec α} {cleanup : Machine → Machine} (keeps : Keeps P action)
    (kept : ∀ machine, P machine → P (cleanup machine)) : Keeps P (onHalt action cleanup) :=
  fun machine holds => ends_onHalt ((keeps machine holds).mono (fun _ _ later => later)
    fun _ _ later => kept _ later)

theorem keeps_thread : Keeps P Exec.thread := keeps_bind keeps_get fun _ => keeps_pure _

theorem keeps_classOf (id : ClassId) : Keeps P (classOf id) :=
  keeps_bind keeps_get fun _ => by split <;> first | exact keeps_pure _ | exact keeps_violate _

theorem keeps_object (ref : Ref) : Keeps P (object ref) :=
  keeps_bind keeps_get fun _ => by split <;> first | exact keeps_pure _ | exact keeps_violate _

theorem keeps_topFrame : Keeps P topFrame :=
  keeps_bind keeps_get fun _ => by split <;> first | exact keeps_pure _ | exact keeps_violate _

end Keeps

/-! ## Properties that a halt weakens -/

/-- An action keeps a property if it answers; if it halts, a weaker one is left. -/
def Upholds (P Q : Machine → Prop) (action : Exec α) : Prop :=
  ∀ machine, P machine → action.Ends machine (fun _ => P) fun _ => Q

section Upholds

variable {P Q : Machine → Prop}

theorem upholds_bind {first : Exec α} {next : α → Exec β} (one : Upholds P Q first)
    (rest : ∀ v, Upholds P Q (next v)) : Upholds P Q (first >>= next) :=
  fun machine holds => (one machine holds).bind fun v later kept => rest v later kept

theorem Keeps.upholds {action : Exec α} (keeps : Keeps P action) (weaken : ∀ machine, P machine → Q machine) :
    Upholds P Q action :=
  fun machine holds => (keeps machine holds).mono (fun _ _ kept => kept) fun _ later kept =>
    weaken later kept

end Upholds

end Jvm.Exec
