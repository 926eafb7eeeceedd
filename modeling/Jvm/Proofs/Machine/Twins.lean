/-
# Jvm.Proofs.Machine.Twins — two machines that do the same

Twins are two machines that one machine foresees and whose current threads are the same, a sound one
(`Twins`). What they do not share are the classes that have been loaded so far, the other threads and
the trace. An action agrees on twins if it answers the same or halts with the same in both, and leaves
twins in either case (`Twins.Agree`); so neither its answer nor anything that it leaves on the thread
depends on what else has been loaded or is done on other threads. Twins may be one machine twice:
then it is said of this machine alone that its thread stays sound.

This module has the rules for putting actions together, and the actions of which everything else
is made.
-/
import Jvm.Proofs.Loading.Foresight
import Jvm.Proofs.Machine.OwnObjects
import Jvm.Proofs.Machine.Preparation

namespace Jvm

set_option autoImplicit false

open Exec Machine
open ClassFile.Reader (rootClass)

theorem Machine.Foresees.withThread {base machine : Machine} (foresees : base.Foresees machine)
    (thread : Thread) (parked : List Thread) (log : List String) :
    base.Foresees { machine with thread := thread, parked := parked, log := log } :=
  ⟨foresees.options, foresees.files, foresees.kept, foresees.known, foresees.loads, foresees.named⟩

theorem Machine.HasBuiltins.rooted {machine : Machine} (builtins : machine.HasBuiltins) :
    (machine.findClass? rootClass).isSome = true := by
  have listed : ∃ c ∈ builtinClasses, c.name = rootClass := by decide +kernel
  obtain ⟨c, listed, name⟩ := listed
  rw [← name, builtins c listed]
  rfl

/-- Two machines that one machine foresees, and whose current threads are the same, a sound one. -/
structure Twins (base : Machine) where
  one : Machine
  two : Machine
  builtins : base.HasBuiltins
  foresees : base.Foresees one
  foresees' : base.Foresees two
  identified : one.Identified
  identified' : two.Identified
  sourced : one.Sourced
  same : two.thread = one.thread
  sound : one.thread.Sound fun id => ∃ c, (c ∈ one.classes ∧ c ∈ two.classes) ∧ c.id = id

namespace Twins

variable {base : Machine} {α β : Type}

/-- The class is in the dictionaries of both. -/
def Shared (twins : Twins base) (c : LinkedClass) : Prop :=
  c ∈ twins.one.classes ∧ c ∈ twins.two.classes

def Knows (twins : Twins base) (id : ClassId) : Prop := ∃ c, twins.Shared c ∧ c.id = id

/-- A class of both dictionaries declares the method. -/
def Offers (twins : Twins base) (method : Method) : Prop :=
  ∃ c, twins.Shared c ∧ method ∈ c.methods

/-- If the value is a reference, then it is null or to an object of the thread. -/
def Holds (twins : Twins base) (v : Value) : Prop := twins.one.thread.Holds v

/-- Later twins: the thread goes on, and nothing that was shared is lost. -/
structure Onward (twins later : Twins base) : Prop where
  shared : ∀ {c : LinkedClass}, twins.Shared c → later.Shared c
  lasts : twins.one.thread.Extends later.one.thread
  parked : later.one.parked = twins.one.parked

theorem Onward.refl (twins : Twins base) : twins.Onward twins :=
  ⟨fun shared => shared, .refl _, rfl⟩

theorem Onward.trans {first second third : Twins base} (one : first.Onward second)
    (two : second.Onward third) : first.Onward third :=
  ⟨fun shared => two.shared (one.shared shared), one.lasts.trans two.lasts,
    two.parked.trans one.parked⟩

variable {twins later : Twins base}

theorem Knows.onward {id : ClassId} (knows : twins.Knows id) (onward : twins.Onward later) :
    later.Knows id := by
  obtain ⟨c, shared, rfl⟩ := knows
  exact ⟨c, onward.shared shared, rfl⟩

theorem Offers.onward {method : Method} (offers : twins.Offers method) (onward : twins.Onward later) :
    later.Offers method := by
  obtain ⟨c, shared, listed⟩ := offers
  exact ⟨c, onward.shared shared, listed⟩

theorem Holds.onward {v : Value} (holds : twins.Holds v) (onward : twins.Onward later) :
    later.Holds v := holds.extends onward.lasts

theorem options_eq (twins : Twins base) : twins.two.options = twins.one.options :=
  twins.foresees'.options.trans twins.foresees.options.symm

/-! ## Actions that agree -/

/-- The action answers the same or halts with the same on both machines, and leaves twins. -/
def Agree (action : Exec α) (twins : Twins base) (Done : α → Twins base → Prop) : Prop :=
  (∃ v later, action twins.one = .ok v later.one ∧ action twins.two = .ok v later.two ∧
    twins.Onward later ∧ Done v later) ∨
  ∃ halt later, action twins.one = .error halt later.one ∧
    action twins.two = .error halt later.two ∧ twins.Onward later

section Agree

variable {Done Done' : α → Twins base → Prop} {action : Exec α}

theorem Agree.mono (agree : Agree action twins Done)
    (done : ∀ v later, twins.Onward later → Done v later → Done' v later) :
    Agree action twins Done' := by
  rcases agree with ⟨v, later, one, two, onward, holds⟩ | halted
  · exact .inl ⟨v, later, one, two, onward, done v later onward holds⟩
  · exact .inr halted

theorem agree_pure {v : α} (done : Done v twins) : Agree (pure v) twins Done :=
  .inl ⟨v, twins, rfl, rfl, .refl twins, done⟩

theorem agree_throw (halt : Halt) : Agree (throw halt : Exec α) twins Done :=
  .inr ⟨halt, twins, rfl, rfl, .refl twins⟩

theorem agree_fail (cause : Cause) : Agree (fail cause : Exec α) twins Done := agree_throw _

theorem agree_violate (violation : Violation) : Agree (violate violation : Exec α) twins Done :=
  agree_throw _

theorem Agree.bind {first : Exec β} {next : β → Exec α} {Between : β → Twins base → Prop}
    (agree : Agree first twins Between)
    (rest : ∀ v later, twins.Onward later → Between v later → Agree (next v) later Done) :
    Agree (first >>= next) twins Done := by
  rcases agree with ⟨v, middle, one, two, onward, between⟩ | ⟨halt, later, one, two, onward⟩
  · unfold Agree
    rw [bind_of_ok one, bind_of_ok two]
    rcases rest v middle onward between with
      ⟨w, later, one', two', onward', done⟩ | ⟨halt, later, one', two', onward'⟩
    · exact .inl ⟨w, later, one', two', onward.trans onward', done⟩
    · exact .inr ⟨halt, later, one', two', onward.trans onward'⟩
  · exact .inr ⟨halt, later, bind_of_error one, bind_of_error two, onward⟩

/-- What comes next does not depend on which of the machines is asked. -/
theorem agree_bind_get {next : Machine → Exec α} (same : next twins.two = next twins.one)
    (rest : Agree (next twins.one) twins Done) : Agree (get >>= next) twins Done := by
  unfold Agree
  rw [bind_get, bind_get, same]
  exact rest

theorem agree_bind_thread {next : Thread → Exec α}
    (rest : Agree (next twins.one.thread) twins Done) : Agree (Exec.thread >>= next) twins Done := by
  have bound : (Exec.thread >>= next) = get >>= fun machine => next machine.thread := rfl
  rw [bound]
  exact agree_bind_get (by rw [twins.same]) rest

theorem agree_guard {wrong : Prop} {_ : Decidable wrong} {halt : Halt} {next : Unit → Exec α}
    (rest : ¬ wrong → Agree (next ()) twins Done) :
    Agree (if wrong then throw halt >>= next else next ()) twins Done := by
  by_cases check : wrong
  · rw [if_pos check]
    exact agree_throw halt
  · rw [if_neg check]
    exact rest check

theorem agree_ofFault (answer : Except Fault α) :
    Agree (ofFault answer) twins fun v later => answer = .ok v ∧ later = twins := by
  cases answer with
  | ok v => exact agree_pure ⟨rfl, rfl⟩
  | error fault => exact agree_throw _

theorem agree_ofHalt (answer : Except Halt α) :
    Agree (ofHalt answer) twins fun v later => answer = .ok v ∧ later = twins := by
  cases answer with
  | ok v => exact agree_pure ⟨rfl, rfl⟩
  | error halt => exact agree_throw _

theorem agree_ofCause (answer : Except Cause α) :
    Agree (ofCause answer) twins fun v later => answer = .ok v ∧ later = twins := by
  cases answer with
  | ok v => exact agree_pure ⟨rfl, rfl⟩
  | error cause => exact agree_throw _

theorem agree_mapFault {change : Fault → Fault} (agree : Agree action twins Done) :
    Agree (mapFault change action) twins Done := by
  unfold Agree mapFault
  rcases agree with ⟨v, later, one, two, rest⟩ | ⟨halt, later, one, two, onward⟩
  · rw [one, two]
    exact .inl ⟨v, later, rfl, rfl, rest⟩
  · rw [one, two]
    exact .inr ⟨_, later, rfl, rfl, onward⟩

end Agree

/-! ## The thread -/

/-- Twins on which the thread is another one. -/
def withThread (twins : Twins base) (thread : Thread) (log log' : List String)
    (sound : thread.Sound twins.Knows) : Twins base where
  one := { twins.one with thread := thread, log := log }
  two := { twins.two with thread := thread, log := log' }
  builtins := twins.builtins
  foresees := twins.foresees.withThread _ _ _
  foresees' := twins.foresees'.withThread _ _ _
  identified := ⟨twins.identified.apart, twins.identified.named, twins.identified.layered⟩
  identified' := ⟨twins.identified'.apart, twins.identified'.named, twins.identified'.layered⟩
  sourced := twins.sourced
  same := rfl
  sound := sound

theorem onward_withThread {thread : Thread} {log log' : List String}
    {sound : thread.Sound twins.Knows} (lasts : twins.one.thread.Extends thread) :
    twins.Onward (twins.withThread thread log log' sound) :=
  ⟨fun shared => shared, lasts, rfl⟩

theorem agree_updateThread {change : Thread → Thread}
    (sound : (change twins.one.thread).Sound twins.Knows)
    (lasts : twins.one.thread.Extends (change twins.one.thread)) :
    Agree (updateThread change) twins fun _ later =>
      later.one.thread = change twins.one.thread := by
  refine .inl ⟨(), twins.withThread _ twins.one.log twins.two.log sound, rfl, ?_,
    onward_withThread lasts, rfl⟩
  show EStateM.Result.ok () { twins.two with thread := change twins.two.thread } = _
  rw [twins.same]
  rfl

/-- What is changed if an action halts. -/
theorem agree_onHalt {action : Exec α} {Done : α → Twins base → Prop} {change : Thread → Thread}
    (agree : Agree action twins Done)
    (sound : ∀ later : Twins base, twins.Onward later →
      (change later.one.thread).Sound later.Knows)
    (lasts : ∀ thread : Thread, thread.Extends (change thread)) :
    Agree (action.onHalt fun machine => machine.updateThread change) twins Done := by
  unfold Agree onHalt
  rcases agree with ⟨v, later, one, two, rest⟩ | ⟨halt, later, one, two, onward⟩
  · rw [one, two]
    exact .inl ⟨v, later, rfl, rfl, rest⟩
  · rw [one, two]
    refine .inr ⟨halt, later.withThread _ later.one.log later.two.log (sound later onward), rfl, ?_,
      onward.trans (onward_withThread (lasts _))⟩
    show EStateM.Result.error halt { later.two with thread := change later.two.thread } = _
    rw [later.same]
    rfl

theorem agree_trace (wanted : Options → Bool) (line : String) :
    Agree (trace wanted line) twins fun _ later => later.one.thread = twins.one.thread := by
  have traced (machine : Machine) : ∃ log, trace wanted line machine =
      .ok () { machine with log := log } := by
    by_cases asked : wanted machine.options = true
    · exact ⟨_, congrArg (EStateM.Result.ok ()) (if_pos asked)⟩
    · exact ⟨machine.log, congrArg (EStateM.Result.ok ()) (if_neg asked)⟩
  obtain ⟨log, one⟩ := traced twins.one
  obtain ⟨log', two⟩ := traced twins.two
  refine .inl ⟨(), twins.withThread twins.one.thread log log' twins.sound, one, ?_,
    onward_withThread (.refl _), rfl⟩
  rw [two]
  show _ = EStateM.Result.ok () { twins.two with thread := twins.one.thread, log := log' }
  rw [twins.same]

/-! ## Classes -/

section Classes

variable {c d : LinkedClass} {id : ClassId} {name : String}

/-- An id that both know stands for one class. -/
theorem classOf?_of_shared (twins : Twins base) (shared : twins.Shared c) :
    twins.one.classOf? c.id = some c ∧ twins.two.classOf? c.id = some c :=
  ⟨twins.identified.classOf? shared.1, twins.identified'.classOf? shared.2⟩

theorem agree_classOf (knows : twins.Knows id) :
    Agree (classOf id) twins fun c later => later = twins ∧ twins.Shared c ∧ c.id = id := by
  obtain ⟨c, shared, rfl⟩ := knows
  obtain ⟨one, two⟩ := twins.classOf?_of_shared shared
  exact .inl ⟨c, twins, classOf_eq_ok.mpr ⟨one, rfl⟩, classOf_eq_ok.mpr ⟨two, rfl⟩, .refl twins,
    rfl, shared, rfl⟩

/-- Two classes with the same id are one. -/
theorem shared_of_id (twins : Twins base) (known : c ∈ twins.one.classes)
    (known' : d ∈ twins.two.classes) (same : c.id = d.id) : twins.Shared c := by
  obtain rfl := twins.foresees.same_of_id twins.foresees' twins.identified twins.identified' known
    known' same
  exact ⟨known, known'⟩

/-- The superclasses of a class that both know are known to both. -/
theorem knows_of_mem_chain (twins : Twins base) (shared : twins.Shared c) (member : id ∈ c.chain) :
    twins.Knows id := by
  obtain ⟨d, known, same⟩ := twins.identified.known_of_mem_chain shared.1 member
  obtain ⟨e, known', same'⟩ := twins.identified'.known_of_mem_chain shared.2 member
  exact ⟨d, twins.shared_of_id known known' (same.trans same'.symm), same⟩

theorem agree_builtin (listed : name ∈ builtinClasses.map (·.name)) :
    Agree (builtin name) twins fun c later => later = twins ∧ twins.Shared c ∧
      twins.one.findClass? name = some c := by
  obtain ⟨c, member, rfl⟩ := List.mem_map.mp listed
  have one := twins.foresees.known (twins.builtins c member)
  have two := twins.foresees'.known (twins.builtins c member)
  have found {machine : Machine} (known : machine.findClass? c.name = some c) :
      builtin c.name machine = .ok c machine := by
    unfold builtin
    rw [bind_get, known]
    rfl
  exact .inl ⟨c, twins, found one, found two, .refl twins, rfl,
    ⟨List.mem_of_find?_eq_some one, List.mem_of_find?_eq_some two⟩, one⟩

/-- A name is resolved to the same class, whatever has been loaded so far. -/
theorem agree_resolve (name : String) :
    Agree (Loading.resolve name) twins fun c later => later.Shared c := by
  obtain ⟨trail, along⟩ := Loading.exists_trail twins.builtins.rooted name
  have ends (machine : Machine) (foresees : base.Foresees machine) :=
    (foresees.ends_resolve twins.builtins.rooted along).and
      (Loading.ends_resolve name (Steady.refl machine))
  have one := ends _ twins.foresees
  have two := ends _ twins.foresees'
  -- the machines that are left have the threads that were there, and more classes
  have leave {first second : Machine} (foresees : base.Foresees first)
      (foresees' : base.Foresees second) (thread : first.thread = twins.one.thread)
      (thread' : second.thread = twins.two.thread) (steady : twins.one.Steady first)
      (steady' : twins.two.Steady second) (parked : first.parked = twins.one.parked) :
      ∃ later : Twins base, later.one = first ∧ later.two = second ∧ twins.Onward later := by
    refine ⟨⟨first, second, twins.builtins, foresees, foresees', steady.identified twins.identified,
      steady'.identified twins.identified', steady.sourced twins.sourced,
      thread'.trans (twins.same.trans thread.symm), ?_⟩, rfl, rfl, ⟨?_, ?_, parked⟩⟩
    · rw [thread]
      refine twins.sound.mono fun id ⟨c, shared, same⟩ => ?_
      exact ⟨c, ⟨steady.mem shared.1, steady'.mem shared.2⟩, same⟩
    · exact fun shared => ⟨steady.mem shared.1, steady'.mem shared.2⟩
    · exact .of_heap (congrArg _ thread) (congrArg _ thread)
  unfold Agree
  cases run : Loading.resolve name twins.one with
  | ok c first =>
      obtain ⟨⟨answer, foresees, thread, parked⟩, steady, found⟩ := one.of_ok run
      cases run' : Loading.resolve name twins.two with
      | ok d second =>
          obtain ⟨⟨answer', foresees', thread', -⟩, steady', found'⟩ := two.of_ok run'
          obtain rfl := Except.ok.inj (answer.symm.trans answer')
          obtain ⟨later, rfl, rfl, onward⟩ := leave foresees foresees' thread thread' steady steady'
            parked
          exact .inl ⟨c, later, rfl, rfl, onward, List.mem_of_find?_eq_some found,
            List.mem_of_find?_eq_some found'⟩
      | error halt second =>
          obtain ⟨⟨⟨obstacle, answer', -⟩, -⟩, -⟩ := two.of_error run'
          cases answer.symm.trans answer'
  | error halt first =>
      obtain ⟨⟨⟨obstacle, answer, halts⟩, foresees, thread, parked⟩, steady⟩ := one.of_error run
      cases run' : Loading.resolve name twins.two with
      | ok d second =>
          obtain ⟨⟨answer', -⟩, -⟩ := two.of_ok run'
          cases answer.symm.trans answer'
      | error halt' second =>
          obtain ⟨⟨⟨obstacle', answer', halts'⟩, foresees', thread', -⟩, steady'⟩ := two.of_error run'
          cases answer.symm.trans answer'
          obtain rfl := halts.trans halts'.symm
          obtain ⟨later, rfl, rfl, onward⟩ := leave foresees foresees' thread thread' steady steady'
            parked
          exact .inr ⟨halt, later, rfl, rfl, onward⟩

end Classes

end Twins

end Jvm
