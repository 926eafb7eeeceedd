/-
# Jvm.Proofs.Call.References — references that do not dangle

In a session whose calls are given references to objects of the calling thread at most, every thread
is closed and accounted for, between calls and inside of them (`references_stay_own`): each reference
is null or to an object that the thread has made, and the bytes in use are those of its objects. This
is what twins say of a machine and itself.
-/
import Jvm.Proofs.Call.Twins
import Jvm.Proofs.Machine.Granted
import Jvm.Proofs.Machine.ObjectProperties

namespace Jvm

set_option autoImplicit false

open Exec Machine

namespace Machine

/-- A class of the dictionary has the id. -/
def HasId (machine : Machine) (id : ClassId) : Prop := ∃ c ∈ machine.classes, c.id = id

/-- Every thread refers to objects of its own only. -/
structure Secluded (machine : Machine) : Prop where
  builtins : machine.HasBuiltins
  identified : machine.Identified
  sourced : machine.Sourced
  numbered : machine.Numbered
  sound : ∀ thread ∈ machine.threads, thread.Sound machine.HasId

/-- Every thread goes on, and its objects are still there. -/
def Lasts (machine later : Machine) : Prop :=
  ∀ thread ∈ machine.threads, ∃ after ∈ later.threads, thread.Extends after

variable {machine later : Machine}

theorem HasId.mono {id : ClassId} (has : machine.HasId id)
    (kept : machine.classes ⊆ later.classes) : later.HasId id := by
  obtain ⟨c, known, same⟩ := has
  exact ⟨c, kept known, same⟩

theorem Lasts.of_threads (same : later.threads = machine.threads) : machine.Lasts later :=
  fun thread member => ⟨thread, same ▸ member, .refl thread⟩

/-- The dictionary grows, and the threads are as they were. -/
theorem Secluded.of_threads (secluded : machine.Secluded) (grows : machine.Grows later)
    (same : later.threads = machine.threads) : later.Secluded where
  builtins := dictionary_hasBuiltins.grows machine later grows secluded.builtins
  identified := grows.identified secluded.identified
  sourced := grows.sourced secluded.sourced
  numbered := secluded.numbered.grows grows
  sound thread member :=
    (secluded.sound thread (same ▸ member)).mono fun _ has => has.mono fun _ => grows.mem

/-- Loading and entering classes leave the threads to themselves. -/
theorem keeps_secluded {α : Type} {action : Exec α}
    (grows : ∀ machine : Machine, Keeps machine.Steady action)
    (same : ∀ threads : List Thread, Keeps (·.threads = threads) action) : Keeps Secluded action := by
  intro machine secluded
  refine ((grows machine machine (Steady.refl machine)).and (same _ machine rfl)).mono ?_ ?_
  all_goals exact fun _ _ ended => secluded.of_threads ended.1.toGrows ended.2

/-- Other threads are current and parked. -/
theorem Secluded.withThreads (secluded : machine.Secluded) {thread : Thread} {parked : List Thread}
    (numbered : Numbered { machine with thread := thread, parked := parked })
    (sound : ∀ other ∈ thread :: parked, other.Sound machine.HasId) :
    { machine with thread := thread, parked := parked }.Secluded where
  builtins := dictionary_hasBuiltins.threads _ _ _ secluded.builtins
  identified := dictionary_identified.threads _ _ _ secluded.identified
  sourced := dictionary_sourced.threads _ _ _ secluded.sourced
  numbered := numbered
  sound := sound

end Machine

/-! ## A new thread -/

theorem Heap.accounted_empty (capacity : Nat) : (Heap.empty capacity).Accounted :=
  ⟨rfl, Nat.zero_le _⟩

theorem Heap.exists_empty_of_reserve {bytes : UInt64} {heap : Heap}
    (reserved : Heap.reserve bytes = .ok heap) : ∃ capacity, heap = .empty capacity := by
  unfold Heap.reserve at reserved
  split at reserved
  · exact ⟨_, (Except.ok.inj reserved).symm⟩
  · cases reserved

/-- A new thread has no references at all. -/
theorem Thread.sound_start (Known : ClassId → Prop) (number : Nat) (name : String)
    (state : ThreadState) (capacity : Nat) :
    (Thread.start number name state (.empty capacity)).Sound Known where
  closed := ⟨fun _ listed => absurd listed List.not_mem_nil,
    fun object held => absurd held (Array.not_mem_empty object),
    fun _ listed => absurd listed List.not_mem_nil, fun _ listed => absurd listed StringTable.not_mem_empty⟩
  accounted := Heap.accounted_empty capacity
  methods _ listed := absurd listed List.not_mem_nil
  classes object held := absurd held (Array.not_mem_empty object)

/-! ## A machine as a twin of its own -/

namespace Twins

variable {base : Machine} {twins : Twins base}

def ofOne {machine : Machine} (secluded : machine.Secluded) : Twins machine where
  one := machine
  two := machine
  builtins := secluded.builtins
  foresees := .refl machine
  foresees' := .refl machine
  identified := secluded.identified
  identified' := secluded.identified
  sourced := secluded.sourced
  same := rfl
  sound := (secluded.sound _ List.mem_cons_self).mono fun _ ⟨c, known, same⟩ =>
    ⟨c, ⟨known, known⟩, same⟩

/-- The machine is later, and a twin of its own. -/
def Alone (first : Twins base) (machine : Machine) : Prop :=
  ∃ later : Twins base, later.one = machine ∧ later.two = machine ∧ first.Onward later

/-- An action that agrees on a machine and itself leaves such a machine. -/
theorem Agree.alone {α : Type} {action : Exec α} {Done : α → Twins base → Prop}
    (agree : Agree action twins Done) (self : twins.two = twins.one) :
    action.Ends twins.one
      (fun v machine => ∃ later : Twins base, later.one = machine ∧ later.two = machine ∧
        twins.Onward later ∧ Done v later)
      fun _ machine => twins.Alone machine := by
  unfold Exec.Ends
  rcases agree with ⟨v, later, one, two, onward, done⟩ | ⟨halt, later, one, two, onward⟩
  · rw [self, one] at two
    injection two with _ same
    rw [one]
    exact ⟨later, rfl, same.symm, onward, done⟩
  · rw [self, one] at two
    injection two with _ same
    rw [one]
    exact ⟨later, rfl, same.symm, onward⟩

variable {machine passed : Machine}

/-- What agrees on every later machine and itself leaves one that is later still. -/
theorem Alone.ends {α : Type} {action : Exec α} (alone : twins.Alone machine)
    (agree : ∀ later : Twins base, later.one = machine → later.two = machine →
      twins.Onward later → ∃ Done, Agree action later Done) :
    action.Ends machine (fun _ => twins.Alone) fun _ => twins.Alone := by
  obtain ⟨later, rfl, self, onward⟩ := alone
  obtain ⟨Done, agree⟩ := agree later rfl self onward
  refine (agree.alone self).mono (fun _ _ ended => ?_) fun _ _ ended => ?_
  · obtain ⟨last, one, two, onward', -⟩ := ended
    exact ⟨last, one, two, onward.trans onward'⟩
  · obtain ⟨last, one, two, onward'⟩ := ended
    exact ⟨last, one, two, onward.trans onward'⟩

theorem Alone.updateThread (alone : twins.Alone machine) {change : Thread → Thread}
    (sound : ∀ (later : Twins base) (thread : Thread), thread.Sound later.Knows →
      (change thread).Sound later.Knows)
    (lasts : ∀ thread : Thread, thread.Extends (change thread)) :
    twins.Alone (machine.updateThread change) := by
  have ended := alone.ends fun later _ _ _ =>
    ⟨_, agree_updateThread (sound later _ later.sound) (lasts _)⟩
  exact ended

theorem Alone.lasts {secluded : machine.Secluded} (alone : (ofOne secluded).Alone passed) :
    machine.Lasts passed := by
  obtain ⟨later, rfl, -, onward⟩ := alone
  intro thread member
  rcases List.mem_cons.mp member with rfl | waits
  · exact ⟨_, List.mem_cons_self, onward.lasts⟩
  · refine ⟨thread, List.mem_cons_of_mem _ ?_, .refl thread⟩
    rw [onward.parked]
    exact waits

theorem Alone.secluded {secluded : machine.Secluded} (alone : (ofOne secluded).Alone passed) :
    passed.Secluded := by
  obtain ⟨later, rfl, self, onward⟩ := alone
  refine ⟨fun c listed => later.foresees.known (later.builtins c listed), later.identified,
    later.sourced, ?_, fun thread member => ?_⟩
  · refine secluded.numbered.of_perm (.of_eq ?_)
    have number : later.one.thread.number = machine.thread.number := onward.lasts.number
    have parked : later.one.parked = machine.parked := onward.parked
    unfold threads
    rw [List.map_cons, List.map_cons, number, parked]
  · rcases List.mem_cons.mp member with rfl | waits
    · exact later.sound.mono fun _ ⟨c, shared, same⟩ => ⟨c, shared.1, same⟩
    · rw [onward.parked] at waits
      refine (secluded.sound thread (List.mem_cons_of_mem _ waits)).mono
        fun id ⟨c, known, same⟩ => ⟨c, ?_, same⟩
      exact (onward.shared ⟨known, known⟩).1

end Twins

/-! ## Calls -/

namespace Machine

open Twins

variable {machine : Machine} {method : Method} {arguments : List Value}

/-- The references among the arguments are null or to objects of the thread. -/
def GivesOwn (machine : Machine) (_ : Method) (arguments : List Value) : Prop :=
  ∀ v ∈ arguments, machine.thread.Holds v

theorem GivesOwn.later {secluded : machine.Secluded} (own : machine.GivesOwn method arguments)
    {later : Twins machine} (onward : (ofOne secluded).Onward later) :
    ∀ v ∈ arguments, later.Holds v := by
  have mine : ∀ v ∈ arguments, (ofOne secluded).Holds v := own
  exact fun v member => (mine v member).onward onward

/-- Everything that a call is made of leaves the machine a twin of its own. -/
theorem preserves_alone (secluded : machine.Secluded) (declared : machine.Declares method)
    (own : machine.GivesOwn method arguments) :
    Call.Preserves method arguments (fun _ => True) (ofOne secluded).Alone
      (ofOne secluded).Alone where
  weaken _ alone := alone
  state _ state alone :=
    alone.updateThread (fun _ _ sound => sound.beside rfl rfl rfl rfl rfl) fun _ => .of_heap rfl rfl
  ready c current known alone := by
    refine alone.ends fun later one two _ => ⟨_, agree_ensureReady ⟨?_, ?_⟩⟩
    · rwa [one]
    · rwa [two]
  step _ _ alone := alone.ends fun _ _ _ _ => ⟨_, agree_step⟩
  native native bound _ alone := by
    obtain ⟨c, known, listed⟩ := declared
    have sound := (secluded.sourced c known).method listed
    exact alone.ends fun _ _ _ onward =>
      ⟨_, agree_native (sound.native native bound) (own.later onward)⟩
  enter callee made current owned alone := by
    obtain ⟨c, known, owner⟩ := owned
    refine alone.ends fun later one two onward => ⟨_, agree_pushFrame ?_ ?_ ⟨c, ⟨?_, ?_⟩, rfl⟩⟩
    · have within := Frame.within_withArguments (own.later onward) made
      exact ⟨within.locals, within.stack⟩
    · obtain ⟨locals, rfl⟩ := Frame.withArguments_eq_ok made
      exact owner
    · rwa [one]
    · rwa [two]
  unwind _ depth state alone :=
    alone.updateThread
      (fun _ _ sound => (sound.unwindTo depth).beside rfl rfl rfl rfl rfl)
      fun thread => .of_heap (thread.same_unwindTo depth).1 (thread.same_unwindTo depth).2.1

theorem alone_refl (secluded : machine.Secluded) : (ofOne secluded).Alone machine :=
  ⟨ofOne secluded, rfl, rfl, .refl _⟩

theorem Secluded.alone_of_passes {passed : Machine} (secluded : machine.Secluded)
    (declared : machine.Declares method) (own : machine.GivesOwn method arguments)
    (passes : Call.Passes method arguments machine passed) : (ofOne secluded).Alone passed :=
  (preserves_alone secluded declared own).passes (fun _ _ => trivial) passes (alone_refl secluded)

/-- What agrees on a machine and itself leaves one that lasts. -/
theorem Secluded.alone_after {α : Type} {action : Exec α} {Done : α → Twins machine → Prop}
    (secluded : machine.Secluded) (agree : Agree action (ofOne secluded) Done) :
    (ofOne secluded).Alone (action.after machine) :=
  ((agree.alone rfl).mono (fun _ _ ⟨later, one, two, onward, _⟩ => ⟨later, one, two, onward⟩)
    fun _ _ alone => alone).after

/-! ## Sessions -/

theorem secluded_start {options : Options} {files : Files}
    (started : Machine.start options files = .ok machine) : machine.Secluded := by
  have founded := (founded_start started).1
  refine ⟨founded.builtins, founded.identified, founded.sourced, founded.numbered, ?_⟩
  obtain ⟨heap, reserved, rfl⟩ := exists_start_reserved started
  obtain ⟨capacity, rfl⟩ := Heap.exists_empty_of_reserve reserved
  intro thread member
  rw [threads_withBuiltins] at member
  obtain rfl := List.mem_singleton.mp member
  exact Thread.sound_start _ 0 "main" .inMachine capacity

theorem endures_secluded : Endures GivesOwn Secluded where
  start := secluded_start
  call secluded declared own passes := (secluded.alone_of_passes declared own passes).secluded
  intern text machine secluded := by
    have ended := (alone_refl secluded).ends fun _ _ _ _ => ⟨_, agree_intern text⟩
    exact ended.mono (fun _ _ alone => alone.secluded) fun _ _ alone => alone.secluded
  resolve name := keeps_secluded (fun _ => Loading.keeps_resolve name)
    fun _ => Loading.keeps_resolve_threads name
  define read := keeps_secluded (fun _ => Loading.keeps_define (.inl ⟨_, _, read⟩))
    fun _ => Loading.keeps_define_threads _
  create name secluded reserved := by
    obtain ⟨capacity, rfl⟩ := Heap.exists_empty_of_reserve reserved
    exact secluded.withThreads (secluded.numbered.create name _)
      (List.forall_mem_cons.mpr ⟨Thread.sound_start _ _ name .new capacity, secluded.sound⟩)
  switch {machine thread} secluded waits := by
    have perm := secluded.numbered.perm_switch waits
    refine secluded.withThreads (secluded.numbered.of_perm (perm.map _)) fun other member => ?_
    exact secluded.sound other (perm.mem_iff.mpr member)

variable {later : Machine}

/-- No part of the session loses a thread, an object or the count of a byte. -/
theorem Secluded.lasts (secluded : machine.Secluded) (proceeds : Proceeds GivesOwn machine later) :
    machine.Lasts later := by
  cases proceeds with
  | call declared fuel own => exact (secluded.alone_of_passes declared own .ends).lasts
  | intern text => exact (secluded.alone_after (agree_intern text)).lasts
  | resolve name => exact .of_threads ((Loading.keeps_resolve_threads name).after rfl)
  | define read => exact .of_threads ((Loading.keeps_define_threads _).after rfl)
  | createThread name size =>
      rcases createThread_cases machine name size with same | ⟨-, heap, -, same⟩
      · exact .of_threads (congrArg threads same)
      · rw [same]
        exact fun other member => ⟨other, List.mem_cons_of_mem _ member, .refl other⟩
  | switchTo number =>
      rcases switchTo_cases machine number with same | ⟨thread, waits, rfl, same⟩
      · exact .of_threads (congrArg threads same)
      · rw [same]
        have perm := secluded.numbered.perm_switch waits
        exact fun other member => ⟨other, perm.mem_iff.mp member, .refl other⟩

/-! ## Allocations -/

/-- Allocating fails if and only if there is no room for the object, and then nothing happens. -/
theorem allocate_eq_error {c : LinkedClass} {halt : Halt} :
    allocate c machine = .error halt later ↔ machine.thread.heap.free < Heap.sizeOf c ∧
      halt = (machine.thread.heap.exhausted c).halt ∧ later = machine := by
  unfold allocate Heap.hasRoom
  by_cases room : Heap.sizeOf c ≤ machine.thread.heap.free
  · rw [if_pos (decide_eq_true room)]
    exact ⟨nofun, fun full => absurd room (Nat.not_le.mpr full.1)⟩
  · rw [if_neg (by simpa using room)]
    constructor
    · intro failed
      injection failed with halted same
      exact ⟨Nat.lt_of_not_le room, halted.symm, same.symm⟩
    · rintro ⟨-, rfl, rfl⟩
      rfl

theorem lacksRoom_iff {halt : Halt} :
    machine.LacksRoom halt ↔ ∃ c, machine.findClass? stringClass = some c ∧
      allocate c machine = .error halt machine := by
  unfold LacksRoom Heap.hasRoom
  simp only [allocate_eq_error, and_true, decide_eq_false_iff_not, Nat.not_le]

/-- Interning fails if and only if the text is new and there is no room for a string, and then
nothing happens. -/
theorem intern_eq_error (builtins : machine.HasBuiltins) {text : String} {halt : Halt} :
    intern text machine = .error halt later ↔ machine.thread.interned? text = none ∧
      machine.LacksRoom halt ∧ later = machine := by
  have asks : Exec.thread machine = .ok machine.thread machine := rfl
  constructor
  · intro failed
    obtain ⟨same, fresh, lacks⟩ := (ends_intern builtins text).of_error failed
    exact ⟨fresh, lacks, same⟩
  · rintro ⟨fresh, lacks, rfl⟩
    obtain ⟨c, found, failed⟩ := lacksRoom_iff.mp lacks
    have known : builtin stringClass later = .ok c later := by
      unfold builtin
      rw [bind_get, found]
      rfl
    refine (bind_of_ok asks).trans ?_
    rw [fresh]
    exact (bind_of_ok known).trans (bind_of_error failed)

/-- In every machine of a session whose calls are given references to objects of the calling thread
at most: every reference that a thread keeps is null or to an object of the thread, the bytes in use
are those of its objects, and they are no more than there are. No step, no class that is made ready, no
call and no other part of the session takes an object or a used byte away. What a call answers, the
thread holds. An allocation fails if and only if the object is larger than what is free, and then
everything is as it was. -/
theorem references_stay_own (machine : Machine) (attained : Attained GivesOwn machine) :
    (∀ thread ∈ machine.threads, thread.Closed ∧ thread.heap.Accounted) ∧
    (machine.Lasts (step.after machine) ∧
      ∀ c ∈ machine.classes, machine.Lasts ((Initialization.ensureReady c).after machine)) ∧
    (∀ (c : LinkedClass) (halt : Halt) (later : Machine), allocate c machine = .error halt later ↔
      machine.thread.heap.free < Heap.sizeOf c ∧ halt = (machine.thread.heap.exhausted c).halt ∧
        later = machine) ∧
    (∀ (text : String) (halt : Halt) (later : Machine), intern text machine = .error halt later ↔
      machine.thread.interned? text = none ∧ machine.LacksRoom halt ∧ later = machine) ∧
    (Conducted GivesOwn machine →
      (∀ later, Proceeds GivesOwn machine later → machine.Lasts later) ∧
      ∀ (method : Method) (arguments : List Value), machine.Declares method →
        machine.GivesOwn method arguments →
        (∀ passed, Call.Passes method arguments machine passed → machine.Lasts passed) ∧
        ∀ (fuel : Nat) (v : Value) (later : Machine),
          Call.run fuel method arguments machine = .ok v later → later.thread.Holds v) := by
  have secluded := endures_secluded.attained attained
  refine ⟨fun thread member => ?_, ⟨(secluded.alone_after agree_step).lasts, fun c known =>
    (secluded.alone_after (agree_ensureReady ⟨known, known⟩)).lasts⟩,
    fun _ _ _ => allocate_eq_error, fun _ _ _ => intern_eq_error secluded.builtins,
    fun _ => ⟨fun _ => secluded.lasts, fun method arguments declared own => ⟨fun _ passes => ?_,
      fun fuel v later ran => ?_⟩⟩⟩
  · exact ⟨(secluded.sound thread member).closed, (secluded.sound thread member).accounted⟩
  · exact (secluded.alone_of_passes declared own passes).lasts
  · obtain ⟨c, known, listed⟩ := declared
    have offers : (ofOne secluded).Offers method := ⟨c, ⟨known, known⟩, listed⟩
    obtain ⟨last, rfl, -, -, holds⟩ := ((agree_run fuel offers own).alone rfl).of_ok ran
    exact holds

/-! ## A cell -/

/-- The file of a class with a field `v` of type `int`. The static method `make` returns a new object of
the class, `set` assigns the field of its first argument the second one, and `get` returns the field of
its argument. -/
def cellFile : List UInt8 :=
  [202, 254, 186, 190, 0, 0, 0, 52, 0, 16, 1, 0, 4, 67, 101, 108, 108, 7, 0, 1, 1, 0, 16, 106, 97,
    118, 97, 47, 108, 97, 110, 103, 47, 79, 98, 106, 101, 99, 116, 7, 0, 3, 1, 0, 4, 67, 111, 100,
    101, 1, 0, 1, 118, 1, 0, 1, 73, 12, 0, 6, 0, 7, 9, 0, 2, 0, 8, 1, 0, 4, 109, 97, 107, 101, 1,
    0, 8, 40, 41, 76, 67, 101, 108, 108, 59, 1, 0, 3, 115, 101, 116, 1, 0, 10, 40, 76, 67, 101,
    108, 108, 59, 73, 41, 86, 1, 0, 3, 103, 101, 116, 1, 0, 9, 40, 76, 67, 101, 108, 108, 59, 41,
    73, 0, 33, 0, 2, 0, 4, 0, 0, 0, 1, 0, 0, 0, 6, 0, 7, 0, 0, 0, 3, 0, 9, 0, 10, 0, 11, 0, 1, 0,
    5, 0, 0, 0, 16, 0, 1, 0, 0, 0, 0, 0, 4, 187, 0, 2, 176, 0, 0, 0, 0, 0, 9, 0, 12, 0, 13, 0, 1,
    0, 5, 0, 0, 0, 18, 0, 2, 0, 2, 0, 0, 0, 6, 42, 27, 181, 0, 9, 177, 0, 0, 0, 0, 0, 9, 0, 14, 0,
    15, 0, 1, 0, 5, 0, 0, 0, 17, 0, 1, 0, 1, 0, 0, 0, 5, 42, 180, 0, 9, 172, 0, 0, 0, 0, 0, 0]

/-- The built-in classes, and the class of the file. -/
def cells : Machine :=
  (blank .standard .empty (.empty 8388608)).withBuiltins.withFile "Cell" cellFile

/-- The method `make` is called. -/
def cellMade : Machine := cells.calling "make" 16 []

/-- The method `set` is called with the object that has been made. -/
def cellSet : Machine := cellMade.calling "set" 16 [.ref (some ⟨0, 0⟩), .int 7]

theorem references_stay_own_cell :
    (cellSet.thread.heap.objects.size = 1 ∧ cellSet.thread.Closed ∧ cellSet.thread.heap.Accounted) ∧
      ∃ (method : Method) (later : Machine), cells.Declares method ∧
        Call.run 16 method [] cells = .ok (.ref (some ⟨0, 0⟩)) later ∧
        later.thread.Holds (.ref (some ⟨0, 0⟩)) := by
  have start : Conducted GivesOwn cells :=
    (Conducted.start (start_eq_ok rfl)).withFile "Cell" cellFile
  have made : Conducted GivesOwn cellMade := start.calling 16 fun _ _ => nofun
  have own : cellMade.thread.Holds (.ref (some ⟨0, 0⟩)) := by
    obtain ⟨number, size⟩ : cellMade.thread.number = 0 ∧
        0 < cellMade.thread.heap.objects.size := by decide +kernel
    exact ⟨number.symm, size⟩
  have assigned : Conducted GivesOwn cellSet := made.calling 16 fun _ _ => by
    rintro v (_ | ⟨_, _ | ⟨_, _ | _⟩⟩)
    · exact own
    · trivial
  obtain ⟨threads, -⟩ := references_stay_own cellSet (.between assigned)
  refine ⟨⟨by decide +kernel, threads _ List.mem_cons_self⟩, ?_⟩
  have answers : ((cells.classes.flatMap (·.methods)).find? (·.name == "make")).bind
      (fun method => (Call.run 16 method []).answer? cells) = some (.ref (some ⟨0, 0⟩)) := by
    decide +kernel
  obtain ⟨method, found, answered⟩ := Option.bind_eq_some_iff.mp answers
  obtain ⟨c, known, listed⟩ := List.mem_flatMap.mp (List.mem_of_find?_eq_some found)
  have ran := run_of_answer? answered
  obtain ⟨-, -, -, -, parts⟩ := references_stay_own cells (.between start)
  obtain ⟨-, calls⟩ := parts start
  exact ⟨method, _, ⟨c, known, listed⟩, ran, (calls method [] ⟨c, known, listed⟩ nofun).2 16 _ _ ran⟩

end Machine

end Jvm
