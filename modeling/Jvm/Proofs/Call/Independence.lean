/-
# Jvm.Proofs.Call.Independence — threads that do not influence each other

What a thread does can load classes and fill the memories of pools, and nothing else of it is seen
by others. Calls leave a machine that the first one foresees (`Precedes`), so a new thread on either
is a thread of twins. A call on the new thread has the same outcome whether other calls were made
before or not, and leaves the same thread, if it is given no objects of other threads
(`new_thread_independent`).
-/
import Jvm.Proofs.Call.References
import Jvm.Proofs.Machine.Basics
import Jvm.Proofs.Pool.Readings

namespace Jvm

set_option autoImplicit false

open Exec Machine
open ClassFile.Reader (rootClass)

namespace Machine

/-! ## What calls leave to others -/

/-- The second machine is the first one with more classes, and with as many threads. -/
structure Precedes (first later : Machine) : Prop extends first.Foresees later where
  waiting : later.parked.length = first.parked.length

/-- The first machine, with classes found, strings interned and methods called on its current thread,
in any order and whether or not that succeeds. -/
inductive Calls (first : Machine) : Machine → Prop
  | none : Calls first first
  | call {later : Machine} {method : Method} (calls : Calls first later)
      (declared : later.Declares method) (fuel : Nat) (arguments : List Value) :
      Calls first ((Call.run fuel method arguments).after later)
  | resolve {later : Machine} (calls : Calls first later) (name : String) :
      Calls first ((Loading.resolve name).after later)
  | intern {later : Machine} (calls : Calls first later) (text : String) :
      Calls first ((Exec.intern text).after later)

variable {first machine later : Machine}

theorem Precedes.refl (machine : Machine) : machine.Precedes machine := ⟨.refl machine, rfl⟩

/-- Only threads, their number aside, and the log are others. -/
theorem Precedes.beside (precedes : first.Precedes machine) (options : later.options = machine.options)
    (files : later.files = machine.files) (classes : later.classes = machine.classes)
    (waiting : later.parked.length = machine.parked.length) : first.Precedes later := by
  obtain ⟨options', files', classes', thread, parked, log⟩ := later
  cases options
  cases files
  cases classes
  exact ⟨precedes.toForesees.withThread thread parked log, waiting.trans precedes.waiting⟩

theorem Precedes.updateHeap (precedes : first.Precedes machine) (number : Nat) (change : Heap → Heap) :
    first.Precedes (machine.updateHeap number change) := by
  unfold Machine.updateHeap
  split
  · exact precedes.beside rfl rfl rfl rfl
  · exact precedes.beside rfl rfl rfl (List.length_map _)

end Machine

namespace Exec

variable {first : Machine}

theorem keeps_allocate_precedes (c : LinkedClass) : Keeps first.Precedes (allocate c) :=
  fun _ precedes => ends_allocate_of precedes (precedes.beside rfl rfl rfl rfl)

theorem keeps_putField_precedes (ref : Ref) (slot : Nat) (v : Value) :
    Keeps first.Precedes (putField ref slot v) :=
  keeps_modify fun _ precedes => precedes.updateHeap _ _

/-- The simplest actions add classes that were foreseen. -/
theorem basics_precedes (rooted : (first.findClass? rootClass).isSome = true) :
    Basics first.Precedes where
  threads precedes _ _ _ _ := precedes.beside rfl rfl rfl rfl
  traces wanted line := keeps_modify fun _ precedes => by
    split
    · exact precedes.beside rfl rfl rfl rfl
    · exact precedes
  resolve name machine precedes := by
    obtain ⟨trail, along⟩ := Loading.exists_trail rooted name
    exact (precedes.toForesees.ends_resolve rooted along).mono
      (fun _ _ ended => ⟨ended.2.1, (congrArg _ ended.2.2.2).trans precedes.waiting⟩)
      fun _ _ ended => ⟨ended.2.1, (congrArg _ ended.2.2.2).trans precedes.waiting⟩
  interns text := by
    refine keeps_bind keeps_thread fun thread => ?_
    split
    · exact keeps_pure _
    · refine keeps_bind (keeps_builtin _) fun c => keeps_bind (keeps_allocate_precedes c) fun ref => ?_
      refine keeps_bind (keeps_putField_precedes _ _ _) fun _ => ?_
      exact keeps_bind (keeps_modify fun _ precedes => precedes.beside rfl rfl rfl rfl)
        fun _ => keeps_pure _
  streams precedes _ := keeps_allocate_precedes _ _ precedes

theorem parts_precedes (rooted : (first.findClass? rootClass).isSome = true) (length : Nat) :
    Parts length first.Precedes first.Precedes where
  toHandles := (basics_precedes rooted).handles fun field machine _ _ precedes => by
    have onTop {α : Type} (action : FrameM α) := (basics_precedes rooted).keeps_onTop action
    have assigns : Keeps first.Precedes (setField field length) := by
      refine keeps_bind (onTop _) fun v => keeps_bind (onTop _) fun object => ?_
      cases object with
      | none => exact keeps_fail _
      | some ref =>
          refine keeps_bind (keeps_checkField ref field) fun _ => ?_
          exact keeps_bind (keeps_putField_precedes _ _ _) fun _ => onTop _
    exact assigns machine precedes
  allocate c machine _ precedes := keeps_allocate_precedes c machine precedes

theorem kept_precedes (rooted : (first.findClass? rootClass).isSome = true) :
    Call.Kept first.Precedes first.Precedes :=
  (basics_precedes rooted).kept (keeps_step_of_parts (parts_precedes rooted)
    (basics_precedes rooted).traces fun _ _ _ _ _ precedes _ _ => precedes)

end Exec

namespace Machine

variable {first machine later : Machine}

/-- Whatever is called, only foreseen classes are added for others to see. -/
theorem Calls.precedes (calls : first.Calls later)
    (rooted : (first.findClass? rootClass).isSome = true) : first.Precedes later := by
  induction calls with
  | none => exact .refl first
  | call calls declared fuel arguments ih =>
      exact (kept_precedes rooted).left ((kept_precedes rooted).run fuel _ arguments) ih
  | resolve calls name ih => exact ((basics_precedes rooted).resolve name).after ih
  | intern calls text ih => exact ((basics_precedes rooted).interns text).after ih

theorem Calls.dictionary {P : Machine → Prop} (dictionary : Dictionary P) (calls : first.Calls later)
    (holds : P first) : P later := by
  have endures := dictionary.endures fun _ _ _ => True
  induction calls with
  | none => exact holds
  | call calls declared fuel arguments ih => exact endures.proceeds (.call declared fuel trivial) ih
  | resolve calls name ih => exact endures.proceeds (.resolve name) ih
  | intern calls text ih => exact endures.proceeds (.intern text) ih

/-- The method of a name is called. -/
theorem Calls.calling (calls : first.Calls later) (name : String) (fuel : Nat)
    (arguments : List Value) : first.Calls (later.calling name fuel arguments) := by
  unfold Machine.calling
  split
  · exact calls
  · rename_i method found
    obtain ⟨c, known, listed⟩ := List.mem_flatMap.mp (List.mem_of_find?_eq_some found)
    exact calls.call ⟨c, known, listed⟩ fuel arguments

end Machine

/-! ## A call on a new thread -/

namespace Call

/-- What a call on a new thread is given: a value, the string of a text, or a new object of a class. -/
inductive Given where
  | value (v : Value)
  | text (content : String)
  | object (className : String)

/-- The value that is given as an argument. -/
def Given.make : Given → Exec Value
  | .value v => return v
  | .text content => return .ref (some (← Exec.intern content))
  | .object className => do
      let c ← Loading.resolve className
      return .ref (some (← Exec.allocate c))

/-- Nothing is given that belongs to another thread: a value is null or no reference. -/
def Given.IsOwn : Given → Prop
  | .value v => v.IsPlain
  | .text _ => True
  | .object _ => True

/-- A method of a class is called by its name on a new thread. -/
def onNewThread (threadName : String) (heapSize : UInt64) (find : Exec LinkedClass) (fuel : Nat)
    (name descriptor : String) (given : List Given) : Exec Value := do
  createThread threadName heapSize
  let c ← find
  let arguments ← given.mapM' Given.make
  runNamed fuel c name descriptor arguments

end Call

namespace Twins

variable {base : Machine} {twins : Twins base}

open Call

theorem agree_make {given : Given} (own : given.IsOwn) :
    Agree given.make twins fun v later => later.Holds v := by
  cases given with
  | value v => exact agree_pure own.within
  | text content =>
      exact (agree_intern content).bind fun _ _ _ holds => agree_pure holds
  | object className =>
      refine (agree_resolve className).bind fun c found _ shared => ?_
      exact (agree_allocate ⟨c, shared, rfl⟩).bind fun _ _ _ holds => agree_pure holds

theorem agree_makeAll (given : List Given) (own : ∀ item ∈ given, item.IsOwn) :
    Agree (given.mapM' Given.make) twins fun arguments later => ∀ v ∈ arguments, later.Holds v := by
  induction given generalizing twins with
  | nil => exact agree_pure nofun
  | cons item rest ih =>
      obtain ⟨first, others⟩ := List.forall_mem_cons.mp own
      rw [List.mapM'_cons]
      refine (agree_make first).bind fun v made _ holds => ?_
      refine (ih others).bind fun arguments later onward held => agree_pure ?_
      exact List.forall_mem_cons.mpr ⟨holds.onward onward, held⟩

end Twins

/-- The action answers or halts with the same on both machines, and leaves the same thread. -/
def Exec.SameOn {α : Type} (action : Exec α) (one two : Machine) : Prop :=
  (∃ v one' two', action one = .ok v one' ∧ action two = .ok v two' ∧ two'.thread = one'.thread) ∨
  ∃ halt one' two', action one = .error halt one' ∧ action two = .error halt two' ∧
    two'.thread = one'.thread

theorem Twins.Agree.sameOn {base : Machine} {twins : Twins base} {α : Type} {action : Exec α}
    {Done : α → Twins base → Prop} (agree : Agree action twins Done) :
    action.SameOn twins.one twins.two := by
  rcases agree with ⟨v, later, one, two, -⟩ | ⟨halt, later, one, two, -⟩
  · exact .inl ⟨v, later.one, later.two, one, two, later.same⟩
  · exact .inr ⟨halt, later.one, later.two, one, two, later.same⟩

namespace Machine

variable {first later machine : Machine}

/-- The machine with a new thread, which is current. -/
def withNew (machine : Machine) (name : String) (capacity : Nat) : Machine :=
  { machine with
    thread := .start (machine.parked.length + 1) name .new (.empty capacity)
    parked := machine.thread :: machine.parked }

/-- The heap size that a new thread has if it is asked for one of the size. -/
def sizeOr (machine : Machine) (size : UInt64) : UInt64 :=
  if size = 0 then machine.options.heapSize else size

theorem createThread_of_error {name : String} {size : UInt64} {violation : Violation}
    (refused : Heap.reserve (machine.sizeOr size) = .error violation) :
    createThread name size machine = .error (.violation violation) machine := by
  unfold createThread
  rw [bind_get]
  unfold sizeOr at refused
  rw [refused]
  rfl

theorem createThread_of_ok {name : String} {size : UInt64} {capacity : Nat}
    (reserved : Heap.reserve (machine.sizeOr size) = .ok (.empty capacity)) :
    createThread name size machine = .ok () (machine.withNew name capacity) := by
  unfold createThread
  rw [bind_get]
  unfold sizeOr at reserved
  rw [reserved]
  rfl

/-- The new thread is the same on a machine and on one that it precedes. -/
def newTwins (builtins : first.HasBuiltins) (sourced : first.Sourced) (identified : first.Identified)
    (identified' : later.Identified) (precedes : first.Precedes later) (name : String)
    (capacity : Nat) : Twins first where
  one := first.withNew name capacity
  two := later.withNew name capacity
  builtins := builtins
  foresees := (Foresees.refl first).withThread _ _ _
  foresees' := precedes.toForesees.withThread _ _ _
  identified := dictionary_identified.threads _ _ _ identified
  identified' := dictionary_identified.threads _ _ _ identified'
  sourced := sourced
  same := by
    unfold withNew
    rw [precedes.waiting]
  sound := Thread.sound_start _ _ name .new capacity

/-- A new thread is not influenced by others. Calls are made on the current thread of a machine, or they
are not; then a new thread is created and a call is made on it, which is given no object of another
thread. Either no thread can be created, before the calls or after them, or the call on the new thread
answers or halts with the same and leaves the same thread: its heap, its strings, its static fields and
what it has printed. And whatever has been asked of the pools of the classes, their memories answer as
the pools are read. -/
theorem new_thread_independent (first later : Machine) (session : Session (fun _ => True) first)
    (calls : first.Calls later) (threadName : String) (heapSize : UInt64) (find : Exec LinkedClass)
    (finds : (∃ c ∈ first.classes, find = pure c) ∨ ∃ className, find = Loading.resolve className)
    (fuel : Nat) (name descriptor : String) (given : List Call.Given)
    (own : ∀ item ∈ given, item.IsOwn) :
    ((∃ halt, createThread threadName heapSize first = .error halt first ∧
        createThread threadName heapSize later = .error halt later) ∨
      (Call.onNewThread threadName heapSize find fuel name descriptor given).SameOn first later) ∧
    ∀ c ∈ later.classes, c.pool.Transparent := by
  have builtins := dictionary_hasBuiltins.session session
  have identified := dictionary_identified.session session
  have precedes := calls.precedes builtins.rooted
  refine ⟨?_, fun c _ => c.pool.transparent⟩
  have size : later.sizeOr heapSize = first.sizeOr heapSize := by
    unfold sizeOr
    rw [precedes.options]
  cases reserved : Heap.reserve (first.sizeOr heapSize) with
  | error violation =>
      exact .inl ⟨_, createThread_of_error reserved, createThread_of_error (size ▸ reserved)⟩
  | ok heap =>
      obtain ⟨capacity, rfl⟩ := Heap.exists_empty_of_reserve reserved
      refine .inr ?_
      let twins := newTwins builtins session.sourced identified
        (calls.dictionary dictionary_identified identified) precedes threadName capacity
      have found : Twins.Agree find twins fun c later => later.Shared c := by
        rcases finds with ⟨c, known, rfl⟩ | ⟨className, rfl⟩
        · exact Twins.agree_pure ⟨known, precedes.kept known⟩
        · exact Twins.agree_resolve className
      have called : Twins.Agree (do
          let c ← find
          let arguments ← given.mapM' Call.Given.make
          Call.runNamed fuel c name descriptor arguments) twins fun v later => later.Holds v := by
        refine found.bind fun c found onward shared => ?_
        refine (Twins.agree_makeAll given own).bind fun arguments made onward held => ?_
        exact Twins.agree_runNamed fuel (onward.shared shared) name descriptor held
      have same := called.sameOn
      unfold SameOn Call.onNewThread
      rw [bind_of_ok (createThread_of_ok reserved), bind_of_ok (createThread_of_ok (size ▸ reserved))]
      exact same

/-! ## Cells of two threads -/

theorem session_cellMade : Session (fun _ => True) cellMade :=
  ((Session.start (start_eq_ok rfl)).withFile trivial "Cell" cellFile).calling trivial _ _ _

/-- The field of an object is read on a new thread. -/
def getOnNewThread (given : Call.Given) : Exec Value :=
  Call.onNewThread "B" 0 (Loading.resolve "Cell") 16 "get" "(LCell;)I" [given]

/-- A cell of the new thread is not the cell that has been assigned. -/
theorem new_thread_independent_cell :
    (getOnNewThread (.object "Cell")).SameOn cellMade cellSet ∧
      (getOnNewThread (.object "Cell")).answer? cellSet = some (.int 0) := by
  obtain ⟨outcome, -⟩ := new_thread_independent cellMade cellSet session_cellMade
    (Calls.none.calling "set" 16 _) "B" 0 (Loading.resolve "Cell") (.inr ⟨_, rfl⟩) 16 "get" "(LCell;)I"
    [.object "Cell"] fun item member => by
      obtain rfl := List.mem_singleton.mp member
      trivial
  refine ⟨outcome.resolve_left fun ⟨halt, refused, _⟩ => ?_, by decide +kernel⟩
  have created : (createThread "B" 0).answer? cellMade = some () := by decide +kernel
  cases refused.symm.trans (run_of_answer? created)

/-- An object that both threads are given is seen by both: a new thread finds in its field what
another one has assigned. -/
theorem new_thread_sees_shared_object :
    Session (fun _ => True) cellMade ∧ cellMade.Calls cellSet ∧
      (getOnNewThread (.value (.ref (some ⟨0, 0⟩)))).answer? cellMade = some (.int 0) ∧
      (getOnNewThread (.value (.ref (some ⟨0, 0⟩)))).answer? cellSet = some (.int 7) :=
  ⟨session_cellMade, Calls.none.calling "set" 16 _, by decide +kernel, by decide +kernel⟩

end Machine

end Jvm
